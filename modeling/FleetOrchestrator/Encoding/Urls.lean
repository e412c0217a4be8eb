import Mathlib.Data.List.Basic
import Mathlib.Data.List.TakeWhile

/-! The parts of the text of a URL. -/

namespace FleetOrchestrator.Encoding

section Cut

variable {α : Type} [DecidableEq α] {a : α} {l r : List α}

/-- Nothing, or a text that the mark begins. -/
def Headed (a : α) (r : List α) : Prop := r = [] ∨ ∃ s, r = a :: s

theorem takeWhile_ne_append (h : a ∉ l) (hr : Headed a r) : (l ++ r).takeWhile (· != a) = l := by
  induction l with
  | nil =>
    obtain rfl | ⟨s, rfl⟩ := hr
    · rfl
    · simp
  | cons b l ih =>
    obtain ⟨hb, hl⟩ := not_or.mp (List.mem_cons.not.mp h)
    rw [List.cons_append, List.takeWhile_cons_of_pos (by simpa using Ne.symm hb), ih hl]

theorem dropWhile_ne_append (h : a ∉ l) (hr : Headed a r) : (l ++ r).dropWhile (· != a) = r := by
  have hboth := List.takeWhile_append_dropWhile (p := (· != a)) (l := l ++ r)
  rw [takeWhile_ne_append h hr] at hboth
  exact List.append_cancel_left hboth

theorem headed_dropWhile (a : α) (l : List α) : Headed a (l.dropWhile (· != a)) := by
  induction l with
  | nil => exact Or.inl rfl
  | cons b l ih =>
    by_cases hb : b = a
    · rw [hb, List.dropWhile_cons_of_neg (by simp)]
      exact Or.inr ⟨l, rfl⟩
    · rw [List.dropWhile_cons_of_pos (by simpa using hb)]
      exact ih

theorem notMem_takeWhile (a : α) (l : List α) : a ∉ l.takeWhile (· != a) := by
  intro h
  simpa using List.mem_takeWhile_imp h

/-- A part has no mark in it, and nothing that is not of the whole. -/
theorem part_of_splitOn {x : α} {xs part : List α} (h : part ∈ xs.splitOn x) :
    x ∉ part ∧ ∀ b ∈ part, b ∈ xs := by
  induction xs generalizing part with
  | nil =>
    rw [List.splitOn_nil, List.mem_singleton] at h
    simp [h]
  | cons b xs ih =>
    obtain ⟨first, rest, hparts⟩ := List.exists_cons_of_ne_nil (List.splitOn_ne_nil x xs)
    have hfirst := ih (hparts ▸ List.mem_cons_self)
    have hrest : ∀ q ∈ rest, x ∉ q ∧ ∀ b ∈ q, b ∈ xs :=
      fun q hq => ih (hparts ▸ List.mem_cons_of_mem _ hq)
    rw [List.splitOn_cons_eq_if_modifyHead, hparts] at h
    by_cases hb : b = x
    · simp only [hb, BEq.rfl, if_true, List.mem_cons] at h
      grind
    · simp only [beq_iff_eq, hb, if_false, List.modifyHead_cons, List.mem_cons] at h
      grind

end Cut

/-- What stands in front of the query, the parameters of the query, and the fragment with its mark. -/
@[ext]
structure Url where
  front : List Char
  query : Option (List (List Char))
  fragment : List Char
  deriving DecidableEq

namespace Url

def parseQuery : List Char → Option (List (List Char))
  | [] => none
  | _ :: params => some (params.splitOn '&')

def parse (t : List Char) : Url :=
  let main := t.takeWhile (· != '#')
  { front := main.takeWhile (· != '?')
    query := parseQuery (main.dropWhile (· != '?'))
    fragment := t.dropWhile (· != '#') }

def renderQuery : Option (List (List Char)) → List Char
  | none => []
  | some params => '?' :: ['&'].intercalate params

def render (u : Url) : List Char := u.front ++ (renderQuery u.query ++ u.fragment)

/-- The parts are apart from each other. -/
structure WellFormed (u : Url) : Prop where
  front : '?' ∉ u.front ∧ '#' ∉ u.front
  query : ∀ params, u.query = some params → params ≠ [] ∧ ∀ p ∈ params, '&' ∉ p ∧ '#' ∉ p
  fragment : Headed '#' u.fragment

theorem wellFormed_parse (t : List Char) : (parse t).WellFormed := by
  have hmain : '#' ∉ t.takeWhile (· != '#') := notMem_takeWhile '#' t
  constructor
  · exact ⟨notMem_takeWhile '?' _, fun h => hmain ((List.takeWhile_prefix _).mem h)⟩
  · intro params hparams
    cases hrest : (t.takeWhile (· != '#')).dropWhile (· != '?') with
    | nil => simp [parse, hrest, parseQuery] at hparams
    | cons c rest =>
      simp only [parse, hrest, parseQuery, Option.some.injEq] at hparams
      rw [← hparams]
      refine ⟨List.splitOn_ne_nil _ _, ?_⟩
      intro p hp
      obtain ⟨hamp, hsub⟩ := part_of_splitOn hp
      refine ⟨hamp, ?_⟩
      intro hhash
      apply hmain
      apply (List.dropWhile_suffix (· != '?')).mem
      rw [hrest]
      exact List.mem_cons_of_mem c (hsub _ hhash)
  · exact headed_dropWhile '#' t

theorem render_parse (t : List Char) : (parse t).render = t := by
  have hquery (s : List Char) (h : Headed '?' s) : renderQuery (parseQuery s) = s := by
    obtain rfl | ⟨params, rfl⟩ := h
    · rfl
    · rw [parseQuery, renderQuery, List.intercalate_splitOn]
  simp only [render, parse]
  rw [hquery _ (headed_dropWhile '?' _), ← List.append_assoc, List.takeWhile_append_dropWhile,
    List.takeWhile_append_dropWhile]

section Parameters

variable {u : Url} {front p fragment : List Char} {ps qs : List (List Char)} {c : Char}

theorem intercalate_cons_flatMap (p : List Char) (qs : List (List Char)) :
    ['&'].intercalate (p :: qs) = p ++ qs.flatMap ('&' :: ·) := by
  induction qs generalizing p with
  | nil => simp
  | cons q qs ih => rw [List.intercalate_cons_cons, ih, List.flatMap_cons]; simp

theorem intercalate_split (ps : List (List Char)) (p : List Char) (qs : List (List Char)) :
    ['&'].intercalate (ps ++ p :: qs) =
      ps.flatMap (· ++ ['&']) ++ (p ++ qs.flatMap ('&' :: ·)) := by
  induction ps with
  | nil => exact intercalate_cons_flatMap p qs
  | cons q ps ih =>
    rw [List.cons_append, List.intercalate_cons_of_ne_nil (by simp), ih, List.flatMap_cons]
    simp only [List.append_assoc]

/-- The text of a URL up to a parameter. -/
def lead (front : List Char) (ps : List (List Char)) : List Char :=
  front ++ '?' :: ps.flatMap (· ++ ['&'])

/-- The text of a URL behind a parameter. -/
def tail (qs : List (List Char)) (fragment : List Char) : List Char :=
  qs.flatMap ('&' :: ·) ++ fragment

theorem render_split (front p fragment : List Char) (ps qs : List (List Char)) :
    render { front, query := some (ps ++ p :: qs), fragment } =
      lead front ps ++ (p ++ tail qs fragment) := by
  simp only [render, renderQuery, lead, tail, intercalate_split, List.append_assoc,
    List.cons_append]

theorem mem_renderQuery (h : c ∈ renderQuery (some ps)) : c = '?' ∨ c = '&' ∨ ∃ p ∈ ps, c ∈ p := by
  cases ps with
  | nil => simp_all [renderQuery]
  | cons p qs =>
    rw [renderQuery, intercalate_cons_flatMap] at h
    simp only [List.mem_cons, List.mem_append, List.mem_flatMap] at h ⊢
    grind

theorem parse_render (h : u.WellFormed) : parse u.render = u := by
  obtain ⟨front, query, fragment⟩ := u
  have hheaded : Headed '?' (renderQuery query) := by
    cases query with
    | none => exact Or.inl rfl
    | some ps => exact Or.inr ⟨_, rfl⟩
  have hquery : parseQuery (renderQuery query) = query := by
    cases query with
    | none => rfl
    | some ps =>
      obtain ⟨hne, hps⟩ := h.query ps rfl
      rw [renderQuery, parseQuery, List.splitOn_intercalate _ (fun p hp => (hps p hp).1) hne]
  have hhash : '#' ∉ front ++ renderQuery query := by
    cases query with
    | none => simpa [renderQuery] using h.front.2
    | some ps =>
      intro hmem
      cases List.mem_append.mp hmem with
      | inl hfront => exact h.front.2 hfront
      | inr hparams =>
        obtain hc | hc | ⟨p, hp, hc⟩ := mem_renderQuery hparams
        · exact absurd hc (by decide)
        · exact absurd hc (by decide)
        · exact ((h.query ps rfl).2 p hp).2 hc
  simp only [parse, render]
  rw [← List.append_assoc, takeWhile_ne_append hhash h.fragment,
    dropWhile_ne_append hhash h.fragment, takeWhile_ne_append h.front.1 hheaded,
    dropWhile_ne_append h.front.1 hheaded, hquery]

end Parameters

end Url

end FleetOrchestrator.Encoding
