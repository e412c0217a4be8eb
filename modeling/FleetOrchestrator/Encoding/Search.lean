import Mathlib.Data.List.Infix
import Mathlib.Data.List.TakeDrop

/-! The first place of a word in a text. -/

namespace FleetOrchestrator.Encoding

variable {α : Type} {w pre post post' l r t : List α} {d : α}

theorem prefix_append_iff (h : w.length ≤ l.length) : w <+: l ++ r ↔ w <+: l := by
  constructor
  · intro hw
    exact List.prefix_of_prefix_length_le hw (List.prefix_append l r) h
  · intro hw
    exact hw.trans (List.prefix_append l r)

/-- A word is on one side of what it does not contain. -/
theorem prefix_of_separated (hd : d ∉ w) (h : w <+: l ++ d :: r) : w <+: l := by
  apply List.prefix_of_prefix_length_le h (List.prefix_append l _)
  by_contra hlong
  obtain ⟨rest, hrest⟩ := h
  have hget : (w ++ rest)[l.length]? = some d := by rw [hrest]; simp
  rw [List.getElem?_append_left (by omega)] at hget
  exact hd (List.mem_of_getElem? hget)

theorem infix_intercalate {x : List α} {xs : List (List α)} (sep : List α) (h : x ∈ xs) :
    x <:+: sep.intercalate xs := by
  induction xs with
  | nil => cases h
  | cons y ys ih =>
    cases ys with
    | nil =>
      rw [List.mem_singleton.mp h, List.intercalate_singleton]
    | cons z zs =>
      rw [List.intercalate_cons_cons, List.append_assoc]
      rcases List.mem_cons.mp h with rfl | h
      · exact (List.prefix_append x _).isInfix
      · exact (ih h).trans (List.suffix_append_of_suffix (List.suffix_append sep _)).isInfix

variable [DecidableEq α]

/-- What stands before the first place of the word and what stands behind it. -/
def splitFirst (w : List α) : List α → Option (List α × List α)
  | [] => if w = [] then some ([], []) else none
  | c :: t =>
    if w <+: c :: t then some ([], (c :: t).drop w.length)
    else (splitFirst w t).map fun p => (c :: p.1, p.2)

theorem splitFirst_prefixed (h : w <+: t) : splitFirst w t = some ([], t.drop w.length) := by
  cases t with
  | nil =>
    rw [List.prefix_nil.mp h]
    rfl
  | cons c t => rw [splitFirst, if_pos h]

theorem splitFirst_append (w r : List α) : splitFirst w (w ++ r) = some ([], r) := by
  rw [splitFirst_prefixed (List.prefix_append w r), List.drop_left]

theorem splitFirst_cons (h : ¬w <+: d :: t) :
    splitFirst w (d :: t) = (splitFirst w t).map fun p => (d :: p.1, p.2) := by
  rw [splitFirst, if_neg h]

theorem eq_of_splitFirst (h : splitFirst w t = some (pre, post)) : t = pre ++ (w ++ post) := by
  induction t generalizing pre with
  | nil =>
    rw [splitFirst, Option.ite_none_right_eq_some] at h
    obtain ⟨rfl, h⟩ := h
    cases h
    rfl
  | cons c t ih =>
    by_cases hw : w <+: c :: t
    · rw [splitFirst_prefixed hw] at h
      cases h
      exact List.prefix_append_drop hw
    · rw [splitFirst_cons hw, Option.map_eq_some_iff] at h
      obtain ⟨⟨pre₁, post₁⟩, hrest, h⟩ := h
      cases h
      rw [ih hrest, List.cons_append]

theorem splitFirst_eq_none (h : splitFirst w t = none) : ¬w <:+: t := by
  induction t with
  | nil =>
    intro hw
    rw [splitFirst, if_pos (List.infix_nil.mp hw)] at h
    simp at h
  | cons c t ih =>
    by_cases hw : w <+: c :: t
    · rw [splitFirst_prefixed hw] at h
      simp at h
    · rw [splitFirst_cons hw, Option.map_eq_none_iff] at h
      intro hin
      cases List.infix_cons_iff.mp hin with
      | inl hprefix => exact hw hprefix
      | inr hinfix => exact ih h hinfix

/-- What stands behind the first place does not matter to where it is. -/
theorem splitFirst_stable (h : splitFirst w (pre ++ (w ++ post)) = some (pre, post)) :
    splitFirst w (pre ++ (w ++ post')) = some (pre, post') := by
  induction pre with
  | nil => exact splitFirst_append w post'
  | cons c pre ih =>
    have hlong : w.length ≤ (c :: (pre ++ w)).length := by
      simp only [List.length_cons, List.length_append]
      omega
    have hsame (s : List α) : w <+: c :: (pre ++ (w ++ s)) ↔ w <+: c :: (pre ++ w) := by
      rw [← List.append_assoc, ← List.cons_append]
      exact prefix_append_iff hlong
    have hw : ¬w <+: c :: (pre ++ (w ++ post)) := by
      intro hw
      rw [List.cons_append, splitFirst_prefixed hw] at h
      simp at h
    have hw' : ¬w <+: c :: (pre ++ (w ++ post')) := (hsame post').not.mpr ((hsame post).not.mp hw)
    rw [List.cons_append, splitFirst_cons hw, Option.map_eq_some_iff] at h
    obtain ⟨⟨pre₁, post₁⟩, hrest, h⟩ := h
    cases h
    rw [List.cons_append, splitFirst_cons hw', ih hrest]
    rfl

/-- The first place is in front of any other. -/
theorem splitFirst_prefix (h : t = l ++ (w ++ r)) :
    ∃ p : List α × List α, splitFirst w t = some p ∧ p.1 <+: l := by
  induction l generalizing t with
  | nil =>
    rw [h]
    exact ⟨([], r), splitFirst_append w r, List.nil_prefix⟩
  | cons c l ih =>
    by_cases hw : w <+: t
    · exact ⟨([], _), splitFirst_prefixed hw, List.nil_prefix⟩
    · obtain ⟨p, hrest, hpre⟩ := ih rfl
      refine ⟨(c :: p.1, p.2), ?_, List.cons_prefix_cons.mpr ⟨rfl, hpre⟩⟩
      rw [h, List.cons_append] at hw ⊢
      rw [splitFirst_cons hw, hrest]
      rfl

theorem splitFirst_front (hw : w ≠ []) (h : splitFirst w t = some (pre, post)) :
    splitFirst w pre = none := by
  cases hpre : splitFirst w pre with
  | none => rfl
  | some p =>
    have htext : t = p.1 ++ (w ++ (p.2 ++ (w ++ post))) := by
      rw [eq_of_splitFirst h]
      nth_rewrite 1 [eq_of_splitFirst hpre]
      simp only [List.append_assoc]
    obtain ⟨q, hq, hprefix⟩ := splitFirst_prefix htext
    rw [h] at hq
    cases hq
    have hlong := hprefix.length_le
    have hparts := congrArg List.length (eq_of_splitFirst hpre)
    have hpos := List.length_pos_iff.mpr hw
    simp only [List.length_append] at hlong hparts
    omega

theorem splitFirst_separated (hd : d ∉ w) (hw : w ≠ []) :
    splitFirst w (l ++ d :: r) = match splitFirst w l with
      | some (pre, post) => some (pre, post ++ d :: r)
      | none => (splitFirst w r).map fun p => (l ++ d :: p.1, p.2) := by
  induction l with
  | nil =>
    have hnot : ¬w <+: d :: r := by
      intro h
      exact hw (List.prefix_nil.mp (prefix_of_separated (l := []) hd h))
    rw [List.nil_append, splitFirst_cons hnot, splitFirst, if_neg hw]
    rfl
  | cons c l ih =>
    by_cases hin : w <+: c :: l
    · have hlong : w <+: (c :: l) ++ d :: r := hin.trans (List.prefix_append _ _)
      rw [splitFirst_prefixed hlong, splitFirst_prefixed hin,
        List.drop_append_of_le_length hin.length_le]
    · have hnot : ¬w <+: (c :: l) ++ d :: r := fun h => hin (prefix_of_separated hd h)
      rw [List.cons_append] at hnot ⊢
      rw [splitFirst_cons hnot, splitFirst_cons hin, ih]
      cases splitFirst w l with
      | none => simp [Option.map_map, Function.comp_def]
      | some p => rfl

theorem splitFirst_behind (hd : d ∉ w) (hw : w ≠ []) (hl : splitFirst w l = none)
    (h : splitFirst w (l ++ d :: r) = some (pre, post)) :
    ∃ g, splitFirst w r = some (g, post) ∧ pre = l ++ d :: g := by
  rw [splitFirst_separated hd hw, hl, Option.map_eq_some_iff] at h
  obtain ⟨p, hp, h⟩ := h
  cases h
  exact ⟨p.1, hp, rfl⟩

/-- One character that splits, at its first place. -/
theorem splitFirst_singleton (hd : d ∉ l) (r : List α) : splitFirst [d] (l ++ d :: r) = some (l, r) := by
  induction l with
  | nil => exact splitFirst_append [d] r
  | cons c l ih =>
    rw [List.mem_cons, not_or] at hd
    have hnot : ¬[d] <+: c :: (l ++ d :: r) := by
      rw [List.cons_prefix_cons]
      exact fun h => hd.1 h.1
    rw [List.cons_append, splitFirst_cons hnot, ih hd.2]
    rfl

theorem notMem_of_splitFirst (h : splitFirst [d] t = some (pre, post)) : d ∉ pre := by
  intro hd
  have hpre := splitFirst_eq_none (splitFirst_front (List.cons_ne_nil d []) h)
  obtain ⟨a, b, rfl⟩ := List.append_of_mem hd
  exact hpre ⟨a, b, by simp⟩

end FleetOrchestrator.Encoding
