import FleetOrchestrator.Interleaving.Passage
import FleetOrchestrator.Scheduler.SkillLoader

/-! Where the body of a skill file begins, and what becomes of the bodies in a prompt. -/

namespace FleetOrchestrator.Scheduler.SkillLoader

open Core Interleaving

def dashes : List Char := ['-', '-', '-']

/-- What stands behind the end of a line, at the end of a line. -/
def lineEnd : List Char → Option (List Char)
  | [] => some []
  | '\n' :: t => some t
  | '\r' :: '\n' :: t => some t
  | _ => none

/-- What stands behind the first line that is exactly `---`, later than the line that the text
begins in. -/
def behindLine : List Char → Option (List Char)
  | [] => none
  | c :: t =>
    if '\n' :: dashes <+: c :: t ∧ (lineEnd (t.drop 3)).isSome then lineEnd (t.drop 3)
    else behindLine t

/-- The text behind the line that closes a frontmatter; without one, the text itself. -/
def frontmatterBody (content : List Char) : List Char :=
  if dashes <+: content ∧ (lineEnd (content.drop 3)).isSome then
    (behindLine (content.drop 3)).getD content
  else content

/-- The first newline with three dashes behind it stands between the two texts. -/
def FirstDashes (before body : List Char) : Prop :=
  ∀ t, t <:+ before → t ≠ [] → ¬('\n' :: dashes) <+: t ++ '\n' :: (dashes ++ body)

/-- Lines that begin with `---` are exactly that, up to the one that closes the frontmatter, and
what follows does not begin with white space. -/
def PlainlyDelimited (content : List Char) : Prop :=
  ∀ before body, content = dashes ++ (before ++ '\n' :: (dashes ++ body)) →
    FirstDashes before body → (lineEnd (before ++ '\n' :: (dashes ++ body))).isSome ∧
      ∃ b, lineEnd body = some b ∧ ∀ c, b.head? = some c → isWhiteSpace c = false

section Cut

variable {content rest body b t : List Char}

theorem afterFirst_cons {c : Char} (h : ¬('\n' :: dashes) <+: c :: t) :
    afterFirst ('\n' :: dashes) (c :: t) = afterFirst ('\n' :: dashes) t := by
  rw [afterFirst, if_neg]
  rwa [List.isPrefixOf_iff_prefix]

theorem afterFirst_found (t : List Char) :
    afterFirst ('\n' :: dashes) ('\n' :: (dashes ++ t)) = some t := by
  rw [afterFirst, if_pos]
  · rfl
  · rw [List.isPrefixOf_iff_prefix]
    exact List.prefix_append ('\n' :: dashes) t

theorem behindLine_cons {c : Char} (h : ¬('\n' :: dashes) <+: c :: t) :
    behindLine (c :: t) = behindLine t := by
  rw [behindLine, if_neg fun hx => h hx.1]

theorem behindLine_found (t : List Char) : behindLine ('\n' :: (dashes ++ t)) =
    if (lineEnd t).isSome then lineEnd t else behindLine (dashes ++ t) := by
  have hp : ('\n' :: dashes) <+: '\n' :: (dashes ++ t) := List.prefix_append ('\n' :: dashes) t
  have hd : (dashes ++ t).drop 3 = t := rfl
  rw [behindLine, hd]
  by_cases h : (lineEnd t).isSome
  · rw [if_pos ⟨hp, h⟩, if_pos h]
  · rw [if_neg fun hx => h hx.2, if_neg h]

theorem afterFirst_iff : afterFirst ('\n' :: dashes) rest = some body ↔
    ∃ before, rest = before ++ '\n' :: (dashes ++ body) ∧ FirstDashes before body := by
  induction rest with
  | nil =>
    constructor
    · intro h
      cases h
    · rintro ⟨before, h, -⟩
      cases before <;> cases h
  | cons c rest ih =>
    by_cases hp : ('\n' :: dashes) <+: c :: rest
    · constructor
      · intro h
        rw [List.cons_prefix_cons] at hp
        obtain ⟨rfl, t, rfl⟩ := hp
        rw [afterFirst_found, Option.some.injEq] at h
        refine ⟨[], by rw [h]; rfl, fun t ht hne => absurd (List.suffix_nil.mp ht) hne⟩
      · rintro ⟨before, h, hfirst⟩
        cases before with
        | nil =>
          rw [h]
          exact afterFirst_found body
        | cons d before =>
          rw [h] at hp
          exact absurd hp (hfirst _ List.suffix_rfl (List.cons_ne_nil _ _))
    · rw [afterFirst_cons hp, ih]
      constructor
      · rintro ⟨before, rfl, hfirst⟩
        refine ⟨c :: before, rfl, fun t ht hne => ?_⟩
        rcases List.suffix_cons_iff.mp ht with rfl | ht
        · exact hp
        · exact hfirst t ht hne
      · rintro ⟨before, h, hfirst⟩
        cases before with
        | nil =>
          rw [h] at hp
          exact absurd (List.prefix_append ('\n' :: dashes) body) hp
        | cons d before =>
          obtain ⟨rfl, rfl⟩ := List.cons_eq_cons.mp h
          exact ⟨before, rfl, fun t ht hne => hfirst t (ht.trans (List.suffix_cons _ _)) hne⟩

/-- Up to the first line that begins with `---` there is none that is exactly that. -/
theorem behindLine_of_afterFirst (h : afterFirst ('\n' :: dashes) rest = some body) :
    behindLine rest =
      if (lineEnd body).isSome then lineEnd body else behindLine (dashes ++ body) := by
  induction rest with
  | nil => cases h
  | cons c rest ih =>
    by_cases hp : ('\n' :: dashes) <+: c :: rest
    · rw [List.cons_prefix_cons] at hp
      obtain ⟨rfl, t, rfl⟩ := hp
      rw [afterFirst_found, Option.some.injEq] at h
      rw [behindLine_found, h]
    · rw [afterFirst_cons hp] at h
      rw [behindLine_cons hp, ih h]

theorem behindLine_none (h : afterFirst ('\n' :: dashes) rest = none) : behindLine rest = none := by
  induction rest with
  | nil => rfl
  | cons c rest ih =>
    by_cases hp : ('\n' :: dashes) <+: c :: rest
    · rw [List.cons_prefix_cons] at hp
      obtain ⟨rfl, t, rfl⟩ := hp
      rw [afterFirst_found] at h
      cases h
    · rw [afterFirst_cons hp] at h
      rw [behindLine_cons hp, ih h]

theorem lineEnd_suffix (h : lineEnd t = some b) : b <:+ t := by
  unfold lineEnd at h
  split at h
  · cases h
    exact List.suffix_rfl
  · cases h
    exact List.suffix_cons _ _
  · cases h
    exact (List.suffix_cons _ _).trans (List.suffix_cons _ _)
  · cases h

/-- White space is all that an end of line is. -/
theorem dropWhile_lineEnd (h : lineEnd t = some b) :
    t.dropWhile isWhiteSpace = b.dropWhile isWhiteSpace := by
  unfold lineEnd at h
  split at h
  · cases h
    rfl
  · cases h
    rfl
  · cases h
    rfl
  · cases h

/-- A later line that is exactly `---` stands behind three dashes and a newline more. -/
theorem behindLine_length (h : behindLine t = some b) : b.length + 4 ≤ t.length ∧
    (b.length + 3 ≤ (t.dropWhile isWhiteSpace).length) := by
  induction t with
  | nil => cases h
  | cons c t ih =>
    by_cases hp : ('\n' :: dashes) <+: c :: t
    · rw [List.cons_prefix_cons] at hp
      obtain ⟨rfl, r, rfl⟩ := hp
      have hdrop : ('\n' :: (dashes ++ r)).dropWhile isWhiteSpace = dashes ++ r := rfl
      rw [hdrop]
      rw [behindLine_found] at h
      split at h
      · have hlen := (lineEnd_suffix h).length_le
        simp only [List.length_cons, List.length_append, dashes, List.length_nil]
        omega
      · have hlen := (ih h).1
        simp only [List.length_cons]
        omega
    · rw [behindLine_cons hp] at h
      obtain ⟨hlong, hbody⟩ := ih h
      refine ⟨Nat.le_succ_of_le hlong, ?_⟩
      rw [List.dropWhile_cons]
      split
      · exact hbody
      · exact Nat.le_of_succ_le (Nat.le_succ_of_le hlong)

theorem dropWhile_eq_self : t.dropWhile isWhiteSpace = t ↔
    ∀ c, t.head? = some c → isWhiteSpace c = false := by
  cases t with
  | nil => simp
  | cons c t =>
    rw [List.dropWhile_cons]
    split
    next hc =>
      refine ⟨fun h => ?_, fun h => ?_⟩
      · have hlen := (List.dropWhile_suffix isWhiteSpace (l := t)).length_le
        rw [h, List.length_cons] at hlen
        omega
      · rw [h c rfl] at hc
        cases hc
    next hc =>
      rw [Bool.not_eq_true] at hc
      refine ⟨fun _ d hd => ?_, fun _ => rfl⟩
      cases hd
      exact hc

theorem afterFirst_length (h : afterFirst ('\n' :: dashes) rest = some body) :
    body.length + 4 ≤ rest.length := by
  induction rest with
  | nil => cases h
  | cons c rest ih =>
    by_cases hp : ('\n' :: dashes) <+: c :: rest
    · rw [List.cons_prefix_cons] at hp
      obtain ⟨rfl, t, rfl⟩ := hp
      rw [afterFirst_found, Option.some.injEq] at h
      rw [h]
      simp only [List.length_cons, List.length_append, dashes, List.length_nil]
      omega
    · rw [afterFirst_cons hp] at h
      exact Nat.le_succ_of_le (ih h)

theorem behindLine_dashes (body : List Char) : behindLine (dashes ++ body) = behindLine body := by
  have h (t : List Char) : behindLine ('-' :: t) = behindLine t := behindLine_cons (by simp)
  exact (h _).trans ((h _).trans (h _))

/-- The function on the characters of the text. -/
def stripped (content : List Char) : List Char :=
  match content with
  | '-' :: '-' :: '-' :: rest =>
    ((afterFirst ('\n' :: dashes) rest).map (·.dropWhile isWhiteSpace)).getD content
  | _ => content

theorem toList_stripFrontmatter (content : String) :
    (stripFrontmatter content).toList = stripped content.toList := by
  unfold stripFrontmatter
  split
  next rest h =>
    have hcut : stripped content.toList = ((afterFirst ('\n' :: dashes) rest).map
        (·.dropWhile isWhiteSpace)).getD content.toList := by
      rw [h]
      rfl
    rw [hcut]
    cases hbody : afterFirst ('\n' :: dashes) rest with
    | none =>
      rw [Option.map_none, Option.getD_none]
      simp only [dashes] at hbody
      simp only [hbody]
    | some body =>
      rw [Option.map_some, Option.getD_some, ← String.toList_ofList (l := body.dropWhile isWhiteSpace)]
      simp only [dashes] at hbody
      simp only [hbody]
  next h =>
    unfold stripped
    split
    next rest hr => exact absurd hr (h rest)
    next => rfl

theorem stripped_undashed (h : ¬ dashes <+: content) : stripped content = content := by
  unfold stripped
  split
  next rest => exact absurd (List.prefix_append dashes rest) h
  next => rfl

theorem stripped_dashed (rest : List Char) : stripped (dashes ++ rest) =
    ((afterFirst ('\n' :: dashes) rest).map (·.dropWhile isWhiteSpace)).getD (dashes ++ rest) := rfl

theorem frontmatterBody_dashed (rest : List Char) : frontmatterBody (dashes ++ rest) =
    if (lineEnd rest).isSome then (behindLine rest).getD (dashes ++ rest) else dashes ++ rest := by
  have hp : dashes <+: dashes ++ rest := List.prefix_append dashes rest
  have hd : (dashes ++ rest).drop 3 = rest := rfl
  rw [frontmatterBody, hd]
  by_cases h : (lineEnd rest).isSome
  · rw [if_pos ⟨hp, h⟩, if_pos h]
  · rw [if_neg fun hx => h hx.2, if_neg h]

theorem plainlyDelimited_some (h : afterFirst ('\n' :: dashes) rest = some body) :
    PlainlyDelimited (dashes ++ rest) ↔ (lineEnd rest).isSome ∧
      ∃ b, lineEnd body = some b ∧ ∀ c, b.head? = some c → isWhiteSpace c = false := by
  constructor
  · intro hp
    obtain ⟨before, rfl, hfirst⟩ := afterFirst_iff.mp h
    exact hp before body rfl hfirst
  · intro hp before body' hr hfirst
    obtain rfl := List.append_cancel_left hr
    rw [afterFirst_iff.mpr ⟨before, rfl, hfirst⟩, Option.some.injEq] at h
    exact h ▸ hp

theorem plainlyDelimited_none (h : afterFirst ('\n' :: dashes) rest = none) :
    PlainlyDelimited (dashes ++ rest) := by
  intro before body hr hfirst
  obtain rfl := List.append_cancel_left hr
  rw [afterFirst_iff.mpr ⟨before, rfl, hfirst⟩] at h
  cases h

theorem stripped_exact (content : List Char) :
    stripped content = frontmatterBody content ↔ PlainlyDelimited content := by
  by_cases hdash : dashes <+: content
  · obtain ⟨rest, rfl⟩ := hdash
    rw [stripped_dashed, frontmatterBody_dashed]
    cases hf : afterFirst ('\n' :: dashes) rest with
    | none =>
      rw [behindLine_none hf, iff_true_right (plainlyDelimited_none hf)]
      exact (ite_self _).symm
    | some body =>
      rw [plainlyDelimited_some hf, Option.map_some, Option.getD_some]
      have hshort : (body.dropWhile isWhiteSpace).length < (dashes ++ rest).length := by
        have hbody := afterFirst_length hf
        have htrim := (List.dropWhile_suffix isWhiteSpace (l := body)).length_le
        rw [List.length_append]
        omega
      by_cases hopen : (lineEnd rest).isSome
      · rw [if_pos hopen, and_iff_right hopen, behindLine_of_afterFirst hf, behindLine_dashes]
        cases hend : lineEnd body with
        | some b =>
          rw [Option.isSome_some, if_pos rfl, Option.getD_some, dropWhile_lineEnd hend,
            dropWhile_eq_self]
          constructor
          · intro h
            exact ⟨b, rfl, h⟩
          · rintro ⟨b', hb, h⟩
            cases hb
            exact h
        | none =>
          rw [Option.isSome_none, if_neg Bool.false_ne_true]
          refine ⟨fun h => ?_, fun ⟨b, hb, _⟩ => by cases hb⟩
          cases hlate : behindLine body with
          | none =>
            rw [hlate, Option.getD_none] at h
            rw [h] at hshort
            exact absurd hshort (lt_irrefl _)
          | some b =>
            rw [hlate, Option.getD_some] at h
            have hlen := (behindLine_length hlate).2
            rw [h] at hlen
            omega
      · rw [if_neg hopen]
        refine ⟨fun h => ?_, fun h => absurd h.1 hopen⟩
        rw [h] at hshort
        exact absurd hshort (lt_irrefl _)
  · rw [stripped_undashed hdash, frontmatterBody, if_neg fun hx => hdash hx.1]
    refine iff_of_true rfl fun before body hr _ => ?_
    exact absurd (hr ▸ List.prefix_append dashes _) hdash

end Cut

/-- What a skill is loaded as, and what was read for that, latest first. -/
inductive Read (name : String) : Option String → List (Entry Op Resp) → Prop
  | refused (h : traversesPath name = true) : Read name none []
  | markdown {content : String} (h : traversesPath name = false) :
      Read name (some (stripFrontmatter content)) [⟨.readSkill (name ++ ".md"), .text content⟩]
  | unreadable (h : traversesPath name = false) :
      Read name none [⟨.readSkill (name ++ ".md"), .unreadable⟩]
  | plain {content : String} (h : traversesPath name = false) :
      Read name (some (stripFrontmatter content)) [⟨.readSkill (name ++ ".txt"), .text content⟩,
        ⟨.readSkill (name ++ ".md"), .notFound⟩]
  | absent {file : SkillFile} (h : traversesPath name = false)
      (hf : ∀ content, file ≠ .text content) :
      Read name none [⟨.readSkill (name ++ ".txt"), file⟩,
        ⟨.readSkill (name ++ ".md"), .notFound⟩]

/-- The skills in order, each with what it is loaded as. -/
inductive Loads : List (String × Option String) → List (Entry Op Resp) → List (Entry Op Resp) → Prop
  | nil {h : List (Entry Op Resp)} : Loads [] h h
  | cons {name : String} {body : Option String} {read h h' : List (Entry Op Resp)}
      {skills : List (String × Option String)} (hr : Read name body read)
      (hl : Loads skills (read ++ h) h') : Loads ((name, body) :: skills) h h'

def blocksOf (skills : List (String × Option String)) : List String :=
  skills.filterMap fun s => s.2.map (skillBlock s.1)

def missingOf (skills : List (String × Option String)) : List String :=
  skills.filterMap fun s => if s.2.isNone then some s.1 else none

def loadedOf (sha256 : String → String) (skills : List (String × Option String)) :
    List SkillSnapshotEntry :=
  skills.filterMap fun s => s.2.map fun body => ⟨s.1, sha256 body, body.utf8ByteSize⟩

/-- The prompt behind the skills, as a task of its own if there are any. -/
def promptBehind (blocks : List String) (prompt : String) : String :=
  match blocks with
  | [] => prompt
  | _ :: _ => "\n\n".intercalate blocks ++ "\n\n<TASK>\n" ++ prompt ++ "\n</TASK>"

section Injection

variable {sha256 : String → String} {name prompt : String} {names : List String}
  {body : Option String} {g out : Gathered} {h h' : List (Entry Op Resp)}

theorem loadSkill_yields (hy : Yields (loadSkill name) h body h') :
    ∃ read, Read name body read ∧ h' = read ++ h := by
  unfold loadSkill at hy
  split at hy
  next hpath =>
    cases hy
    exact ⟨[], .refused hpath, rfl⟩
  next hpath =>
    rw [Bool.not_eq_true] at hpath
    obtain ⟨file, hy⟩ := yields_step hy
    cases file with
    | text content =>
      cases hy
      exact ⟨_, .markdown hpath, rfl⟩
    | unreadable =>
      cases hy
      exact ⟨_, .unreadable hpath, rfl⟩
    | notFound =>
      obtain ⟨txt, hy⟩ := yields_step hy
      cases txt with
      | text content =>
        cases hy
        exact ⟨_, .plain hpath, rfl⟩
      | unreadable =>
        cases hy
        exact ⟨_, .absent hpath fun content hc => SkillFile.noConfusion hc, rfl⟩
      | notFound =>
        cases hy
        exact ⟨_, .absent hpath fun content hc => SkillFile.noConfusion hc, rfl⟩

/-- One lap adds the skill to the blocks or to the missing. -/
theorem gather_yields (hy : Yields (gather sha256 names g) h out h') :
    ∃ skills, skills.map Prod.fst = names ∧ Loads skills h h' ∧
      out.blocks = g.blocks ++ blocksOf skills ∧ out.missing = g.missing ++ missingOf skills ∧
      out.loaded = g.loaded ++ loadedOf sha256 skills := by
  induction names generalizing g h with
  | nil =>
    cases hy
    exact ⟨[], rfl, .nil, (List.append_nil _).symm, (List.append_nil _).symm,
      (List.append_nil _).symm⟩
  | cons name names ih =>
    obtain ⟨body, h₁, hload, hrest⟩ := yields_bind hy
    obtain ⟨read, hread, rfl⟩ := loadSkill_yields hload
    obtain ⟨skills, hnames, hloads, hblocks, hmissing, hloaded⟩ := ih hrest
    refine ⟨(name, body) :: skills, by rw [List.map_cons, hnames], .cons hread hloads, ?_⟩
    rw [hblocks, hmissing, hloaded]
    cases body with
    | none => simp [Gathered.add, blocksOf, missingOf, loadedOf]
    | some body => simp [Gathered.add, blocksOf, missingOf, loadedOf]

theorem injectSkills_yields {out : SkillInjection}
    (hy : Yields (injectSkills sha256 prompt names) h out h') :
    ∃ skills, skills.map Prod.fst = names ∧ Loads skills h h' ∧
      out = ⟨promptBehind (blocksOf skills) prompt, missingOf skills, loadedOf sha256 skills⟩ := by
  obtain ⟨g, h₁, hgather, hrest⟩ := yields_bind hy
  obtain ⟨skills, hnames, hloads, hblocks, hmissing, hloaded⟩ := gather_yields hgather
  cases hrest
  rw [List.nil_append] at hblocks hmissing hloaded
  refine ⟨skills, hnames, hloads, ?_⟩
  rw [hblocks, hmissing, hloaded]
  cases blocksOf skills with
  | nil => rfl
  | cons block blocks => rfl

end Injection

/-- A skill arrives from behind its frontmatter exactly when the lines that begin like delimiters
are delimiters, and whatever is loaded stands before the prompt in order. -/
theorem skills_injected (sha256 : String → String) :
    (∀ content : String, (stripFrontmatter content).toList = frontmatterBody content.toList ↔
      PlainlyDelimited content.toList) ∧
    ∀ (prompt : String) (names : List String) (h h' : List (Entry Op Resp)) (out : SkillInjection),
      Yields (injectSkills sha256 prompt names) h out h' →
      ∃ skills, skills.map Prod.fst = names ∧ Loads skills h h' ∧
        out = ⟨promptBehind (blocksOf skills) prompt, missingOf skills,
          loadedOf sha256 skills⟩ := by
  constructor
  · intro content
    rw [toList_stripFrontmatter]
    exact stripped_exact content.toList
  · intro prompt names h h' out hy
    exact injectSkills_yields hy

theorem skills_injected_one : ∃ (out : SkillInjection) (skills : List (String × Option String)),
    Yields (injectSkills (fun _ => "") "fix" ["lint"]) [] out
      [⟨.readSkill "lint.md", .text "---\nname: lint\n---\nRun it."⟩] ∧
    skills.map Prod.fst = ["lint"] ∧
    Loads skills [] [⟨.readSkill "lint.md", .text "---\nname: lint\n---\nRun it."⟩] ∧
    out = ⟨promptBehind (blocksOf skills) "fix", missingOf skills,
      loadedOf (fun _ => "") skills⟩ := by
  have hpath : traversesPath "lint" = false := by decide
  obtain ⟨out, hy⟩ : ∃ out, Yields (injectSkills (fun _ => "") "fix" ["lint"]) [] out
      [⟨.readSkill "lint.md", .text "---\nname: lint\n---\nRun it."⟩] := by
    unfold injectSkills gather loadSkill
    rw [if_neg (by rw [hpath]; nofun)]
    exact ⟨_, .call (.text _) .ret⟩
  obtain ⟨skills, hskills⟩ := (skills_injected fun _ => "").2 "fix" ["lint"] [] _ out hy
  exact ⟨out, skills, hy, hskills⟩

/-- A line that only begins like the closing one closes the frontmatter. -/
theorem frontmatter_cut_early :
    ¬∀ content : String, (stripFrontmatter content).toList = frontmatterBody content.toList := by
  intro h
  have hcut := h "---\nnote: a\n----x\n---\nRun it."
  revert hcut
  decide

end FleetOrchestrator.Scheduler.SkillLoader
