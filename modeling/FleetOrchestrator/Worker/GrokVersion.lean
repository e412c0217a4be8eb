import FleetOrchestrator.Encoding.Lines
import FleetOrchestrator.Encoding.Words

/-! What the worker takes for the version of its grok binary. -/

namespace FleetOrchestrator.Worker

open Core Encoding

/-- `xs[k..]`; `none` is a panic. -/
def sliceFrom {α : Type} (k : ℕ) (xs : List α) : Option (List α) :=
  if k ≤ xs.length then some (xs.drop k) else none

def isVersionEdge (c : Char) : Bool := !c.isAlphanum && c ≠ '.'

def isVersion (clean : List Char) : Bool :=
  (clean.head?.map Char.isDigit).getD false && clean.contains '.'

/-- The outer `none` is a panic. The binary may give no answer; one it gives is its standard output
and its standard error, as text. -/
def detectGrokVersion (output : Option (List Char × List Char)) : Option (Option (List Char)) :=
  match output with
  | none => some none
  | some (stdout, stderr) =>
    match (lines (stdout ++ stderr)).head? with
    | none => some none
    | some line =>
      match sliceFrom 1 (words isWhiteSpace line) with
      | none => none
      | some tokens => some ((tokens.map (trimMatches isVersionEdge)).find? isVersion)

/-- A version of the text is a word of it, less the characters at the word's ends that cannot be
part of one. -/
def VersionOf (text version : List Char) : Prop :=
  isVersion version = true ∧
    ∃ token ∈ words isWhiteSpace text, trimMatches isVersionEdge token = version

def firstLine (text : List Char) : List Char := text.takeWhile (· ≠ '\n')

section Lines

variable (text : List Char)

theorem words_chomp (line : List Char) :
    words isWhiteSpace (chomp line) = words isWhiteSpace line := by
  rw [chomp]
  split
  · rename_i hlast
    obtain ⟨front, rfl⟩ := List.getLast?_eq_some_iff.mp hlast
    rw [List.dropLast_concat, words_concat _ (by decide)]
  · rfl

theorem lines_head (hne : text ≠ []) : ∃ line, (lines text).head? = some line ∧
    words isWhiteSpace line = words isWhiteSpace (firstLine text) ∧
    words isWhiteSpace (firstLine text) ⊆ words isWhiteSpace text := by
  by_cases hmem : '\n' ∈ text
  · obtain ⟨first, rest, rfl, hfirst⟩ := List.eq_append_cons_of_mem hmem
    have htake : firstLine (first ++ '\n' :: rest) = first := by
      have hall : ∀ c ∈ first, decide (c ≠ '\n') = true := by
        intro c hc
        exact decide_eq_true fun he => hfirst (he ▸ hc)
      rw [firstLine, List.takeWhile_append_of_pos hall]
      simp
    refine ⟨chomp first, ?_, ?_, ?_⟩
    · rw [lines_cons hfirst]
      rfl
    · rw [htake, words_chomp]
    · rw [htake, words_append_cons _ (by decide)]
      exact List.subset_append_left _ _
  · have hall : ∀ c ∈ text, decide (c ≠ '\n') = true := by
      intro c hc
      exact decide_eq_true fun he => hmem (he ▸ hc)
    have htake : firstLine text = text := List.takeWhile_eq_self_iff.mpr hall
    refine ⟨text, ?_, by rw [htake], ?_⟩
    · rw [lines, List.splitOn_eq_singleton hmem]
      simp [hne]
    · rw [htake]
      exact List.Subset.refl _

end Lines

/-- The parser comes back with a version of the text or with nothing exactly if the text is empty
or its first line is not blank; at a blank first line it panics. -/
theorem detectGrokVersion_returns_iff (stdout stderr : List Char) :
    (∃ found, detectGrokVersion (some (stdout, stderr)) = some found ∧
        ∀ version ∈ found, VersionOf (stdout ++ stderr) version) ↔
      stdout ++ stderr = [] ∨ ∃ c ∈ firstLine (stdout ++ stderr), isWhiteSpace c = false := by
  by_cases hne : stdout ++ stderr = []
  · refine iff_of_true ⟨none, ?_, nofun⟩ (Or.inl hne)
    rw [detectGrokVersion]
    simp only [hne, lines_nil, List.head?_nil]
  · obtain ⟨line, hline, hwords, hsub⟩ := lines_head _ hne
    have hblank := words_eq_nil_iff isWhiteSpace (t := firstLine (stdout ++ stderr))
    rw [← hwords] at hblank hsub
    simp only [detectGrokVersion, hline, hne, false_or]
    cases htokens : words isWhiteSpace line with
    | nil =>
      have hspace := hblank.mp htokens
      constructor
      · rintro ⟨found, hfound, -⟩
        cases hfound
      · rintro ⟨c, hc, hvisible⟩
        rw [hspace c hc] at hvisible
        cases hvisible
    | cons token tokens =>
      rw [htokens] at hsub hblank
      refine iff_of_true ⟨_, rfl, ?_⟩ ?_
      · intro version hversion
        have hmem := List.mem_of_find?_eq_some hversion
        obtain ⟨word, hword, hclean⟩ := List.mem_map.mp hmem
        refine ⟨List.find?_some hversion, word, hsub (List.mem_cons_of_mem _ hword), hclean⟩
      · by_contra hall
        apply List.cons_ne_nil token tokens
        apply hblank.mpr
        intro c hc
        by_contra hvisible
        exact hall ⟨c, hc, eq_false_of_ne_true hvisible⟩

/-- A newline in front of the banner. -/
theorem blank_line_panics : ¬ ∀ stdout stderr : List Char, ∃ found,
    detectGrokVersion (some (stdout, stderr)) = some found ∧
      ∀ version ∈ found, VersionOf (stdout ++ stderr) version := by
  intro hall
  obtain ⟨found, hfound, -⟩ := hall "\ngrok 0.2.103".toList []
  have hpanic : detectGrokVersion (some ("\ngrok 0.2.103".toList, [])) = none := by decide
  rw [hpanic] at hfound
  cases hfound

example : detectGrokVersion (some ("grok 0.2.103 (89c3d36fb6)\n".toList, [])) =
    some (some "0.2.103".toList) := by decide

end FleetOrchestrator.Worker
