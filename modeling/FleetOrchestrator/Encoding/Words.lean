import Mathlib.Data.List.DropRight

/-! The words of a text: what stands between the characters that separate them. -/

namespace FleetOrchestrator.Encoding

variable {α : Type} (p : α → Bool) {t u w : List α} {c : α}

def words (t : List α) : List (List α) := (t.splitOnP p).filter (· ≠ [])

@[simp] theorem words_nil : words p [] = [] := by
  simp [words, List.splitOnP_nil]

theorem words_append_cons (hc : p c = true) : words p (t ++ c :: u) = words p t ++ words p u := by
  rw [words, List.splitOnP_append_cons t u hc, List.filter_append]
  rfl

theorem words_eq_nil_iff : words p t = [] ↔ ∀ c ∈ t, p c = true := by
  induction t with
  | nil => simp
  | cons c t ih =>
    rw [List.forall_mem_cons]
    by_cases hc : p c = true
    · have hcons := words_append_cons p (t := []) (u := t) hc
      rw [List.nil_append, words_nil, List.nil_append] at hcons
      rw [hcons, ih, and_iff_right hc]
    · obtain ⟨l, ls, hls⟩ := List.exists_cons_of_ne_nil (List.splitOnP_ne_nil p t)
      simp [words, List.splitOnP_cons_eq_if_modifyHead, hc, hls]

theorem words_concat (hc : p c = true) : words p (t ++ [c]) = words p t := by
  rw [words_append_cons p hc, words_nil, List.append_nil]

/-- What is left of a text without the characters at its two ends. -/
def trimMatches (t : List α) : List α := (t.dropWhile p).rdropWhile p

theorem trimMatches_eq (t : List α) : ∃ before after : List α,
    t = before ++ trimMatches p t ++ after ∧ (∀ c ∈ before, p c = true) ∧
      ∀ c ∈ after, p c = true := by
  refine ⟨t.takeWhile p, (t.dropWhile p).rtakeWhile p, ?_, ?_, ?_⟩
  · rw [trimMatches, List.append_assoc, List.rdropWhile_append_rtakeWhile,
      List.takeWhile_append_dropWhile]
  · intro c hc
    exact List.mem_takeWhile_imp hc
  · intro c hc
    exact List.mem_rtakeWhile_imp hc

end FleetOrchestrator.Encoding

/-! Names as the requests bring them. -/

namespace FleetOrchestrator.Core

/-- The characters that `trim` takes away. -/
def isWhiteSpace (c : Char) : Bool :=
  let n := c.toNat
  (9 ≤ n && n ≤ 13) || (0x2000 ≤ n && n ≤ 0x200a) ||
    [0x20, 0x85, 0xa0, 0x1680, 0x2028, 0x2029, 0x202f, 0x205f, 0x3000].contains n

def trim (s : String) : String :=
  String.ofList ((s.toList.dropWhile isWhiteSpace).rdropWhile isWhiteSpace)

end FleetOrchestrator.Core
