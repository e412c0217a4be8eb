import Mathlib.Data.List.DropRight
import FleetOrchestrator.Encoding.Urls

/-! The lines of a text, and the newlines at its end. -/

namespace FleetOrchestrator.Encoding

/-- A line without the carriage return that belongs to its end. -/
def chomp (l : List Char) : List Char := if l.getLast? = some '\r' then l.dropLast else l

/-- A text ends a line with each newline; what is left behind the last one is a line unless it is
empty. -/
def lines (t : List Char) : List (List Char) :=
  let pieces := t.splitOn '\n'
  pieces.dropLast.map chomp ++ (pieces.getLast?.filter (· ≠ [])).toList

def unlines (ls : List (List Char)) : List Char := ls.flatMap (· ++ ['\n'])

/-- Newlines are taken off the end for as long as there are more than `n`; the text is reversed. -/
def popNewlines (n : ℕ) : List Char → List Char
  | [] => []
  | c :: cs => if List.replicate (n + 1) '\n' <+: c :: cs then popNewlines n cs else c :: cs

def keepNewlines (n : ℕ) (t : List Char) : List Char := (popNewlines n t.reverse).reverse

section Lines

variable {l t u : List Char} {ls ms : List (List Char)} {n k : ℕ}

@[simp] theorem unlines_nil : unlines [] = [] := rfl

@[simp] theorem unlines_cons : unlines (l :: ls) = l ++ '\n' :: unlines ls := by
  simp [unlines]

theorem unlines_append : unlines (ls ++ ms) = unlines ls ++ unlines ms := List.flatMap_append

theorem lines_cons (h : '\n' ∉ l) (t : List Char) : lines (l ++ '\n' :: t) = chomp l :: lines t := by
  have hne : t.splitOn '\n' ≠ [] := List.splitOn_ne_nil _ _
  simp only [lines]
  rw [List.splitOn_append_cons_self_of_not_mem h, List.dropLast_cons_of_ne_nil hne,
    List.getLast?_cons_of_ne_nil hne]
  rfl

theorem lines_unlines_append (h : ∀ l ∈ ls, '\n' ∉ l) (t : List Char) :
    lines (unlines ls ++ t) = ls.map chomp ++ lines t := by
  induction ls with
  | nil => rfl
  | cons l ls ih =>
    obtain ⟨hl, hls⟩ := List.forall_mem_cons.mp h
    rw [unlines_cons, List.append_assoc, List.cons_append, lines_cons hl, ih hls]
    rfl

@[simp] theorem lines_nil : lines [] = [] := rfl

theorem lines_unlines (h : ∀ l ∈ ls, '\n' ∉ l) : lines (unlines ls) = ls.map chomp := by
  have happ := lines_unlines_append h []
  rwa [List.append_nil, lines_nil, List.append_nil] at happ

theorem replicate_prefix_iff (hu : u.head? ≠ some '\n') (m k : ℕ) :
    List.replicate m '\n' <+: List.replicate k '\n' ++ u ↔ m ≤ k := by
  induction m generalizing k with
  | zero => simp
  | succ m ih =>
    rw [List.replicate_succ]
    cases k with
    | zero =>
      cases u with
      | nil => simp
      | cons c u =>
        rw [List.replicate_zero, List.nil_append, List.cons_prefix_cons]
        constructor
        · rintro ⟨rfl, -⟩
          exact absurd rfl hu
        · intro h
          omega
    | succ k =>
      rw [List.replicate_succ, List.cons_append, List.cons_prefix_cons, ih,
        and_iff_right rfl, Nat.add_le_add_iff_right]

theorem popNewlines_replicate (hu : u.head? ≠ some '\n') (n k : ℕ) :
    popNewlines n (List.replicate k '\n' ++ u) = List.replicate (min k n) '\n' ++ u := by
  induction k with
  | zero =>
    cases u with
    | nil => simp [popNewlines]
    | cons c u =>
      have hc := (replicate_prefix_iff hu (n + 1) 0).not.mpr (by omega)
      rw [List.replicate_zero, List.nil_append] at hc
      simp [popNewlines, hc]
  | succ k ih =>
    have hp := replicate_prefix_iff hu (n + 1) (k + 1)
    rw [List.replicate_succ (n := k), List.cons_append] at hp ⊢
    rw [popNewlines]
    by_cases hn : n ≤ k
    · rw [if_pos (hp.mpr (by omega)), ih, Nat.min_eq_right hn, Nat.min_eq_right (by omega)]
    · rw [if_neg (hp.not.mpr (by omega)), Nat.min_eq_left (by omega), List.replicate_succ,
        List.cons_append]

/-- What is left of the newlines behind a text that does not end with one. -/
theorem keepNewlines_replicate (hu : u.getLast? ≠ some '\n') (n k : ℕ) :
    keepNewlines n (u ++ List.replicate k '\n') = u ++ List.replicate (min k n) '\n' := by
  rw [keepNewlines, List.reverse_append, List.reverse_replicate, popNewlines_replicate]
  · rw [List.reverse_append, List.reverse_replicate, List.reverse_reverse]
  · rwa [List.head?_reverse]

theorem exists_newlines (t : List Char) :
    ∃ u k, t = u ++ List.replicate k '\n' ∧ u.getLast? ≠ some '\n' := by
  induction t using List.reverseRecOn with
  | nil => exact ⟨[], 0, rfl, nofun⟩
  | append_singleton t c ih =>
    by_cases hc : c = '\n'
    · obtain ⟨u, k, rfl, hu⟩ := ih
      exact ⟨u, k + 1, by rw [hc, List.replicate_succ', List.append_assoc], hu⟩
    · refine ⟨t ++ [c], 0, (List.append_nil _).symm, ?_⟩
      rw [List.getLast?_concat, ne_eq, Option.some.injEq]
      exact hc

theorem keepNewlines_behind (n : ℕ) (hu : ∃ c ∈ u, c ≠ '\n') (t : List Char) :
    keepNewlines n (t ++ u) = t ++ keepNewlines n u := by
  obtain ⟨v, k, rfl, hv⟩ := exists_newlines u
  have hne : v ≠ [] := by
    rintro rfl
    obtain ⟨c, hc, hcn⟩ := hu
    exact hcn (List.eq_of_mem_replicate hc)
  have htv : (t ++ v).getLast? ≠ some '\n' := by
    rwa [List.getLast?_append_of_ne_nil _ hne]
  rw [keepNewlines_replicate hv, ← List.append_assoc, keepNewlines_replicate htv,
    List.append_assoc]

theorem count_keepNewlines {c : Char} (hc : c ≠ '\n') (n : ℕ) (t : List Char) :
    (keepNewlines n t).count c = t.count c := by
  obtain ⟨u, k, rfl, hu⟩ := exists_newlines t
  rw [keepNewlines_replicate hu, List.count_append, List.count_append, List.count_replicate,
    List.count_replicate]
  simp [hc.symm]

/-- The lines up to the last one with a character, and the empty ones behind it. -/
theorem exists_empty_lines (ls : List (List Char)) :
    ∃ ms k, ls = ms ++ List.replicate k [] ∧ ms.getLast? ≠ some [] := by
  induction ls using List.reverseRecOn with
  | nil => exact ⟨[], 0, rfl, nofun⟩
  | append_singleton ls l ih =>
    by_cases hl : l = []
    · obtain ⟨ms, k, rfl, hms⟩ := ih
      exact ⟨ms, k + 1, by rw [hl, List.replicate_succ', List.append_assoc], hms⟩
    · refine ⟨ls ++ [l], 0, (List.append_nil _).symm, ?_⟩
      rw [List.getLast?_concat, ne_eq, Option.some.injEq]
      exact hl

theorem unlines_replicate (k : ℕ) : unlines (List.replicate k []) = List.replicate k '\n' := by
  induction k with
  | zero => rfl
  | succ k ih => rw [List.replicate_succ, unlines_cons, ih, List.nil_append, List.replicate_succ]

/-- Of the empty lines at the end of a text at most `n` stay. -/
theorem keepNewlines_unlines (hn : ∀ l ∈ ms, '\n' ∉ l) (hl : ms.getLast? ≠ some [])
    (hms : ms ≠ []) (n k : ℕ) :
    keepNewlines (n + 1) (unlines (ms ++ List.replicate k [])) =
      unlines (ms ++ List.replicate (min k n) []) := by
  obtain ⟨front, l, rfl⟩ : ∃ front l, ms = front ++ [l] :=
    ⟨ms.dropLast, ms.getLast hms, (List.dropLast_append_getLast hms).symm⟩
  rw [List.getLast?_concat, ne_eq, Option.some.injEq] at hl
  have hend : (unlines front ++ l).getLast? ≠ some '\n' := by
    rw [List.getLast?_append_of_ne_nil _ hl]
    intro h
    exact hn l (by simp) (List.mem_of_getLast? h)
  have htext (k : ℕ) : unlines (front ++ [l] ++ List.replicate k []) =
      unlines front ++ l ++ List.replicate (k + 1) '\n' := by
    rw [unlines_append, unlines_append, unlines_replicate, List.replicate_succ]
    simp
  rw [htext, htext, keepNewlines_replicate hend]
  congr 2
  omega

/-- A text of whole lines only loses empty ones at its end. -/
theorem keepNewlines_front (hn : ∀ l ∈ ls, '\n' ∉ l) (n : ℕ) : ∃ front j k,
    ls = front ++ List.replicate j [] ∧
      keepNewlines (n + 1) (unlines ls) = unlines (front ++ List.replicate k []) := by
  obtain ⟨ms, k, rfl, hms⟩ := exists_empty_lines ls
  by_cases hne : ms = []
  · subst hne
    refine ⟨[], k, min k (n + 1), rfl, ?_⟩
    rw [List.nil_append, List.nil_append, unlines_replicate, unlines_replicate]
    exact keepNewlines_replicate (u := []) nofun (n + 1) k
  · exact ⟨ms, k, min k n, rfl,
      keepNewlines_unlines (fun l hl => hn l (List.mem_append_left _ hl)) hms hne n k⟩

theorem chomp_sublist (l : List Char) : (chomp l).Sublist l := by
  rw [chomp]
  split
  · exact List.dropLast_sublist l
  · exact List.Sublist.refl l

theorem notMem_lines (h : l ∈ lines t) : '\n' ∉ l := by
  rw [lines, List.mem_append, List.mem_map] at h
  rcases h with ⟨p, hp, rfl⟩ | h
  · intro hc
    exact (part_of_splitOn ((List.dropLast_sublist _).mem hp)).1 ((chomp_sublist p).mem hc)
  · rw [Option.mem_toList, Option.filter_eq_some_iff] at h
    exact (part_of_splitOn (List.mem_of_getLast? h.1)).1

/-- A text is the lines that a newline ends, and what is left. -/
theorem exists_lines (t : List Char) : ∃ ls last, t = unlines ls ++ last ∧
    (∀ l ∈ ls, '\n' ∉ l) ∧ '\n' ∉ last := by
  induction t with
  | nil => exact ⟨[], [], rfl, fun l hl => absurd hl List.not_mem_nil, List.not_mem_nil⟩
  | cons c t ih =>
    obtain ⟨ls, last, rfl, hls, hlast⟩ := ih
    by_cases hc : c = '\n'
    · subst hc
      exact ⟨[] :: ls, last, rfl, List.forall_mem_cons.mpr ⟨List.not_mem_nil, hls⟩, hlast⟩
    · cases ls with
      | nil => exact ⟨[], c :: last, rfl, hls, by simp [Ne.symm hc, hlast]⟩
      | cons l ls =>
        obtain ⟨hl, hls⟩ := List.forall_mem_cons.mp hls
        refine ⟨(c :: l) :: ls, last, by simp, List.forall_mem_cons.mpr ⟨?_, hls⟩, hlast⟩
        simp [Ne.symm hc, hl]

theorem lines_last (h : '\n' ∉ l) (hl : l ≠ []) : lines l = [l] := by
  simp [lines, List.splitOn_eq_singleton h, hl]

end Lines

end FleetOrchestrator.Encoding
