import Mathlib.Data.Int.Notation
import Mathlib.Data.List.Basic
import Mathlib.Data.List.Count

/-! Timed entries, oldest first, and the window that the newest of them leaves open. -/

namespace FleetOrchestrator.Tables

variable {α : Type} {width now : ℤ} {l : List (α × ℤ)}

/-- The entries no further than the width from the last one. -/
def window (width : ℤ) (l : List (α × ℤ)) : List (α × ℤ) :=
  l.filter fun s => l.getLast?.all fun e => e.2 - s.2 ≤ width

def Chronological (l : List (α × ℤ)) : Prop := l.Pairwise fun s t => s.2 ≤ t.2

theorem chronological_push {a : α} (hl : Chronological l) (hnow : ∀ s ∈ l, s.2 ≤ now) :
    Chronological (l ++ [(a, now)]) := by
  refine List.pairwise_append.mpr ⟨hl, List.pairwise_singleton _ _, fun s hs t ht => ?_⟩
  rw [List.mem_singleton.mp ht]
  exact hnow s hs

/-- Where what is dropped stands in front, dropping is filtering. -/
theorem dropWhile_eq_filter {p : α → Bool} {l : List α}
    (h : l.Pairwise fun s t => p t = true → p s = true) :
    l.dropWhile p = l.filter fun s => !p s := by
  induction l with
  | nil => rfl
  | cons s l ih =>
    obtain ⟨hs, hl⟩ := List.pairwise_cons.mp h
    by_cases hp : p s = true
    · rw [List.dropWhile_cons_of_pos hp, List.filter_cons_of_neg (by simp [hp]), ih hl]
    · rw [List.dropWhile_cons_of_neg hp, eq_comm, List.filter_eq_self]
      intro t ht
      rcases List.mem_cons.mp ht with rfl | ht
      · simpa using hp
      · simpa using mt (hs t ht) hp

theorem window_sublist : (window width l).Sublist l := List.filter_sublist

theorem window_push_eq {a : α} : window width (l ++ [(a, now)]) =
    (l ++ [(a, now)]).filter fun s => now - s.2 ≤ width := by
  simp [window]

/-- A new entry closes the window to those that it leaves too far behind. -/
theorem window_push {a : α} (hl : Chronological l) (hnow : ∀ s ∈ l, s.2 ≤ now) :
    (window width l ++ [(a, now)]).dropWhile (fun s => now - s.2 > width) =
      window width (l ++ [(a, now)]) := by
  have hsorted : (window width l ++ [(a, now)]).Pairwise fun s t => s.2 ≤ t.2 :=
    (chronological_push hl hnow).sublist (window_sublist.append (List.Sublist.refl _))
  rw [window_push_eq, dropWhile_eq_filter]
  · -- whoever is within the width of `now` is within the width of the last entry before
    simp only [gt_iff_lt, ← Int.not_le, decide_not, Bool.not_not]
    rw [window, List.filter_append, List.filter_append, List.filter_filter]
    congr 1
    apply List.filter_congr
    intro s hs
    cases hlast : l.getLast? with
    | none => simp
    | some e =>
      have he := hnow e (List.mem_of_getLast? hlast)
      rw [Bool.eq_iff_iff]
      simp only [Option.all_some, Bool.and_eq_true, decide_eq_true_eq]
      omega
  · refine hsorted.imp fun {s t} hst => ?_
    simp only [decide_eq_true_eq]
    omega

section Sparse

variable {n : ℕ} {p : α → Bool} {time : α → ℤ} {as : List α} {a : α}

/-- In every span of that width there are at most `n`. -/
def Sparse (width : ℤ) (n : ℕ) (p : α → Bool) (time : α → ℤ) (as : List α) : Prop :=
  ∀ start, as.countP (fun a => p a && start ≤ time a && time a ≤ start + width) ≤ n

theorem sparse_nil : Sparse width n p time [] := fun _ => Nat.zero_le n

/-- Something is added where fewer than `n` lie within the width before it, or later. -/
theorem sparse_push (h : Sparse width n p time as)
    (hfew : p a = true → as.countP (fun b => p b && time a - width ≤ time b) < n) :
    Sparse width n p time (as ++ [a]) := by
  intro start
  rw [List.countP_append, List.countP_singleton]
  by_cases ha : (p a && start ≤ time a && time a ≤ start + width) = true
  · rw [if_pos ha]
    simp only [Bool.and_eq_true, decide_eq_true_eq] at ha
    obtain ⟨⟨hp, -⟩, hend⟩ := ha
    have hle := List.countP_mono_left (l := as)
      (p := fun b => p b && start ≤ time b && time b ≤ start + width)
      (q := fun b => p b && time a - width ≤ time b) (by
        intro b _ hb
        simp only [Bool.and_eq_true, decide_eq_true_eq] at hb ⊢
        refine ⟨hb.1.1, ?_⟩
        omega)
    have := hfew hp
    omega
  · rw [if_neg ha, Nat.add_zero]
    exact h start

end Sparse

end FleetOrchestrator.Tables
