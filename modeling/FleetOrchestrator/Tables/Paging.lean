import Mathlib.Data.List.Sort

/-! Filters, sorting and pages: which of them commute, and when a filter may come after the page
is cut. -/

namespace FleetOrchestrator.Tables

variable {α : Type} {r : α → α → Prop} [DecidableRel r] {p : α → Bool} {l : List α}

theorem filter_orderedInsert [IsTrans α r] (a : α) (h : l.Pairwise r) :
    (l.orderedInsert r a).filter p =
      if p a then (l.filter p).orderedInsert r a else l.filter p := by
  induction l with
  | nil => cases hp : p a <;> simp [hp]
  | cons b l ih =>
    obtain ⟨hb, hl⟩ := List.pairwise_cons.mp h
    have hi := ih hl
    by_cases hab : r a b
    · -- everything kept comes after `b`, hence after `a`
      have first : ((b :: l).filter p).orderedInsert r a = a :: (b :: l).filter p := by
        have hfirst : ∀ c ∈ (b :: l).filter p, r a c := by
          intro c hc
          rcases List.mem_cons.mp (List.mem_of_mem_filter hc) with rfl | hc
          · exact hab
          · exact IsTrans.trans a b c hab (hb c hc)
        cases hf : (b :: l).filter p with
        | nil => rfl
        | cons c m => rw [List.orderedInsert_cons, if_pos (hfirst c (by simp [hf]))]
      rw [List.orderedInsert_cons, if_pos hab, List.filter_cons, first]
    · rw [List.orderedInsert_cons, if_neg hab, List.filter_cons, hi]
      cases hpa : p a <;> cases hpb : p b <;> simp [hpb, hab]

/-- A stable sort keeps the order of the rows that a filter leaves. -/
theorem filter_insertionSort [IsTrans α r] [Std.Total r] :
    (l.insertionSort r).filter p = (l.filter p).insertionSort r := by
  induction l with
  | nil => rfl
  | cons a l ih =>
    rw [List.insertionSort_cons, filter_orderedInsert a (List.pairwise_insertionSort r l), ih,
      List.filter_cons]
    cases p a <;> simp

/-- How many of the first `n` rows pass the filter. -/
def passing (p : α → Bool) (l : List α) (n : ℕ) : ℕ := (l.take n).countP p

theorem filter_split (n : ℕ) : l.filter p = (l.take n).filter p ++ (l.drop n).filter p := by
  rw [← List.filter_append, List.take_append_drop]

theorem length_filter_take (n : ℕ) : ((l.take n).filter p).length = passing p l n :=
  List.countP_eq_length_filter.symm

theorem filter_take (n : ℕ) : (l.take n).filter p = (l.filter p).take (passing p l n) := by
  rw [filter_split (l := l) n, List.take_left' (length_filter_take n)]

theorem filter_drop (n : ℕ) : (l.drop n).filter p = (l.filter p).drop (passing p l n) := by
  rw [filter_split (l := l) n, List.drop_left' (length_filter_take n)]

theorem passing_add (m n : ℕ) : passing p l (m + n) = passing p l m + passing p (l.drop m) n := by
  rw [passing, List.take_add, List.countP_append]
  rfl

theorem passing_le_filter (n : ℕ) : passing p l n ≤ (l.filter p).length := by
  rw [← length_filter_take]
  exact ((List.take_sublist n l).filter p).length_le

/-- A page of the rows, filtered, is a page of the filtered rows at another place. -/
theorem filter_page (o n : ℕ) :
    ((l.drop o).take n).filter p =
      ((l.filter p).drop (passing p l o)).take (passing p (l.drop o) n) := by
  rw [filter_take, filter_drop]

theorem page_eq_iff {a b o n : ℕ} (hl : l.Nodup) (hab : a + b ≤ l.length) :
    (l.drop a).take b = (l.drop o).take n ↔
      b = min n (l.length - o) ∧ (b = 0 ∨ a = o) := by
  have hleft : ((l.drop a).take b).length = b := by
    rw [List.length_take, List.length_drop]
    omega
  have hright : ((l.drop o).take n).length = min n (l.length - o) := by
    rw [List.length_take, List.length_drop]
  constructor
  · intro h
    have hb : b = min n (l.length - o) := by rw [← hleft, h, hright]
    refine ⟨hb, ?_⟩
    rcases Nat.eq_zero_or_pos b with hz | hpos
    · exact .inl hz
    · have hfirst : ((l.drop a).take b)[0]? = ((l.drop o).take n)[0]? := by rw [h]
      simp only [List.getElem?_take, List.getElem?_drop, Nat.add_zero] at hfirst
      rw [if_pos hpos, if_pos (by omega)] at hfirst
      exact .inr ((List.getElem?_inj (by omega) hl).mp hfirst)
  · rintro ⟨hb, hz | rfl⟩
    · have hempty : ((l.drop o).take n).length = 0 := by rw [hright, ← hb, hz]
      rw [hz, List.take_zero, List.eq_nil_of_length_eq_zero hempty]
    · rw [hb, ← List.length_drop, ← List.take_eq_take_min]

/-- Where the rows that pass a filter come first, a page has them all exactly if they are no more
than it takes. -/
theorem all_taken_iff (hd : l.Nodup) (hl : l.Pairwise fun a b => p b = true → p a = true) (n : ℕ) :
    (∀ a ∈ l, p a = true → a ∈ l.take n) ↔ l.countP p ≤ n := by
  induction l generalizing n with
  | nil => simp
  | cons a l ih =>
    obtain ⟨ha, hd⟩ := List.nodup_cons.mp hd
    obtain ⟨hfirst, hl⟩ := List.pairwise_cons.mp hl
    by_cases hp : p a = true
    · rw [List.countP_cons_of_pos hp]
      cases n with
      | zero => simp [hp]
      | succ n =>
        rw [Nat.add_le_add_iff_right, ← ih hd hl n, List.take_succ_cons, List.forall_mem_cons]
        constructor
        · rintro ⟨-, h⟩ x hx hpx
          rcases List.mem_cons.mp (h x hx hpx) with rfl | htake
          · exact absurd hx ha
          · exact htake
        · intro h
          exact ⟨fun _ => List.mem_cons_self, fun x hx hpx => List.mem_cons_of_mem a (h x hx hpx)⟩
    · have hnone : ∀ x ∈ l, ¬ p x = true := fun x hx hpx => hp (hfirst x hx hpx)
      rw [List.countP_cons_of_neg hp, List.countP_eq_zero.mpr hnone]
      refine iff_of_true ?_ (Nat.zero_le n)
      intro x hx hpx
      rcases List.mem_cons.mp hx with rfl | hx
      · exact absurd hpx hp
      · exact absurd hpx (hnone x hx)

end FleetOrchestrator.Tables
