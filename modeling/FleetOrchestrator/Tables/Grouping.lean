import FleetOrchestrator.Tables.Paging
import Mathlib.Data.Set.Finite.Lemmas

/-! Rows grouped by a key, each group with its greatest value, and the pages of the groups. -/

namespace FleetOrchestrator.Tables

variable {α ρ κ ν : Type}

section Pages

variable {p : α → Bool} {l : List α}

theorem take_of_kept {m : ℕ} (h : ∀ a ∈ l.take m, p a = true) :
    (l.filter p).take m = l.take m := by
  rw [filter_split m, List.filter_eq_self.mpr h, List.take_append, List.take_take, min_self]
  by_cases hm : m ≤ l.length
  · rw [List.length_take, min_eq_left hm, Nat.sub_self, List.take_zero, List.append_nil]
  · rw [List.drop_eq_nil_of_le (by omega), List.filter_nil, List.take_nil, List.append_nil]

/-- A row that stands at its own place after a filter has lost nobody before it. -/
theorem kept_before {o : ℕ} {a : α} (hl : l.Nodup) (ha : l[o]? = some a)
    (hf : (l.filter p)[o]? = some a) : ∀ b ∈ l.take o, p b = true := by
  have hpa : p a = true := (List.mem_filter.mp (List.mem_of_getElem? hf)).2
  obtain ⟨ho, hget⟩ := List.getElem?_eq_some_iff.mp ha
  have hsplit : l.filter p = (l.take o).filter p ++ a :: (l.drop (o + 1)).filter p := by
    rw [filter_split o, List.drop_eq_getElem_cons ho, hget, List.filter_cons_of_pos hpa]
  have hplace : (l.filter p)[((l.take o).filter p).length]? = some a := by
    rw [hsplit, List.getElem?_append_right le_rfl, Nat.sub_self]
    rfl
  have hlen : ((l.take o).filter p).length = o := by
    refine (List.getElem?_inj ?_ (hl.filter p)).mp (hplace.trans hf.symm)
    exact (List.getElem?_eq_some_iff.mp hplace).1
  have hfull : ((l.take o).filter p).length = (l.take o).length := by
    rw [hlen, List.length_take, min_eq_left ho.le]
  exact List.filter_eq_self.mp (List.filter_sublist.eq_of_length hfull)

/-- A page is the same without the rows that a filter loses unless one of them stood on it or
before it. -/
theorem page_filter_iff (hl : l.Nodup) (o n : ℕ) :
    ((l.filter p).drop o).take n = (l.drop o).take n ↔
      n = 0 ∨ l.length ≤ o ∨ ∀ a ∈ l.take (o + n), p a = true := by
  constructor
  · intro h
    by_cases hn : n = 0
    · exact .inl hn
    by_cases ho : l.length ≤ o
    · exact .inr (.inl ho)
    have hfirst : (l.filter p)[o]? = l[o]? := by
      have hhead := congrArg (fun r => r[0]?) h
      simpa [List.getElem?_take, Nat.pos_of_ne_zero hn] using hhead
    have hlt : o < l.length := not_le.mp ho
    have hget : l[o]? = some l[o] := List.getElem?_eq_getElem hlt
    have hbefore := kept_before hl hget (hfirst.trans hget)
    refine .inr (.inr fun a ha => ?_)
    rw [List.take_add, List.mem_append] at ha
    rcases ha with ha | ha
    · exact hbefore a ha
    · rw [← h] at ha
      exact (List.mem_filter.mp (List.mem_of_mem_drop (List.mem_of_mem_take ha))).2
  · rintro (rfl | ho | hall)
    · rw [List.take_zero, List.take_zero]
    · have hf : (l.filter p).length ≤ o := (List.length_filter_le p l).trans ho
      rw [List.drop_eq_nil_of_le ho, List.drop_eq_nil_of_le hf]
    · rw [List.take_drop, List.take_drop, take_of_kept hall]

/-- One page after the other is everything up to the end of the last one. -/
theorem pages_flatten (l : List α) (n m : ℕ) :
    (List.range m).flatMap (fun i => (l.drop (i * n)).take n) = l.take (m * n) := by
  induction m with
  | zero => rw [Nat.zero_mul, List.take_zero]; rfl
  | succ m ih =>
    rw [List.range_succ, List.flatMap_append, ih, Nat.succ_mul, List.take_add]
    simp

theorem insertionSort_perm {r : α → α → Prop} [DecidableRel r] [IsTrans α r] [Std.Total r]
    [Std.Antisymm r] {l l' : List α} (h : l.Perm l') :
    l.insertionSort r = l'.insertionSort r := by
  have hperm := (List.perm_insertionSort r l).trans (h.trans (List.perm_insertionSort r l').symm)
  exact hperm.eq_of_pairwise' (List.pairwise_insertionSort r l) (List.pairwise_insertionSort r l')

end Pages

theorem map_fst_filterMap (f : κ → Option ν) (l : List κ) :
    (l.filterMap fun k => (f k).map fun v => (k, v)).map Prod.fst =
      l.filter fun k => (f k).isSome := by
  induction l with
  | nil => rfl
  | cons k l ih =>
    rw [List.filterMap_cons, List.filter_cons]
    cases f k with
    | none => exact ih
    | some v => exact congrArg (k :: ·) ih

section Groups

variable [LinearOrder ν] {key : ρ → κ} {value : ρ → ν} {rows : List ρ}
  {m m' : List (κ × ν)} {k : κ} {v : ν}

/-- The groups of rows: every key once, with the greatest value of its rows. -/
structure IsGrouping (key : ρ → κ) (value : ρ → ν) (rows : List ρ) (m : List (κ × ν)) : Prop where
  nodup : (m.map Prod.fst).Nodup
  mem : ∀ k v, (k, v) ∈ m ↔ IsGreatest {x | ∃ r ∈ rows, key r = k ∧ value r = x} v

theorem IsGrouping.mem_keys (h : IsGrouping key value rows m) :
    k ∈ m.map Prod.fst ↔ ∃ r ∈ rows, key r = k := by
  rw [List.mem_map]
  constructor
  · rintro ⟨⟨k', v⟩, hg, rfl⟩
    obtain ⟨r, hr, hk, -⟩ := ((h.mem k' v).mp hg).1
    exact ⟨r, hr, hk⟩
  · rintro ⟨r, hr, hk⟩
    have hfin : {r | r ∈ rows ∧ key r = k}.Finite :=
      (List.finite_toSet rows).subset fun r hr => hr.1
    obtain ⟨top, ⟨ht, htk⟩, hmax⟩ := Set.exists_max_image _ value hfin ⟨r, hr, hk⟩
    refine ⟨(k, value top), (h.mem k _).mpr ⟨⟨top, ht, htk, rfl⟩, ?_⟩, rfl⟩
    rintro _ ⟨r', hr', hk', rfl⟩
    exact hmax r' ⟨hr', hk'⟩

theorem isGrouping_nil : IsGrouping key value [] [] := by
  refine ⟨List.nodup_nil, fun k v => iff_of_false List.not_mem_nil ?_⟩
  rintro ⟨⟨r, hr, -⟩, -⟩
  exact List.not_mem_nil hr

/-- What two groupings of the same rows have in common is everything but the order. -/
theorem IsGrouping.perm (h : IsGrouping key value rows m) (h' : IsGrouping key value rows m') :
    m.Perm m' := by
  rw [List.perm_ext_iff_of_nodup (h.nodup.of_map _) (h'.nodup.of_map _)]
  rintro ⟨k, v⟩
  rw [h.mem, h'.mem]

theorem IsGrouping.of_perm (h : IsGrouping key value rows m) (hm : m'.Perm m) :
    IsGrouping key value rows m' :=
  ⟨(hm.map Prod.fst).nodup_iff.mpr h.nodup, fun k v => hm.mem_iff.trans (h.mem k v)⟩

theorem IsGrouping.of_rows {rows' : List ρ} (h : IsGrouping key value rows m)
    (hr : ∀ r, r ∈ rows' ↔ r ∈ rows) : IsGrouping key value rows' m := by
  refine ⟨h.nodup, fun k v => ?_⟩
  simp only [hr]
  exact h.mem k v

variable [DecidableEq κ]

/-- The entry of a key, raised to a value or inserted with it. -/
def touch (m : List (κ × ν)) (k : κ) (v : ν) : List (κ × ν) :=
  match m with
  | [] => [(k, v)]
  | g :: m => if g.1 = k then (k, if g.2 < v then v else g.2) :: m else g :: touch m k v

def groupMax (key : ρ → κ) (value : ρ → ν) (rows : List ρ) : List (κ × ν) :=
  (rows.map key).dedup.filterMap fun k =>
    ((rows.filter fun r => key r = k).map value).max?.map fun v => (k, v)

theorem touch_keys (v : ν) : (touch m k v).map Prod.fst =
    if k ∈ m.map Prod.fst then m.map Prod.fst else m.map Prod.fst ++ [k] := by
  induction m with
  | nil => rfl
  | cons g m ih =>
    rw [touch]
    by_cases hg : g.1 = k
    · simp [hg]
    · have hk : k ≠ g.1 := fun h => hg h.symm
      rw [if_neg hg, List.map_cons, ih]
      by_cases hm : k ∈ m.map Prod.fst
      · rw [if_pos hm, if_pos (by rw [List.map_cons]; exact .tail _ hm)]
        rfl
      · rw [if_neg hm, if_neg (by rw [List.map_cons, List.mem_cons, not_or]; exact ⟨hk, hm⟩)]
        rfl

theorem touch_nodup (h : (m.map Prod.fst).Nodup) (v : ν) :
    ((touch m k v).map Prod.fst).Nodup := by
  rw [touch_keys]
  split
  next => exact h
  next hk => exact List.nodup_append.mpr ⟨h, List.nodup_singleton k, by grind⟩

theorem mem_touch_other {k' : κ} {x : ν} (h : k' ≠ k) : (k', x) ∈ touch m k v ↔ (k', x) ∈ m := by
  induction m with
  | nil => simp [touch, h]
  | cons g m ih =>
    rw [touch]
    by_cases hg : g.1 = k
    · rw [if_pos hg, List.mem_cons, List.mem_cons]
      have hne : (k', x) ≠ g := fun he => h (by rw [← hg, ← he])
      simp [h, hne]
    · rw [if_neg hg, List.mem_cons, List.mem_cons, ih]

theorem mem_touch_self (h : (m.map Prod.fst).Nodup) {x : ν} :
    (k, x) ∈ touch m k v ↔
      (∃ w, (k, w) ∈ m ∧ x = max w v) ∨ (k ∉ m.map Prod.fst ∧ x = v) := by
  induction m with
  | nil => simp [touch]
  | cons g m ih =>
    obtain ⟨hg, hm⟩ := List.nodup_cons.mp h
    rw [touch]
    by_cases hk : g.1 = k
    · have hnot (w : ν) : (k, w) ∉ m := fun hw => hg (hk ▸ List.mem_map_of_mem hw)
      have hmax : (if g.2 < v then v else g.2) = max g.2 v := (max_def_lt g.2 v).symm
      obtain ⟨k₀, w⟩ := g
      obtain rfl : k₀ = k := hk
      rw [if_pos rfl, hmax]
      simp [hnot]
    · have hne : k ≠ g.1 := fun he => hk he.symm
      obtain ⟨k₀, w⟩ := g
      rw [if_neg hk, List.mem_cons, ih hm]
      simp [hne]

/-- One more row raises the entry of its key, or makes one. -/
theorem IsGrouping.touch (h : IsGrouping key value rows m) (r : ρ) :
    IsGrouping key value (rows ++ [r]) (touch m (key r) (value r)) := by
  refine ⟨touch_nodup h.nodup _, fun k v => ?_⟩
  by_cases hk : k = key r
  · subst hk
    have hset : {x | ∃ r' ∈ rows ++ [r], key r' = key r ∧ value r' = x} =
        insert (value r) {x | ∃ r' ∈ rows, key r' = key r ∧ value r' = x} := by
      ext x
      simp only [List.mem_append, List.mem_singleton, Set.mem_ofPred_eq, Set.mem_insert_iff]
      grind
    rw [hset, mem_touch_self h.nodup]
    constructor
    · rintro (⟨w, hw, rfl⟩ | ⟨hno, rfl⟩)
      · rw [max_comm]
        exact ((h.mem _ _).mp hw).insert _
      · refine ⟨Set.mem_insert _ _, ?_⟩
        rintro x (rfl | ⟨r', hr', hk, -⟩)
        · exact le_rfl
        · exact absurd (h.mem_keys.mpr ⟨r', hr', hk⟩) hno
    · intro hv
      by_cases hkey : key r ∈ m.map Prod.fst
      · obtain ⟨⟨k', w⟩, hw, hk' : k' = key r⟩ := List.mem_map.mp hkey
        rw [hk'] at hw
        refine .inl ⟨w, hw, ?_⟩
        rw [max_comm]
        exact hv.unique (((h.mem _ _).mp hw).insert _)
      · refine .inr ⟨hkey, ?_⟩
        rcases hv.1 with rfl | ⟨r', hr', hk, -⟩
        · rfl
        · exact absurd (h.mem_keys.mpr ⟨r', hr', hk⟩) hkey
  · rw [mem_touch_other hk, h.mem]
    have hset : {x | ∃ r' ∈ rows ++ [r], key r' = k ∧ value r' = x} =
        {x | ∃ r' ∈ rows, key r' = k ∧ value r' = x} := by
      ext x
      simp only [List.mem_append, List.mem_singleton, Set.mem_ofPred_eq]
      grind
    rw [hset]

theorem isGrouping_foldl (key : ρ → κ) (value : ρ → ν) (rows : List ρ) :
    IsGrouping key value rows (rows.foldl (fun m r => touch m (key r) (value r)) []) := by
  induction rows using List.reverseRecOn with
  | nil => exact isGrouping_nil
  | append_singleton rows r ih =>
    rw [List.foldl_append]
    exact ih.touch r

theorem isGrouping_groupMax (key : ρ → κ) (value : ρ → ν) (rows : List ρ) :
    IsGrouping key value rows (groupMax key value rows) := by
  have hmax (k : κ) (v : ν) : ((rows.filter fun r => key r = k).map value).max? = some v ↔
      IsGreatest {x | ∃ r ∈ rows, key r = k ∧ value r = x} v := by
    rw [List.max?_eq_some_iff]
    simp [IsGreatest, mem_upperBounds, and_assoc]
  constructor
  · rw [groupMax, map_fst_filterMap]
    exact (List.nodup_dedup _).filter _
  · intro k v
    rw [groupMax, List.mem_filterMap]
    constructor
    · rintro ⟨k', -, hg⟩
      obtain ⟨w, hw, he⟩ := Option.map_eq_some_iff.mp hg
      cases he
      exact (hmax k v).mp hw
    · intro hv
      obtain ⟨r, hr, hk, -⟩ := hv.1
      refine ⟨k, List.mem_dedup.mpr (List.mem_map.mpr ⟨r, hr, hk⟩), ?_⟩
      rw [(hmax k v).mpr hv]
      rfl

/-- The groups of the rows with the greatest values are those of all the rows, less the keys that
none of them has. -/
theorem IsGrouping.cut (hs : rows.Pairwise fun a b => value b ≤ value a) {n : ℕ}
    (h : IsGrouping key value rows m) (h' : IsGrouping key value (rows.take n) m') :
    m'.Perm (m.filter fun g => (rows.take n).any fun r => key r = g.1) := by
  have hlater {a b : ρ} (ha : a ∈ rows.take n) (hb : b ∈ rows.drop n) : value b ≤ value a := by
    rw [← List.take_append_drop n rows, List.pairwise_append] at hs
    exact hs.2.2 a ha b hb
  have hrow {r : ρ} : r ∈ rows ↔ r ∈ rows.take n ∨ r ∈ rows.drop n := by
    rw [← List.mem_append, List.take_append_drop]
  rw [List.perm_ext_iff_of_nodup (h'.nodup.of_map _) ((h.nodup.of_map _).filter _)]
  rintro ⟨k, v⟩
  rw [h'.mem, List.mem_filter, h.mem, List.any_eq_true]
  simp only [decide_eq_true_eq]
  constructor
  · rintro ⟨⟨r, hr, hk, hv⟩, hmax⟩
    refine ⟨⟨⟨r, hrow.mpr (.inl hr), hk, hv⟩, ?_⟩, r, hr, hk⟩
    rintro x ⟨r', hr', hk', rfl⟩
    rcases hrow.mp hr' with hr' | hr'
    · exact hmax ⟨r', hr', hk', rfl⟩
    · exact (hlater hr hr').trans_eq hv
  · rintro ⟨⟨⟨top, htop, hk, hv⟩, hmax⟩, r, hr, hkr⟩
    constructor
    · rcases hrow.mp htop with htop | htop
      · exact ⟨top, htop, hk, hv⟩
      · refine ⟨r, hr, hkr, le_antisymm (hmax ⟨r, hrow.mpr (.inl hr), hkr, rfl⟩) ?_⟩
        rw [← hv]
        exact hlater hr htop
    · rintro x ⟨r', hr', hk', rfl⟩
      exact hmax ⟨r', hrow.mpr (.inl hr'), hk', rfl⟩

section Ranking

variable {r : κ × ν → κ × ν → Prop} [DecidableRel r] [IsTrans (κ × ν) r] [Std.Total r]
  [Std.Antisymm r]

theorem IsGrouping.ranked_cut (hs : rows.Pairwise fun a b => value b ≤ value a) {n : ℕ}
    (h : IsGrouping key value rows m) (h' : IsGrouping key value (rows.take n) m') :
    m'.insertionSort r =
      (m.insertionSort r).filter fun g => (rows.take n).any fun r => key r = g.1 := by
  rw [insertionSort_perm (h.cut hs h'), filter_insertionSort]

end Ranking

end Groups

end FleetOrchestrator.Tables
