import FleetOrchestrator.Encoding.Toml

/-! What the statements of a document define, and whether they define anything twice. -/

namespace FleetOrchestrator.Encoding.Toml

def headers (ss : List Statement) : List Path :=
  ss.filterMap fun s => match s with
    | .header p => some p
    | _ => none

/-- The entries with their paths from the root on. -/
def placed : Path → List Statement → List (Path × Value)
  | _, [] => []
  | _, .header p :: ss => placed p ss
  | _, .arrayHeader p :: ss => placed p ss
  | table, .entry p v :: ss => (table ++ p, v) :: placed table ss

/-- The tables that keys with dots open. -/
def opened : Path → List Statement → List Path
  | _, [] => []
  | _, .header p :: ss => opened p ss
  | _, .arrayHeader p :: ss => opened p ss
  | table, .entry p _ :: ss =>
    (List.range (p.length - 1)).map (fun n => table ++ p.take (n + 1)) ++ opened table ss

def Value.leaves (path : Path) : Value → List (Path × Scalar)
  | .scalar v => [(path, v)]
  | .table ps => ps.map fun q => (path ++ q.1, q.2)

def leaves (ss : List Statement) : List (Path × Scalar) :=
  (placed [] ss).flatMap fun e => e.2.leaves e.1

/-- Neither path is within the other one. -/
def Separate (p q : Path) : Prop := ¬p <+: q ∧ ¬q <+: p

instance (p q : Path) : Decidable (Separate p q) := inferInstanceAs (Decidable (_ ∧ _))

def Statement.isArray : Statement → Bool
  | .arrayHeader _ => true
  | _ => false

def Value.Consistent : Value → Prop
  | .scalar _ => True
  | .table ps => (ps.map Prod.fst).Pairwise Separate

instance : DecidablePred Value.Consistent
  | .scalar _ => inferInstanceAs (Decidable True)
  | .table ps => inferInstanceAs (Decidable ((ps.map Prod.fst).Pairwise Separate))

/-- Nothing is defined twice. Arrays, whose tables may have one path, are left out. -/
def Consistent (ss : List Statement) : Prop :=
  (∀ s ∈ ss, s.isArray = false) ∧ (headers ss).Nodup ∧
    ((placed [] ss).map Prod.fst).Pairwise Separate ∧
    (∀ p ∈ (placed [] ss).map Prod.fst, ∀ q ∈ headers ss, ¬p <+: q) ∧
    (∀ p ∈ opened [] ss, p ∉ headers ss) ∧ ∀ e ∈ placed [] ss, e.2.Consistent

instance : DecidablePred Consistent := fun _ => inferInstanceAs (Decidable (_ ∧ _))

inductive Item where
  | scalar (v : Scalar)
  | table
  deriving DecidableEq

def tablePaths (ss : List Statement) : List Path := headers ss ++ (placed [] ss).map Prod.fst

/-- What a document has at a path. -/
def item (ss : List Statement) (p : Path) : Option Item :=
  match (leaves ss).lookup p with
  | some v => some (.scalar v)
  | none =>
    if (tablePaths ss).any p.isPrefixOf || (leaves ss).any (p.isPrefixOf ·.1) then some .table
    else none

section Items

variable {ss : List Statement} {p q : Path} {v : Scalar} {ps : List (Path × Scalar)}
  {e x : Path × Value} {es : List (Path × Value)}

theorem prefix_of_leaf {l : Path × Scalar} (hl : l ∈ e.2.leaves e.1) : e.1 <+: l.1 := by
  obtain ⟨path, value⟩ := e
  cases value with
  | scalar v =>
    obtain rfl := List.mem_singleton.mp hl
    exact List.prefix_rfl
  | table ps =>
    obtain ⟨q, -, rfl⟩ := List.mem_map.mp hl
    exact List.prefix_append _ _

/-- No leaf is near a path that is apart from every entry. -/
theorem separate_leaf {l : Path × Scalar} (hs : ∀ e ∈ es, Separate p e.1)
    (hl : l ∈ es.flatMap fun e => e.2.leaves e.1) : ¬p <+: l.1 := by
  obtain ⟨e, he, hl⟩ := List.mem_flatMap.mp hl
  intro hp
  rcases List.prefix_or_prefix_of_prefix hp (prefix_of_leaf hl) with h | h
  · exact (hs e he).1 h
  · exact (hs e he).2 h

theorem lookup_eq_none {ls : List (Path × Scalar)} (h : ∀ l ∈ ls, ¬p <+: l.1) :
    ls.lookup p = none := by
  rw [List.lookup_eq_none_iff]
  intro l hl
  simp only [bne_iff_ne, ne_eq]
  intro he
  exact h l hl (he ▸ List.prefix_rfl)

theorem item_absent (hs : ∀ e ∈ placed [] ss, Separate p e.1) (hh : ∀ q ∈ headers ss, ¬p <+: q) :
    item ss p = none := by
  have hleaf : ∀ l ∈ leaves ss, ¬p <+: l.1 := fun l hl => separate_leaf hs hl
  have htables : (tablePaths ss).any p.isPrefixOf = false := by
    rw [List.any_eq_false]
    intro q hq
    rw [List.isPrefixOf_iff_prefix]
    rcases List.mem_append.mp hq with hq | hq
    · exact hh q hq
    · obtain ⟨e, he, rfl⟩ := List.mem_map.mp hq
      exact (hs e he).1
  have hleaves : (leaves ss).any (p.isPrefixOf ·.1) = false := by
    rw [List.any_eq_false]
    intro l hl
    rw [List.isPrefixOf_iff_prefix]
    exact hleaf l hl
  rw [item, lookup_eq_none hleaf, htables, hleaves]
  rfl

/-- The entries on both sides of one are apart from it. -/
theorem exists_sides (hs : ((placed [] ss).map Prod.fst).Pairwise Separate)
    (h : e ∈ placed [] ss) : ∃ front back, placed [] ss = front ++ e :: back ∧
      (∀ x ∈ front, Separate e.1 x.1) ∧ ∀ x ∈ back, Separate e.1 x.1 := by
  obtain ⟨front, back, he⟩ := List.append_of_mem h
  rw [he, List.map_append, List.map_cons, List.pairwise_append, List.pairwise_cons] at hs
  refine ⟨front, back, he, ?_, ?_⟩
  · intro x hx
    have hxe := hs.2.2 x.1 (List.mem_map_of_mem hx) e.1 List.mem_cons_self
    exact ⟨hxe.2, hxe.1⟩
  · intro x hx
    exact hs.2.1.1 x.1 (List.mem_map_of_mem hx)

theorem item_scalar (hs : ((placed [] ss).map Prod.fst).Pairwise Separate)
    (h : (p, .scalar v) ∈ placed [] ss) : item ss p = some (.scalar v) := by
  obtain ⟨front, back, he, hfront, -⟩ := exists_sides hs h
  have hnone := lookup_eq_none (p := p) fun l hl => separate_leaf hfront hl
  have hlookup : (leaves ss).lookup p = some v := by
    rw [leaves, he, List.flatMap_append, List.flatMap_cons, List.lookup_append, hnone]
    simp [Value.leaves]
  rw [item, hlookup]

theorem lookup_table (hs : ((placed [] ss).map Prod.fst).Pairwise Separate)
    (h : (p, .table ps) ∈ placed [] ss) (hps : ∀ q ∈ ps, q.1 ≠ []) :
    (leaves ss).lookup p = none := by
  obtain ⟨front, back, he, hfront, hback⟩ := exists_sides hs h
  rw [List.lookup_eq_none_iff]
  intro l hl
  simp only [bne_iff_ne, ne_eq]
  rintro rfl
  rw [leaves, he, List.flatMap_append, List.flatMap_cons, List.mem_append, List.mem_append] at hl
  rcases hl with hl | hl | hl
  · exact separate_leaf hfront hl List.prefix_rfl
  · obtain ⟨q, hq, hpath⟩ := List.mem_map.mp hl
    have hself := congrArg Prod.fst hpath
    exact hps q hq (List.append_right_eq_self.mp hself)
  · exact separate_leaf hback hl List.prefix_rfl

theorem item_table (hs : ((placed [] ss).map Prod.fst).Pairwise Separate)
    (h : (p, .table ps) ∈ placed [] ss) (hps : ∀ q ∈ ps, q.1 ≠ []) : item ss p = some .table := by
  have hmem : p ∈ tablePaths ss := List.mem_append_right _ (List.mem_map_of_mem h)
  have hany : (tablePaths ss).any p.isPrefixOf = true :=
    List.any_eq_true.mpr ⟨p, hmem, List.isPrefixOf_iff_prefix.mpr List.prefix_rfl⟩
  rw [item, lookup_table hs h hps, hany, Bool.true_or]
  rfl

theorem filter_separate (hs : ∀ e ∈ es, Separate p e.1) :
    ((es.flatMap fun e => e.2.leaves e.1).filter (p.isPrefixOf ·.1)) = [] := by
  rw [List.filter_eq_nil_iff]
  intro l hl
  rw [List.isPrefixOf_iff_prefix]
  exact separate_leaf hs hl

/-- What is within an inline table is what it holds. -/
theorem leaves_within (hs : ((placed [] ss).map Prod.fst).Pairwise Separate)
    (h : (p, .table ps) ∈ placed [] ss) :
    (leaves ss).filter (p.isPrefixOf ·.1) = ps.map fun q => (p ++ q.1, q.2) := by
  obtain ⟨front, back, he, hfront, hback⟩ := exists_sides hs h
  have hall : ((ps.map fun q => (p ++ q.1, q.2)).filter (p.isPrefixOf ·.1)) =
      ps.map fun q => (p ++ q.1, q.2) := by
    rw [List.filter_eq_self]
    intro l hl
    obtain ⟨q, -, rfl⟩ := List.mem_map.mp hl
    exact List.isPrefixOf_iff_prefix.mpr (List.prefix_append _ _)
  rw [leaves, he, List.flatMap_append, List.flatMap_cons, List.filter_append, List.filter_append,
    filter_separate hfront, filter_separate hback, List.nil_append, List.append_nil]
  exact hall

end Items

end FleetOrchestrator.Encoding.Toml
