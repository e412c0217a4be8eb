import Mathlib.Data.List.Infix
import Mathlib.Logic.Relation

/-! The components of a path, resolved one after the other from the root, and the spellings of a
path that name the same components. -/

namespace FleetOrchestrator.Encoding

variable {α : Type} [DecidableEq α] {sep dot : α}

/-- A segment that names no directory of its own. -/
def idle (dot : α) (seg : List α) : Bool := seg.isEmpty || seg = [dot]

def components (sep dot : α) (path : List α) : List (List α) :=
  (path.splitOn sep).filter fun seg => !idle dot seg

/-- The directory that a segment leads to from `dir`; the root is `[]` and is its own parent. -/
def enter (dot : α) (dir : List (List α)) (seg : List α) : List (List α) :=
  if seg = [dot, dot] then dir.dropLast
  else if idle dot seg then dir
  else dir ++ [seg]

def resolve (dot : α) (segs : List (List α)) : List (List α) := segs.foldl (enter dot) []

@[simp] theorem idle_nil : idle dot ([] : List α) = true := rfl

@[simp] theorem idle_dot : idle dot [dot] = true := by simp [idle]

@[simp] theorem idle_parent : idle dot [dot, dot] = false := by simp [idle]

section Respelled

variable {xs ys : List α}

@[simp] theorem components_nil : components sep dot [] = [] := by
  simp [components]

theorem components_dot (h : dot ≠ sep) : components sep dot [dot] = [] := by
  have hs : [dot].splitOn sep = [[dot]] := by
    apply List.splitOn_eq_singleton
    rw [List.mem_singleton]
    exact h.symm
  simp [components, hs]

theorem components_append (xs ys : List α) : components sep dot (xs ++ sep :: ys) =
    components sep dot xs ++ components sep dot ys := by
  rw [components, List.splitOn_append_cons_self, List.filter_append]
  rfl

theorem components_cons (ys : List α) :
    components sep dot (sep :: ys) = components sep dot ys := by
  have h := @components_append α _ sep dot [] ys
  rw [components_nil, List.nil_append, List.nil_append] at h
  exact h

theorem components_idle (h : dot ≠ sep) (ys : List α) :
    components sep dot (dot :: sep :: ys) = components sep dot ys := by
  have ha := @components_append α _ sep dot [dot] ys
  rw [components_dot h, List.nil_append] at ha
  exact ha

/-- One idle segment, or one separator, more than before. In front of everything it is inserted
only where the path stays relative. -/
inductive Respelled (sep dot : α) : List α → List α → Prop
  | slash (xs ys : List α) : Respelled sep dot (xs ++ sep :: ys) (xs ++ sep :: sep :: ys)
  | trailing (xs : List α) : Respelled sep dot xs (xs ++ [sep])
  | idle (xs ys : List α) : Respelled sep dot (xs ++ sep :: ys) (xs ++ sep :: dot :: sep :: ys)
  | last (xs : List α) : Respelled sep dot (xs ++ [sep]) (xs ++ [sep, dot])
  | front (ys : List α) (h : ys.head? ≠ some sep) : Respelled sep dot ys (dot :: sep :: ys)

theorem Respelled.components (hd : dot ≠ sep) (h : Respelled sep dot xs ys) :
    components sep dot xs = components sep dot ys := by
  cases h with
  | slash xs ys => rw [components_append, components_append, components_cons]
  | trailing => rw [components_append, components_nil, List.append_nil]
  | idle xs ys => rw [components_append, components_append, components_idle hd]
  | last xs => rw [components_append, components_append, components_nil, components_dot hd]
  | front => rw [components_idle hd]

omit [DecidableEq α] in
theorem Respelled.mem (h : Respelled sep dot xs ys) {c : α} (hs : c ≠ sep) (hd : c ≠ dot) :
    c ∈ xs ↔ c ∈ ys := by
  cases h <;> simp [hs, hd]

omit [DecidableEq α] in
theorem Respelled.absolute (hd : dot ≠ sep) (h : Respelled sep dot xs ys) (hne : xs ≠ []) :
    xs.head? = some sep ↔ ys.head? = some sep := by
  cases h with
  | slash xs ys => cases xs <;> simp
  | trailing => cases xs with
    | nil => exact absurd rfl hne
    | cons x xs => simp
  | idle xs ys => cases xs <;> simp
  | last xs => cases xs <;> simp
  | front _ h => simp [h, hd]

/-- A path is admitted for its first character, the characters of one kind that it lacks, and
its components. -/
structure Admitted (sep dot bar : α) (path : List α) : Prop where
  absolute : path.head? = some sep
  clean : bar ∉ path
  named : components sep dot path ≠ []
  descending : [dot, dot] ∉ components sep dot path

theorem Respelled.admitted {bar : α} (hd : dot ≠ sep) (hs : bar ≠ sep) (hb : bar ≠ dot)
    (h : Respelled sep dot xs ys) : Admitted sep dot bar xs ↔ Admitted sep dot bar ys := by
  have hc := h.components hd
  have hm := h.mem hs hb
  by_cases hne : xs = []
  · subst hne
    rw [components_nil] at hc
    exact ⟨fun hx => absurd components_nil hx.named, fun hy => absurd hc.symm hy.named⟩
  · have ha := h.absolute hd hne
    constructor
    · intro hx
      exact ⟨ha.mp hx.absolute, fun hy => hx.clean (hm.mpr hy), hc ▸ hx.named, hc ▸ hx.descending⟩
    · intro hy
      exact ⟨ha.mpr hy.absolute, fun hx => hy.clean (hm.mp hx), hc ▸ hy.named, hc ▸ hy.descending⟩

theorem admitted_respelled {bar : α} (hd : dot ≠ sep) (hs : bar ≠ sep) (hb : bar ≠ dot)
    (h : Relation.EqvGen (Respelled sep dot) xs ys) :
    Admitted sep dot bar xs ↔ Admitted sep dot bar ys := by
  induction h with
  | rel _ _ h => exact h.admitted hd hs hb
  | refl => exact Iff.rfl
  | symm _ _ _ ih => exact ih.symm
  | trans _ _ _ _ _ hxy hyz => exact hxy.trans hyz

end Respelled

section Resolved

variable {segs : List (List α)}

theorem foldl_enter (dir : List (List α)) (h : [dot, dot] ∉ segs) :
    segs.foldl (enter dot) dir = dir ++ segs.filter fun seg => !idle dot seg := by
  induction segs generalizing dir with
  | nil => simp
  | cons seg segs ih =>
    rw [List.mem_cons, not_or] at h
    rw [List.foldl_cons, ih _ h.2, enter, if_neg (Ne.symm h.1)]
    cases hi : idle dot seg with
    | true => simp [hi]
    | false => simp [hi]

theorem resolve_eq (h : [dot, dot] ∉ segs) :
    resolve dot segs = segs.filter fun seg => !idle dot seg := by
  rw [resolve, foldl_enter _ h, List.nil_append]

theorem resolve_descends (h : [dot, dot] ∉ segs) (k : ℕ) :
    resolve dot (segs.take k) <+: resolve dot (segs.take (k + 1)) := by
  have hsub : ∀ n, [dot, dot] ∉ segs.take n := fun n hn => h (List.mem_of_mem_take hn)
  rw [resolve_eq (hsub _), resolve_eq (hsub _)]
  exact (List.take_prefix_take_left (Nat.le_succ k)).filter _

theorem parent_mem_components {path : List α} :
    [dot, dot] ∈ components sep dot path ↔ [dot, dot] ∈ path.splitOn sep := by
  simp [components, List.mem_filter]

end Resolved

end FleetOrchestrator.Encoding
