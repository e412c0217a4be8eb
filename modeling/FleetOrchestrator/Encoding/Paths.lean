import Mathlib.Data.List.Infix

/-! Lists of segments written one after the other, each behind a separator that none of them
contains. -/

namespace FleetOrchestrator.Encoding

variable {α : Type} {sep : α}

def joinPath (sep : α) (xs : List (List α)) : List α := xs.flatMap fun s => sep :: s

def Plain (sep : α) (xs : List (List α)) : Prop := ∀ s ∈ xs, sep ∉ s

instance [DecidableEq α] (xs : List (List α)) : Decidable (Plain sep xs) :=
  inferInstanceAs (Decidable (∀ s ∈ xs, sep ∉ s))

def segments [DecidableEq α] (sep : α) : List α → List (List α)
  | [] => [[]]
  | c :: cs =>
    if c = sep then [] :: segments sep cs
    else
      match segments sep cs with
      | [] => [[c]]
      | s :: ss => (c :: s) :: ss

/-- The segments of a path, which begins with the separator. -/
def pathSegments [DecidableEq α] (sep : α) : List α → Option (List (List α))
  | [] => none
  | c :: cs => if c = sep then some (segments sep cs) else none

section Joined

variable {x : List α} {xs ys : List (List α)}

@[simp] theorem joinPath_nil : joinPath sep ([] : List (List α)) = [] := rfl

@[simp] theorem joinPath_cons : joinPath sep (x :: xs) = sep :: (x ++ joinPath sep xs) := rfl

theorem joinPath_append : joinPath sep (xs ++ ys) = joinPath sep xs ++ joinPath sep ys :=
  List.flatMap_append

theorem plain_cons : Plain sep (x :: xs) ↔ sep ∉ x ∧ Plain sep xs := List.forall_mem_cons

/-- What stands between two separators is one segment. -/
theorem joinPath_split {x y s t : List α} (hx : sep ∉ x) (hy : sep ∉ y)
    (hs : s = [] ∨ s.head? = some sep) (ht : t = [] ∨ t.head? = some sep)
    (h : x ++ s = y ++ t) : x = y ∧ s = t := by
  induction x generalizing y with
  | nil =>
    cases y with
    | nil => exact ⟨rfl, h⟩
    | cons c y =>
      rw [List.nil_append] at h
      subst h
      simp only [List.cons_append, List.head?_cons, Option.some.injEq, reduceCtorEq, false_or] at hs
      subst hs
      exact absurd List.mem_cons_self hy
  | cons c x ih =>
    cases y with
    | nil =>
      rw [List.nil_append] at h
      subst h
      simp only [List.cons_append, List.head?_cons, Option.some.injEq, reduceCtorEq, false_or] at ht
      subst ht
      exact absurd List.mem_cons_self hx
    | cons d y =>
      obtain ⟨rfl, htail⟩ := List.cons.inj h
      simp only [List.mem_cons, not_or] at hx hy
      obtain ⟨rfl, rfl⟩ := ih hx.2 hy.2 htail
      exact ⟨rfl, rfl⟩

theorem joinPath_head (xs : List (List α)) :
    joinPath sep xs = [] ∨ (joinPath sep xs).head? = some sep := by
  cases xs with
  | nil => exact .inl rfl
  | cons x xs => exact .inr rfl

theorem joinPath_inj (hx : Plain sep xs) (hy : Plain sep ys) :
    joinPath sep xs = joinPath sep ys ↔ xs = ys := by
  constructor
  · intro h
    induction xs generalizing ys with
    | nil =>
      cases ys with
      | nil => rfl
      | cons y ys => cases h
    | cons x xs ih =>
      cases ys with
      | nil => cases h
      | cons y ys =>
        rw [plain_cons] at hx hy
        obtain ⟨rfl, htail⟩ := joinPath_split hx.1 hy.1 (joinPath_head xs) (joinPath_head ys)
          (List.cons.inj h).2
        rw [ih hx.2 hy.2 htail]
  · rintro rfl
    rfl

theorem joinPath_prefix (hx : Plain sep xs) (hy : Plain sep ys) :
    joinPath sep ys ++ [sep] <+: joinPath sep xs ↔ ∃ z zs, xs = ys ++ z :: zs := by
  constructor
  · intro h
    induction ys generalizing xs with
    | nil =>
      cases xs with
      | nil => simp at h
      | cons x xs => exact ⟨x, xs, rfl⟩
    | cons y ys ih =>
      cases xs with
      | nil => simp at h
      | cons x xs =>
        rw [plain_cons] at hx hy
        obtain ⟨t, ht⟩ := h
        simp only [joinPath_cons, List.cons_append, List.append_assoc, List.cons.injEq,
          true_and] at ht
        have hhead : joinPath sep ys ++ ([sep] ++ t) = [] ∨
            (joinPath sep ys ++ ([sep] ++ t)).head? = some sep := by
          cases ys with
          | nil => exact .inr rfl
          | cons z zs => exact .inr rfl
        obtain ⟨rfl, htail⟩ := joinPath_split hy.1 hx.1 hhead (joinPath_head xs) ht
        obtain ⟨z, zs, rfl⟩ := ih hx.2 hy.2 ⟨t, by rw [List.append_assoc, htail]⟩
        exact ⟨z, zs, rfl⟩
  · rintro ⟨z, zs, rfl⟩
    refine ⟨z ++ joinPath sep zs, ?_⟩
    rw [joinPath_append, joinPath_cons, List.append_assoc]
    rfl

theorem joinPath_suffix (hx : Plain sep xs) (hy : Plain sep ys) :
    joinPath sep ys <:+ joinPath sep xs ↔ ys <:+ xs := by
  constructor
  · intro h
    induction xs with
    | nil =>
      rw [joinPath_nil, List.suffix_nil] at h
      cases ys with
      | nil => exact List.suffix_rfl
      | cons y ys => cases h
    | cons x xs ih =>
      rcases List.suffix_cons_iff.mp h with he | h
      · have he : joinPath sep ys = joinPath sep (x :: xs) := he
        rw [joinPath_inj hy hx] at he
        rw [he]
      · rw [plain_cons] at hx
        apply List.IsSuffix.trans (ih hx.2 ?_) (List.suffix_cons x xs)
        cases ys with
        | nil => exact List.nil_suffix
        | cons y ys =>
          obtain ⟨t, ht⟩ := h
          rcases List.append_eq_append_iff.mp ht with ⟨a, ha, hb⟩ | ⟨a, ha, hb⟩
          · cases a with
            | nil =>
              rw [List.nil_append] at hb
              exact hb ▸ List.suffix_rfl
            | cons c a =>
              obtain ⟨rfl, -⟩ := List.cons.inj hb
              exact absurd (ha ▸ List.mem_append_right t List.mem_cons_self) hx.1
          · exact ⟨a, hb.symm⟩
  · rintro ⟨zs, rfl⟩
    exact ⟨joinPath sep zs, joinPath_append.symm⟩

end Joined

section Split

variable [DecidableEq α] {path : List α} {xs : List (List α)}

theorem segments_spec (sep : α) (path : List α) :
    joinPath sep (segments sep path) = sep :: path ∧ Plain sep (segments sep path) := by
  induction path with
  | nil => exact ⟨rfl, by simp [segments, Plain]⟩
  | cons c path ih =>
    obtain ⟨hjoin, hplain⟩ := ih
    simp only [segments]
    split
    · next hc =>
      subst hc
      rw [joinPath_cons, hjoin, plain_cons]
      exact ⟨rfl, List.not_mem_nil, hplain⟩
    · next hc =>
      split
      next hs =>
        rw [hs] at hjoin
        cases hjoin
      next s ss hs =>
        rw [hs, joinPath_cons] at hjoin
        rw [hs, plain_cons] at hplain
        obtain ⟨-, hjoin⟩ := List.cons.inj hjoin
        rw [joinPath_cons, plain_cons, List.cons_append, hjoin]
        refine ⟨rfl, ?_, hplain.2⟩
        rw [List.mem_cons, not_or]
        exact ⟨Ne.symm hc, hplain.1⟩

theorem pathSegments_some (h : pathSegments sep path = some xs) :
    path = joinPath sep xs ∧ Plain sep xs := by
  cases path with
  | nil => cases h
  | cons c path =>
    simp only [pathSegments, Option.ite_none_right_eq_some, Option.some.injEq] at h
    obtain ⟨rfl, rfl⟩ := h
    exact ⟨(segments_spec _ path).1.symm, (segments_spec _ path).2⟩

theorem pathSegments_joinPath (h : Plain sep xs) (hne : xs ≠ []) :
    pathSegments sep (joinPath sep xs) = some xs := by
  cases xs with
  | nil => exact absurd rfl hne
  | cons x xs =>
    rw [joinPath_cons]
    simp only [pathSegments, if_true, Option.some.injEq]
    obtain ⟨hjoin, hplain⟩ := segments_spec sep (x ++ joinPath sep xs)
    rw [← joinPath_cons, joinPath_inj hplain h] at hjoin
    exact hjoin

end Split

end FleetOrchestrator.Encoding
