import Mathlib.Algebra.Group.Nat.Defs
import Mathlib.Data.List.Basic
import Mathlib.Data.List.Destutter
import Mathlib.Data.List.Sort

/-! The one list that stands for the members of a list. -/

namespace FleetOrchestrator.Encoding

variable {α : Type} [LinearOrder α]

/-- The members in order, each once. -/
def canonical (l : List α) : List α := (l.insertionSort (· ≤ ·)).destutter (· ≠ ·)

theorem mem_destutter' (l : List α) (a b : α) : b ∈ l.destutter' (· ≠ ·) a ↔ b = a ∨ b ∈ l := by
  induction l generalizing a with
  | nil => simp
  | cons c l ih =>
    by_cases h : a = c
    · rw [List.destutter'_cons_neg _ (not_not_intro h), ih, h]
      simp
    · rw [List.destutter'_cons_pos _ h, List.mem_cons, ih, List.mem_cons]

theorem mem_destutter (l : List α) (b : α) : b ∈ l.destutter (· ≠ ·) ↔ b ∈ l := by
  cases l with
  | nil => rfl
  | cons a l => rw [List.destutter_cons', mem_destutter', List.mem_cons]

@[simp]
theorem mem_canonical {l : List α} {a : α} : a ∈ canonical l ↔ a ∈ l := by
  rw [canonical, mem_destutter]
  exact (List.perm_insertionSort _ l).mem_iff

/-- In an ordered list neighbours that differ increase. -/
theorem sortedLT_destutter {l : List α} (h : l.SortedLE) :
    (l.destutter (· ≠ ·)).SortedLT := by
  have hle : (l.destutter (· ≠ ·)).Pairwise (· ≤ ·) :=
    h.pairwise.sublist (List.destutter_sublist _ l)
  have hne : (l.destutter (· ≠ ·)).IsChain (· ≠ ·) := List.isChain_destutter _ l
  apply List.IsChain.sortedLT
  rw [List.isChain_iff_getElem] at hne ⊢
  intro i hi
  apply lt_of_le_of_ne _ (hne i hi)
  exact List.pairwise_iff_getElem.mp hle i (i + 1) _ hi (Nat.lt_succ_self i)

theorem sortedLT_canonical (l : List α) : (canonical l).SortedLT :=
  sortedLT_destutter List.sortedLE_insertionSort

theorem canonical_eq_iff {xs ys : List α} :
    canonical xs = canonical ys ↔ ∀ a, a ∈ xs ↔ a ∈ ys := by
  constructor
  · intro h a
    rw [← mem_canonical (l := xs), h, mem_canonical]
  · intro h
    apply (sortedLT_canonical xs).eq_of_mem_iff (sortedLT_canonical ys)
    intro a
    rw [mem_canonical, mem_canonical]
    exact h a

theorem canonical_of_sortedLT {l : List α} (h : l.SortedLT) : canonical l = l := by
  apply (sortedLT_canonical l).eq_of_mem_iff h
  intro a
  exact mem_canonical

theorem length_canonical_le (l : List α) : (canonical l).length ≤ l.length := by
  calc (canonical l).length ≤ (l.insertionSort (· ≤ ·)).length :=
        (List.destutter_sublist _ _).length_le
    _ = l.length := List.length_insertionSort _ l

end FleetOrchestrator.Encoding

/-! Encodings that say themselves where they end. -/

namespace FleetOrchestrator.Encoding

variable {α β γ : Type}

/-- Whatever follows, the encoded value and the rest can be told apart. -/
def SelfDelimiting (enc : β → List α) : Prop :=
  ∀ x y us vs, enc x ++ us = enc y ++ vs → x = y ∧ us = vs

theorem split_at_sep {sep : α} {xs ys us vs : List α} (hx : sep ∉ xs) (hy : sep ∉ ys)
    (h : xs ++ sep :: us = ys ++ sep :: vs) : xs = ys ∧ us = vs := by
  induction xs generalizing ys with
  | nil =>
    cases ys with
    | nil => exact ⟨rfl, (List.cons.inj h).2⟩
    | cons y ys =>
      have hsep : sep = y := (List.cons.inj h).1
      simp [hsep] at hy
  | cons x xs ih =>
    cases ys with
    | nil =>
      have hsep : x = sep := (List.cons.inj h).1
      simp [hsep] at hx
    | cons y ys =>
      obtain ⟨rfl, htail⟩ := List.cons.inj h
      obtain ⟨rfl, rfl⟩ := ih (fun hm => hx (List.mem_cons_of_mem _ hm))
        (fun hm => hy (List.mem_cons_of_mem _ hm)) htail
      exact ⟨rfl, rfl⟩

section Combinators

variable {enc : β → List α}

theorem SelfDelimiting.injective (h : SelfDelimiting enc) : Function.Injective enc := by
  intro x y he
  apply (h x y [] [] _).1
  rw [he]

theorem SelfDelimiting.comp {f : γ → β} (h : SelfDelimiting enc) (hf : Function.Injective f) :
    SelfDelimiting fun x => enc (f x) := by
  intro x y us vs he
  obtain ⟨hxy, huv⟩ := h _ _ us vs he
  exact ⟨hf hxy, huv⟩

theorem SelfDelimiting.after (h : SelfDelimiting enc) (pre : List α) :
    SelfDelimiting fun x => pre ++ enc x := by
  intro x y us vs he
  simp only [List.append_assoc] at he
  exact h x y us vs (List.append_cancel_left he)

theorem SelfDelimiting.before (h : SelfDelimiting enc) (post : List α) :
    SelfDelimiting fun x => enc x ++ post := by
  intro x y us vs he
  simp only [List.append_assoc] at he
  obtain ⟨rfl, hpost⟩ := h x y _ _ he
  exact ⟨rfl, List.append_cancel_left hpost⟩

/-- A number of values, one after the other. -/
theorem SelfDelimiting.flatMap (h : SelfDelimiting enc) {xs ys : List β} {us vs : List α}
    (hlen : xs.length = ys.length) (he : xs.flatMap enc ++ us = ys.flatMap enc ++ vs) :
    xs = ys ∧ us = vs := by
  induction xs generalizing ys with
  | nil =>
    cases ys with
    | nil => exact ⟨rfl, he⟩
    | cons y ys => simp at hlen
  | cons x xs ih =>
    cases ys with
    | nil => simp at hlen
    | cons y ys =>
      simp only [List.flatMap_cons, List.append_assoc] at he
      obtain ⟨rfl, hrest⟩ := h x y _ _ he
      obtain ⟨rfl, rfl⟩ := ih (by simpa using hlen) hrest
      exact ⟨rfl, rfl⟩

end Combinators

section Numbers

variable {digits : ℕ → List α} {sep : α}

theorem selfDelimiting_number (hd : Function.Injective digits) (hs : ∀ n, sep ∉ digits n) :
    SelfDelimiting fun n => digits n ++ [sep] := by
  intro m n us vs he
  simp only [List.append_assoc, List.singleton_append] at he
  obtain ⟨hdig, rfl⟩ := split_at_sep (hs m) (hs n) he
  exact ⟨hd hdig, rfl⟩

theorem selfDelimiting_framed (hd : Function.Injective digits) (hs : ∀ n, sep ∉ digits n) :
    SelfDelimiting fun v : List α => digits v.length ++ [sep] ++ v := by
  intro v w us vs he
  simp only [List.append_assoc] at he
  obtain ⟨hlen, hrest⟩ := selfDelimiting_number hd hs v.length w.length (v ++ us) (w ++ vs)
    (by simpa only [List.append_assoc] using he)
  exact List.append_inj hrest hlen

theorem SelfDelimiting.counted {enc : β → List α} (h : SelfDelimiting enc)
    (hd : Function.Injective digits) (hs : ∀ n, sep ∉ digits n) :
    SelfDelimiting fun xs : List β => digits xs.length ++ [sep] ++ xs.flatMap enc := by
  intro xs ys us vs he
  simp only [List.append_assoc] at he
  obtain ⟨hlen, hrest⟩ := selfDelimiting_number hd hs xs.length ys.length (xs.flatMap enc ++ us)
    (ys.flatMap enc ++ vs) (by simpa only [List.append_assoc] using he)
  exact h.flatMap hlen hrest

end Numbers

section LittleEndian

/-- A number as so many bytes, the lowest first. -/
def littleEndian : ℕ → ℕ → List UInt8
  | 0, _ => []
  | width + 1, n => UInt8.ofNat n :: littleEndian width (n / 256)

variable {width m n : ℕ} {xs ys us vs : List UInt8}

theorem length_littleEndian : (littleEndian width n).length = width := by
  induction width generalizing n with
  | zero => rfl
  | succ width ih => simp [littleEndian, ih]

theorem littleEndian_injective (hm : m < 256 ^ width) (hn : n < 256 ^ width)
    (h : littleEndian width m = littleEndian width n) : m = n := by
  induction width generalizing m n with
  | zero =>
    rw [Nat.pow_zero] at hm hn
    omega
  | succ width ih =>
    rw [Nat.pow_succ] at hm hn
    obtain ⟨hlow, hhigh⟩ := List.cons.inj h
    have hdiv : m / 256 = n / 256 := ih (by omega) (by omega) hhigh
    have hmod : m % 256 = n % 256 := by simpa using congrArg UInt8.toNat hlow
    omega

/-- Behind its length in so many bytes. -/
def framed (width : ℕ) (xs : List UInt8) : List UInt8 := littleEndian width xs.length ++ xs

theorem framed_append (hx : xs.length < 256 ^ width) (hy : ys.length < 256 ^ width)
    (h : framed width xs ++ us = framed width ys ++ vs) : xs = ys ∧ us = vs := by
  simp only [framed, List.append_assoc] at h
  obtain ⟨hlength, hrest⟩ := List.append_inj h (by simp only [length_littleEndian])
  exact List.append_inj hrest (littleEndian_injective hx hy hlength)

theorem framed_flatMap {ps qs : List (List UInt8)} (hp : ∀ x ∈ ps, x.length < 256 ^ width)
    (hq : ∀ x ∈ qs, x.length < 256 ^ width) (hlen : ps.length = qs.length)
    (h : ps.flatMap (framed width) ++ us = qs.flatMap (framed width) ++ vs) :
    ps = qs ∧ us = vs := by
  induction ps generalizing qs with
  | nil =>
    cases qs with
    | nil => exact ⟨rfl, h⟩
    | cons q qs => simp at hlen
  | cons p ps ih =>
    cases qs with
    | nil => simp at hlen
    | cons q qs =>
      simp only [List.flatMap_cons, List.append_assoc] at h
      obtain ⟨rfl, hrest⟩ := framed_append (hp p List.mem_cons_self) (hq q List.mem_cons_self) h
      obtain ⟨rfl, rfl⟩ := ih (fun x hx => hp x (List.mem_cons_of_mem p hx))
        (fun x hx => hq x (List.mem_cons_of_mem p hx)) (by simpa using hlen) hrest
      exact ⟨rfl, rfl⟩

end LittleEndian

end FleetOrchestrator.Encoding
