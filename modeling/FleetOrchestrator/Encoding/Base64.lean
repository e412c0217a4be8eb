import Mathlib.Algebra.Order.Floor.Div
import Mathlib.Data.List.Induction
import Mathlib.GroupTheory.GroupAction.Ring
import Mathlib.Tactic.Ring

/-! Bytes as letters of fewer bits each, as RFC 4648 has them: the bytes are one string of bits,
which is cut into groups, and zeros fill up the last group. -/

namespace FleetOrchestrator.Encoding.Base64

/-- The last `k` bits of a number, the highest of them first. -/
def lowBits : ℕ → ℕ → List Bool
  | 0, _ => []
  | k + 1, n => lowBits k (n / 2) ++ [n.testBit 0]

def value (bits : List Bool) : ℕ := bits.foldl (fun n b => 2 * n + b.toNat) 0

section Bits

variable (j k n m : ℕ) (bits : List Bool)

@[simp] theorem lowBits_length : (lowBits k n).length = k := by
  induction k generalizing n with
  | zero => rfl
  | succ k ih => simp [lowBits, ih]

@[simp] theorem value_concat (b : Bool) : value (bits ++ [b]) = 2 * value bits + b.toNat := by
  simp [value]

@[simp] theorem value_lowBits : value (lowBits k n) = n % 2 ^ k := by
  induction k generalizing n with
  | zero => simp [lowBits, value, Nat.mod_one]
  | succ k ih =>
    have hlow : (n.testBit 0).toNat = n % 2 := by
      rw [Nat.testBit_zero]
      rcases Nat.mod_two_eq_zero_or_one n with h | h <;> simp [h]
    rw [lowBits, value_concat, ih, hlow, Nat.pow_succ', Nat.mod_mul]
    ring

theorem lowBits_value : lowBits bits.length (value bits) = bits := by
  induction bits using List.reverseRecOn with
  | nil => rfl
  | append_singleton bits b ih =>
    have hhigh : (2 * value bits + b.toNat) / 2 = value bits := by
      cases b
      · simp
      · rw [Bool.toNat_true]
        omega
    have hlow : (2 * value bits + b.toNat).testBit 0 = b := by
      rw [Nat.testBit_zero]
      cases b <;> simp
    rw [List.length_append, List.length_singleton, value_concat, lowBits, hhigh, hlow, ih]

theorem value_lt : value bits < 2 ^ bits.length := by
  have hval := value_lowBits bits.length (value bits)
  rw [lowBits_value] at hval
  rw [hval]
  exact Nat.mod_lt _ (Nat.two_pow_pos _)

theorem lowBits_add : lowBits (j + k) n = lowBits j (n / 2 ^ k) ++ lowBits k n := by
  induction k generalizing n with
  | zero => simp [lowBits]
  | succ k ih =>
    rw [← Nat.add_assoc, lowBits, ih, lowBits, Nat.div_div_eq_div_mul, ← Nat.pow_succ',
      List.append_assoc]

theorem lowBits_congr (h : n % 2 ^ k = m % 2 ^ k) : lowBits k n = lowBits k m := by
  have hn := lowBits_value (lowBits k n)
  have hm := lowBits_value (lowBits k m)
  rw [lowBits_length, value_lowBits] at hn hm
  rw [← hn, ← hm, h]

/-- Two numbers side by side are one number of as many bits as both. -/
theorem lowBits_join (hm : m < 2 ^ k) :
    lowBits j n ++ lowBits k m = lowBits (j + k) (n * 2 ^ k + m) := by
  have hpos : 0 < 2 ^ k := Nat.two_pow_pos k
  have hhigh : (n * 2 ^ k + m) / 2 ^ k = n := by
    rw [Nat.mul_comm, Nat.mul_add_div hpos, Nat.div_eq_of_lt hm, Nat.add_zero]
  have hlow : lowBits k (n * 2 ^ k + m) = lowBits k m := by
    apply lowBits_congr
    rw [Nat.mul_comm, Nat.mul_add_mod]
  rw [lowBits_add, hhigh, hlow]

theorem lowBits_zeros : lowBits k n ++ List.replicate j false = lowBits (k + j) (n * 2 ^ j) := by
  have hzeros : lowBits j 0 = List.replicate j false := by
    induction j with
    | zero => rfl
    | succ j ih => rw [lowBits, List.replicate_succ', Nat.zero_div, ih, Nat.zero_testBit]
  rw [← hzeros, lowBits_join _ _ _ _ (Nat.two_pow_pos j), Nat.add_zero]

end Bits

section Groups

variable {w : ℕ} (hw : 0 < w) {bits group rest : List Bool}

def fillUp (w : ℕ) (bits : List Bool) : List Bool :=
  bits ++ List.replicate (w - bits.length) false

def groups (w : ℕ) (bits : List Bool) : List (List Bool) :=
  if bits.length = 0 ∨ w = 0 then [] else fillUp w (bits.take w) :: groups w (bits.drop w)
termination_by bits.length

@[simp] theorem groups_nil : groups w [] = [] := by
  rw [groups]
  simp

include hw

theorem groups_step (hbits : bits ≠ []) :
    groups w bits = fillUp w (bits.take w) :: groups w (bits.drop w) := by
  rw [groups, if_neg]
  simp only [List.length_eq_zero_iff, not_or]
  exact ⟨hbits, Nat.ne_of_gt hw⟩

theorem groups_append (hgroup : group.length = w) :
    groups w (group ++ rest) = group :: groups w rest := by
  have hne : group ++ rest ≠ [] := by
    rw [← List.length_pos_iff, List.length_append]
    omega
  rw [groups_step hw hne, List.take_left' hgroup, List.drop_left' hgroup, fillUp, hgroup,
    Nat.sub_self, List.replicate_zero, List.append_nil]

theorem groups_last (hpos : 0 < bits.length) (hle : bits.length ≤ w) :
    groups w bits = [fillUp w bits] := by
  rw [groups_step hw (List.length_pos_iff.mp hpos), List.take_of_length_le hle,
    List.drop_of_length_le hle, groups_nil]

theorem length_groups (bits : List Bool) :
    (groups w bits).length = (bits.length + (w - 1)) / w := by
  induction h : bits.length using Nat.strong_induction_on generalizing bits with
  | _ n ih =>
    subst h
    by_cases hbits : bits = []
    · subst hbits
      rw [groups_nil, List.length_nil, List.length_nil, Nat.zero_add, Nat.div_eq_of_lt (by omega)]
    · have hpos : 0 < bits.length := List.length_pos_iff.mpr hbits
      have hdrop := ih (bits.drop w).length (by rw [List.length_drop]; omega) (bits.drop w) rfl
      rw [groups_step hw hbits, List.length_cons, hdrop, List.length_drop]
      by_cases hle : bits.length ≤ w
      · have hsum : bits.length + (w - 1) = w + (bits.length - 1) := by omega
        rw [Nat.sub_eq_zero_of_le hle, Nat.zero_add, Nat.div_eq_of_lt (by omega), hsum,
          Nat.add_div_left _ hw, Nat.div_eq_of_lt (by omega)]
      · have hsum : bits.length + (w - 1) = bits.length - w + (w - 1) + w := by omega
        rw [hsum, Nat.add_div_right _ hw]

theorem mem_groups (bits : List Bool) : ∀ g ∈ groups w bits, g.length = w := by
  induction h : bits.length using Nat.strong_induction_on generalizing bits with
  | _ n ih =>
    subst h
    by_cases hbits : bits = []
    · simp [hbits]
    · have hpos : 0 < bits.length := List.length_pos_iff.mpr hbits
      rw [groups_step hw hbits]
      refine List.forall_mem_cons.mpr ⟨?_, ?_⟩
      · simp only [fillUp, List.length_append, List.length_take, List.length_replicate]
        omega
      · exact ih (bits.drop w).length (by rw [List.length_drop]; omega) (bits.drop w) rfl

/-- The groups are the bits with less than one group of zeros behind them. -/
theorem flatten_groups (bits : List Bool) :
    ∃ k < w, (groups w bits).flatten = bits ++ List.replicate k false := by
  induction h : bits.length using Nat.strong_induction_on generalizing bits with
  | _ n ih =>
    subst h
    by_cases hbits : bits = []
    · exact ⟨0, hw, by simp [hbits]⟩
    · have hpos : 0 < bits.length := List.length_pos_iff.mpr hbits
      by_cases hle : bits.length ≤ w
      · refine ⟨w - bits.length, by omega, ?_⟩
        rw [groups_last hw hpos hle, List.flatten_singleton, fillUp]
      · obtain ⟨k, hk, hflat⟩ :=
          ih (bits.drop w).length (by rw [List.length_drop]; omega) (bits.drop w) rfl
        have hfull : fillUp w (bits.take w) = bits.take w := by
          rw [fillUp, List.length_take, Nat.min_eq_left (by omega), Nat.sub_self,
            List.replicate_zero, List.append_nil]
        refine ⟨k, hk, ?_⟩
        rw [groups_step hw hbits, List.flatten_cons, hflat, hfull, ← List.append_assoc,
          List.take_append_drop]

end Groups

/-- The URL-safe alphabet. -/
def urlLetter (v : ℕ) : Char :=
  if v < 26 then Char.ofNat ('A'.toNat + v)
  else if v < 52 then Char.ofNat ('a'.toNat + (v - 26))
  else if v < 62 then Char.ofNat ('0'.toNat + (v - 52))
  else if v = 62 then '-'
  else '_'

def urlDigit (c : Char) : Option ℕ :=
  if 'A' ≤ c ∧ c ≤ 'Z' then some (c.toNat - 'A'.toNat)
  else if 'a' ≤ c ∧ c ≤ 'z' then some (c.toNat - 'a'.toNat + 26)
  else if '0' ≤ c ∧ c ≤ '9' then some (c.toNat - '0'.toNat + 52)
  else if c = '-' then some 62
  else if c = '_' then some 63
  else none

theorem urlDigit_urlLetter : ∀ v < 2 ^ 6, urlDigit (urlLetter v) = some v := by decide

section Codec

variable {α : Type} {w : ℕ} (letter : ℕ → α) (digit : α → Option ℕ)

def bitString (bytes : List UInt8) : List Bool := bytes.flatMap fun b => lowBits 8 b.toNat

@[simp] theorem bitString_cons (b : UInt8) (bytes : List UInt8) :
    bitString (b :: bytes) = lowBits 8 b.toNat ++ bitString bytes := List.flatMap_cons

theorem bitString_length (bytes : List UInt8) : (bitString bytes).length = 8 * bytes.length := by
  induction bytes with
  | nil => rfl
  | cons b bytes ih =>
    rw [bitString_cons, List.length_append, lowBits_length, ih, List.length_cons]
    ring

def encode (w : ℕ) (bytes : List UInt8) : List α :=
  (groups w (bitString bytes)).map fun g => letter (value g)

/-- The bytes of a string of bits; what is left over at its end is dropped. -/
def octets (bits : List Bool) : List UInt8 :=
  if 8 ≤ bits.length then UInt8.ofNat (value (bits.take 8)) :: octets (bits.drop 8) else []
termination_by bits.length
decreasing_by rw [List.length_drop]; omega

def decode (w : ℕ) (text : List α) : Option (List UInt8) :=
  (text.mapM digit).map fun vs => octets (vs.flatMap (lowBits w))

theorem octets_bitString (bytes : List UInt8) (tail : List Bool) (htail : tail.length < 8) :
    octets (bitString bytes ++ tail) = bytes := by
  induction bytes with
  | nil =>
    rw [octets, if_neg]
    rw [bitString, List.flatMap_nil, List.nil_append]
    omega
  | cons b bytes ih =>
    have hlen : (lowBits 8 b.toNat).length = 8 := lowBits_length 8 b.toNat
    have hbyte : UInt8.ofNat (b.toNat % 2 ^ 8) = b := by
      rw [Nat.mod_eq_of_lt b.toNat_lt, UInt8.ofNat_toNat]
    rw [octets, bitString_cons, List.append_assoc, if_pos, List.take_left' hlen,
      List.drop_left' hlen, ih, value_lowBits, hbyte]
    rw [List.length_append, hlen]
    omega

theorem encode_length (hw : 0 < w) (bytes : List UInt8) :
    (encode letter w bytes).length = (8 * bytes.length + (w - 1)) / w := by
  rw [encode, List.length_map, length_groups hw, bitString_length]

theorem mem_encode (hw : 0 < w) (bytes : List UInt8) :
    ∀ c ∈ encode letter w bytes, ∃ v < 2 ^ w, c = letter v := by
  intro c hc
  obtain ⟨g, hg, rfl⟩ := List.mem_map.mp hc
  exact ⟨value g, mem_groups hw _ g hg ▸ value_lt g, rfl⟩

theorem mapM_letters (vs : List ℕ) (h : ∀ v ∈ vs, digit (letter v) = some v) :
    (vs.map letter).mapM digit = some vs := by
  induction vs with
  | nil => rfl
  | cons v vs ih =>
    obtain ⟨hv, hvs⟩ := List.forall_mem_cons.mp h
    rw [List.map_cons, List.mapM_cons, hv, ih hvs]
    rfl

theorem decode_encode (hw : 0 < w) (h8 : w ≤ 8) (hdigit : ∀ v < 2 ^ w, digit (letter v) = some v)
    (bytes : List UInt8) : decode digit w (encode letter w bytes) = some bytes := by
  have hread : (encode letter w bytes).mapM digit =
      some ((groups w (bitString bytes)).map value) := by
    have hletters := mapM_letters letter digit ((groups w (bitString bytes)).map value)
    rw [List.map_map] at hletters
    apply hletters
    intro v hv
    obtain ⟨g, hg, rfl⟩ := List.mem_map.mp hv
    exact hdigit _ (mem_groups hw _ g hg ▸ value_lt g)
  have hbits : ((groups w (bitString bytes)).map value).flatMap (lowBits w) =
      (groups w (bitString bytes)).flatten := by
    have hself : ∀ g ∈ groups w (bitString bytes), (lowBits w ∘ value) g = id g := by
      intro g hg
      have hback := lowBits_value g
      rwa [mem_groups hw _ g hg] at hback
    rw [List.flatMap_def, List.map_map, List.map_congr_left hself, List.map_id]
  obtain ⟨k, hk, hflat⟩ := flatten_groups hw (bitString bytes)
  rw [decode, hread, Option.map_some, hbits, hflat, octets_bitString]
  rw [List.length_replicate]
  omega

end Codec

/-- What RFC 4648 asks of an encoder for the URL-safe alphabet that leaves the padding away. -/
structure UrlSafe (encoder : List UInt8 → List Char) : Prop where
  encodes : ∀ input, encoder input = encode urlLetter 6 input
  length : ∀ input, (encoder input).length = 4 * input.length ⌈/⌉ 3
  letters : ∀ input, ∀ c ∈ encoder input, c ∈ (List.range 64).map urlLetter
  decodes : ∀ input, decode urlDigit 6 (encoder input) = some input
  injective : encoder.Injective

theorem urlSafe_encode {encoder : List UInt8 → List Char}
    (h : ∀ input, encoder input = encode urlLetter 6 input) : UrlSafe encoder := by
  have hback : ∀ input, decode urlDigit 6 (encoder input) = some input := by
    intro input
    rw [h]
    exact decode_encode _ _ (by decide) (by decide) urlDigit_urlLetter input
  constructor
  · exact h
  · intro input
    rw [h, encode_length _ (by decide), Nat.ceilDiv_eq_add_pred_div]
    omega
  · intro input c hc
    rw [h] at hc
    obtain ⟨v, hv, rfl⟩ := mem_encode _ (by decide) input c hc
    exact List.mem_map_of_mem (List.mem_range.mpr hv)
  · exact hback
  · intro input other hother
    have hsame := hback other
    rw [← hother, hback input] at hsame
    exact Option.some.inj hsame

end FleetOrchestrator.Encoding.Base64
