import FleetOrchestrator.Encoding.Base64
import FleetOrchestrator.Provision.WorkerToml

/-! The encoder that the worker brings of its own, next to that of the server. -/

namespace FleetOrchestrator.Worker.Join

open Encoding Encoding.Base64

def alphabet : List Char :=
  "ABCDEFGHIJKLMNOPQRSTUVWXYZabcdefghijklmnopqrstuvwxyz0123456789-_".toList

def asChunks : List UInt8 → List (UInt8 × UInt8 × UInt8) × List UInt8
  | a :: b :: c :: rest =>
    let (chunks, rem) := asChunks rest
    ((a, b, c) :: chunks, rem)
  | rem => ([], rem)

def letter (n : UInt32) : Char := alphabet.getD (n &&& 0x3F).toNat 'A'

def chunk : UInt8 × UInt8 × UInt8 → List Char
  | (a, b, c) =>
    let n := a.toUInt32 <<< 16 ||| b.toUInt32 <<< 8 ||| c.toUInt32
    [letter (n >>> 18), letter (n >>> 12), letter (n >>> 6), letter n]

def remainder : List UInt8 → List Char
  | [a] =>
    let n := a.toUInt32 <<< 16
    [letter (n >>> 18), letter (n >>> 12)]
  | [a, b] =>
    let n := a.toUInt32 <<< 16 ||| b.toUInt32 <<< 8
    [letter (n >>> 18), letter (n >>> 12), letter (n >>> 6)]
  | _ => []

def base64url (input : List UInt8) : List Char :=
  let (chunks, rem) := asChunks input
  chunks.flatMap chunk ++ remainder rem

section Words

variable (a b c : UInt8) (n : UInt32)

theorem toNat_one : (a.toUInt32 <<< 16).toNat = a.toNat * 2 ^ 16 := by
  have ha := a.toNat_lt
  simp [Nat.shiftLeft_eq]
  omega

theorem toNat_two :
    (a.toUInt32 <<< 16 ||| b.toUInt32 <<< 8).toNat = a.toNat * 2 ^ 16 + b.toNat * 2 ^ 8 := by
  have hb := b.toNat_lt
  have hlow : (b.toUInt32 <<< 8).toNat = b.toNat * 2 ^ 8 := by
    simp [Nat.shiftLeft_eq]
    omega
  have hlt : b.toNat * 2 ^ 8 < 2 ^ 16 := by omega
  rw [UInt32.toNat_or, toNat_one, hlow, ← Nat.shiftLeft_eq a.toNat,
    Nat.shiftLeft_add_eq_or_of_lt hlt]

theorem toNat_three :
    (a.toUInt32 <<< 16 ||| b.toUInt32 <<< 8 ||| c.toUInt32).toNat =
      a.toNat * 2 ^ 16 + b.toNat * 2 ^ 8 + c.toNat := by
  have hc : c.toNat < 2 ^ 8 := c.toNat_lt
  have hhigh : a.toNat * 2 ^ 16 + b.toNat * 2 ^ 8 = (a.toNat * 2 ^ 8 + b.toNat) <<< 8 := by
    rw [Nat.shiftLeft_eq]
    ring
  rw [UInt32.toNat_or, toNat_two, hhigh, UInt8.toNat_toUInt32, Nat.shiftLeft_add_eq_or_of_lt hc]

theorem letter_eq : letter n = Provision.sextet n.toNat 0 := by
  have hmask : (n &&& 0x3F).toNat = n.toNat % 64 := by
    rw [UInt32.toNat_and]
    exact Nat.and_two_pow_sub_one_eq_mod n.toNat 6
  rw [letter, hmask, Provision.sextet, Nat.pow_zero, Nat.div_one]
  rfl

theorem letter_shift (k : UInt32) (hk : k.toNat < 32) :
    letter (n >>> k) = Provision.sextet n.toNat k.toNat := by
  rw [letter_eq, UInt32.toNat_shiftRight, Nat.mod_eq_of_lt hk, Nat.shiftRight_eq_div_pow]
  simp [Provision.sextet]

end Words

/-- The two encoders are one function. -/
theorem base64url_eq (input : List UInt8) : base64url input = Provision.base64url input := by
  fun_induction Provision.base64url input with
  | case1 a b c rest n ih =>
    simp only [base64url, asChunks, List.flatMap_cons, List.append_assoc] at ih ⊢
    rw [ih, chunk]
    simp only [letter_shift _ 18 (by decide), letter_shift _ 12 (by decide),
      letter_shift _ 6 (by decide)]
    rw [letter_eq, toNat_three]
    rfl
  | case2 a n =>
    simp only [base64url, asChunks, List.flatMap_nil, List.nil_append, remainder,
      letter_shift _ 18 (by decide), letter_shift _ 12 (by decide), toNat_one]
    rfl
  | case3 a b n =>
    simp only [base64url, asChunks, List.flatMap_nil, List.nil_append, remainder,
      letter_shift _ 18 (by decide), letter_shift _ 12 (by decide),
      letter_shift _ 6 (by decide), toNat_two]
    rfl
  | case4 => rfl

section Meaning

variable (n k : ℕ) (rest : List Bool)

theorem sextet_eq : Provision.sextet n k = urlLetter (value (lowBits 6 (n / 2 ^ k))) := by
  have hlt : n / 2 ^ k % 64 < 64 := Nat.mod_lt _ (by decide)
  have hall : Provision.alphabet = (List.range 64).map urlLetter := by decide
  rw [value_lowBits, Provision.sextet, hall, List.getD_eq_getElem?_getD, List.getElem?_map,
    List.getElem?_range hlt]
  rfl

theorem sextet_shift (j : ℕ) : Provision.sextet (n * 2 ^ k) (j + k) = Provision.sextet n j := by
  rw [Provision.sextet, Nat.pow_add, Nat.mul_div_mul_right _ _ (Nat.two_pow_pos k)]
  rfl

/-- The six highest of `6 + k` bits are a letter of their own. -/
theorem groups_sextet :
    (groups 6 (lowBits (6 + k) n ++ rest)).map (fun g => urlLetter (value g)) =
      Provision.sextet n k :: (groups 6 (lowBits k n ++ rest)).map fun g => urlLetter (value g) := by
  rw [lowBits_add, List.append_assoc, groups_append (by decide) (lowBits_length 6 _),
    List.map_cons, sextet_eq]

theorem groups_short (hk : 0 < k) (hle : k ≤ 6) :
    (groups 6 (lowBits k n)).map (fun g => urlLetter (value g)) =
      [Provision.sextet (n * 2 ^ (6 - k)) 0] := by
  have hsix : k + (6 - k) = 6 := by omega
  have hlen : (lowBits k n).length = k := lowBits_length k n
  rw [groups_last (by decide) (by rwa [hlen]) (by rwa [hlen]), fillUp, hlen, lowBits_zeros, hsix,
    sextet_eq, Nat.pow_zero, Nat.div_one]
  rfl

theorem base64url_encode (input : List UInt8) :
    Provision.base64url input = encode urlLetter 6 input := by
  fun_induction Provision.base64url input with
  | case1 a b c rest n ih =>
    have hb := b.toNat_lt
    have hn : (a.toNat * 2 ^ 8 + b.toNat) * 2 ^ 8 + c.toNat = n := by ring
    have hjoin : lowBits 8 a.toNat ++ (lowBits 8 b.toNat ++ lowBits 8 c.toNat) = lowBits 24 n := by
      rw [← List.append_assoc, lowBits_join 8 8 _ _ hb, lowBits_join 16 8 _ _ c.toNat_lt, hn]
    have hbits : bitString (a :: b :: c :: rest) = lowBits 24 n ++ bitString rest := by
      rw [bitString_cons, bitString_cons, bitString_cons, ← hjoin]
      simp only [List.append_assoc]
    rw [encode, hbits, groups_sextet n 18, groups_sextet n 12, groups_sextet n 6, groups_sextet n 0,
      ih]
    rfl
  | case2 a n =>
    have hlast : a.toNat * 2 ^ (6 - 2) * 2 ^ 12 = n := Nat.mul_assoc _ _ _
    have hbits : bitString [a] = lowBits 8 a.toNat ++ [] := bitString_cons a []
    rw [encode, hbits, groups_sextet a.toNat 2, List.append_nil,
      groups_short a.toNat 2 (by decide) (by decide), ← sextet_shift a.toNat 16 2,
      ← sextet_shift _ 12 0, hlast]
  | case3 a b n =>
    have hn : (a.toNat * 2 ^ 8 + b.toNat) * 2 ^ 8 = n := by ring
    have hlast : (a.toNat * 2 ^ 8 + b.toNat) * 2 ^ (6 - 4) * 2 ^ 6 = n := by
      rw [← hn]
      ring
    have hbits : bitString [a, b] = lowBits 16 (a.toNat * 2 ^ 8 + b.toNat) ++ [] := by
      rw [bitString_cons, bitString_cons, ← List.append_assoc, lowBits_join 8 8 _ _ b.toNat_lt]
      rfl
    rw [encode, hbits, groups_sextet _ 10, groups_sextet _ 4, List.append_nil,
      groups_short _ 4 (by decide) (by decide), ← sextet_shift _ 8 10, ← sextet_shift _ 8 4,
      ← sextet_shift _ 6 0, hn, hlast]
  | case4 => simp [encode, bitString]

end Meaning

theorem encoders_rfc4648 :
    UrlSafe Provision.base64url ∧ UrlSafe base64url ∧
      ∀ input, base64url input = Provision.base64url input := by
  have hserver : UrlSafe Provision.base64url := urlSafe_encode base64url_encode
  refine ⟨hserver, ?_, base64url_eq⟩
  have hsame : base64url = Provision.base64url := funext base64url_eq
  rw [hsame]
  exact hserver

end FleetOrchestrator.Worker.Join
