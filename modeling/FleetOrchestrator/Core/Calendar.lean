import Mathlib.Algebra.Order.Group.Unbundled.Int
import Mathlib.Algebra.Order.Ring.Int

/-! Spans and instants in whole seconds, with the limits of what can be represented. -/

namespace FleetOrchestrator.Core

/-- The `u64` of a request, cast to an `i64`. -/
def asI64 (n : ℕ) : ℤ := if n < 2 ^ 63 then n else n - 2 ^ 64

/-- A date library: the longest span, either way, and the first and the last instant. -/
structure Calendar where
  longest : ℤ
  earliest : ℤ
  latest : ℤ
  longest_lt : longest < 2 ^ 63

namespace Calendar

variable (C : Calendar)

def Spans (t : ℤ) : Prop := C.earliest ≤ t ∧ t ≤ C.latest

instance (t : ℤ) : Decidable (C.Spans t) := inferInstanceAs (Decidable (_ ∧ _))

/-- Here and below, `none` is a panic. -/
def seconds (s : ℤ) : Option ℤ := if -C.longest ≤ s ∧ s ≤ C.longest then some s else none

def hours (h : ℤ) : Option ℤ :=
  if -2 ^ 63 ≤ h * 3600 ∧ h * 3600 < 2 ^ 63 then C.seconds (h * 3600) else none

def later (now span : ℤ) : Option ℤ := if C.Spans (now + span) then some (now + span) else none

variable {C} {s h now t : ℤ}

theorem later_eq_some : C.later now s = some t ↔ C.Spans (now + s) ∧ now + s = t := by
  simp [later]

theorem later_seconds : (C.seconds s).bind (C.later now) = some t ↔
    (-C.longest ≤ s ∧ s ≤ C.longest) ∧ C.Spans (now + s) ∧ now + s = t := by
  by_cases hs : -C.longest ≤ s ∧ s ≤ C.longest
  · rw [seconds, if_pos hs, Option.bind_some, later_eq_some, and_iff_right hs]
  · rw [seconds, if_neg hs]
    exact ⟨nofun, fun h => absurd h.1 hs⟩

theorem hours_eq (hh : 0 ≤ h) : C.hours h = C.seconds (h * 3600) := by
  have hl := C.longest_lt
  by_cases hb : h * 3600 ≤ C.longest
  · rw [hours, if_pos ⟨by omega, by omega⟩]
  · have hs : C.seconds (h * 3600) = none := if_neg fun hx => hb hx.2
    rw [hours, hs, ite_self]

/-- Only a cast that leaves the number as it is can lead to the instant that was asked for. -/
theorem later_asI64 {n : ℕ} (hn : n < 2 ^ 64) :
    (C.seconds (asI64 n)).bind (C.later now) = some (now + n) ↔
      n ≤ C.longest ∧ C.Spans (now + n) := by
  have hl := C.longest_lt
  rw [later_seconds, asI64]
  split
  next hlow =>
    constructor
    · rintro ⟨hs, hc, -⟩
      exact ⟨hs.2, hc⟩
    · rintro ⟨hs, hc⟩
      exact ⟨⟨by omega, hs⟩, hc, rfl⟩
  next hhigh =>
    constructor
    · rintro ⟨-, -, ht⟩
      omega
    · rintro ⟨hs, -⟩
      omega

end Calendar

/-- Spans are counted in milliseconds within an `i64`; the years end with 262142. -/
def chrono : Calendar :=
  { longest := 9223372036854775, earliest := -8334601228800, latest := 8210266876799,
    longest_lt := by decide }

end FleetOrchestrator.Core
