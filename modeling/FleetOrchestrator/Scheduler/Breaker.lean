import Mathlib.Algebra.Group.Nat.Defs
import FleetOrchestrator.Core.Fleet

namespace FleetOrchestrator.Scheduler

open Core

/-- Milliseconds, the unit of every clock and duration here. -/
def secs (n : ℕ) : ℕ := n * 1000

inductive BreakerState where
  | closed
  | open
  | halfOpen
  deriving DecidableEq, Repr

namespace BreakerState

def toCircuit : BreakerState → CircuitState
  | closed => .closed
  | .open => .open
  | halfOpen => .halfOpen

def ofCircuit : CircuitState → BreakerState
  | .closed => .closed
  | .open => .open
  | .halfOpen => .halfOpen

def isOpen : BreakerState → Bool
  | .open => true
  | closed | halfOpen => false

end BreakerState

inductive Outcome where
  | success
  | failure
  deriving DecidableEq, Repr

structure CircuitBreakerConfig where
  windowDurationSecs : ℕ
  minSamples : ℕ
  /-- `failures / total >= error_rate_threshold`, a comparison of floating-point numbers. -/
  errorRateReached : ℕ → ℕ → Bool
  openDurationSecs : ℕ
  halfOpenMaxProbes : ℕ

structure BreakerInner where
  state : BreakerState
  samples : List (Bool × ℤ) := []
  openedAt : Option ℤ := none
  halfOpenProbes : List ℤ := []
  deriving DecidableEq, Repr

namespace BreakerInner

def newWithState (now : ℤ) (state : CircuitState) : BreakerInner :=
  { state := .ofCircuit state, openedAt := if state = .open then some now else none }

def elapsed (now : ℤ) (b : BreakerInner) : ℤ :=
  match b.openedAt with
  | some t => now - t
  | none => 0

/-- The refusal carries how long the cool-down still lasts. -/
def check (cfg : CircuitBreakerConfig) (now : ℤ) (b : BreakerInner) :
    Except ℤ Unit × BreakerInner :=
  match b.state with
  | .closed => (.ok (), b)
  | .open =>
    if b.elapsed now ≥ secs cfg.openDurationSecs then
      (.ok (), { b with state := .halfOpen, halfOpenProbes := [now] })
    else (.error (secs cfg.openDurationSecs - b.elapsed now), b)
  | .halfOpen =>
    let probes := b.halfOpenProbes.filter fun issued =>
      now - issued < secs (max cfg.openDurationSecs 1)
    if probes.length < max cfg.halfOpenMaxProbes 1 then
      (.ok (), { b with halfOpenProbes := probes ++ [now] })
    else (.error 0, { b with halfOpenProbes := probes })

/-- The value of a size after `as u32`. -/
def asU32 (n : ℕ) : ℕ := n % 2 ^ 32

def recordClosed (cfg : CircuitBreakerConfig) (now : ℤ) (failed : Bool) (b : BreakerInner) :
    BreakerInner :=
  let samples := (b.samples ++ [(failed, now)]).dropWhile fun s =>
    now - s.2 > secs cfg.windowDurationSecs
  let failures := samples.countP fun s => s.1
  let total := asU32 samples.length
  if total ≥ cfg.minSamples && cfg.errorRateReached failures total then
    { state := .open, samples, openedAt := some now, halfOpenProbes := [] }
  else { b with samples }

def record (cfg : CircuitBreakerConfig) (now : ℤ) (outcome : Outcome) (b : BreakerInner) :
    BreakerInner :=
  match b.state with
  | .closed => b.recordClosed cfg now (outcome = .failure)
  | .halfOpen =>
    match outcome with
    | .failure => { b with state := .open, openedAt := some now, halfOpenProbes := [] }
    | .success => { state := .closed, samples := [], openedAt := none, halfOpenProbes := [] }
  | .open => b

def reset (_ : BreakerInner) : BreakerInner := { state := .closed }

def forceOpen (now : ℤ) (b : BreakerInner) : BreakerInner :=
  { b with state := .open, openedAt := some now, halfOpenProbes := [] }

/-- Nothing recorded moves an open breaker. -/
theorem record_open {cfg : CircuitBreakerConfig} {now : ℤ} {outcome : Outcome} {b : BreakerInner}
    (h : b.state = .open) : record cfg now outcome b = b := by
  unfold record
  rw [h]

end BreakerInner

end FleetOrchestrator.Scheduler
