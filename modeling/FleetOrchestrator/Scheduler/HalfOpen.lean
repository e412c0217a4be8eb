import FleetOrchestrator.Scheduler.Breaker

/-!
A breaker together with the attempts it admitted and whose outcomes are still to come. An attempt
is known by how often the breaker had opened and had entered HalfOpen when it was let through;
`record` itself is told neither.
-/

namespace FleetOrchestrator.Scheduler

open Core

namespace BreakerInner

/-- With this outcome the window of a closed breaker reaches the error rate. -/
def trips (cfg : CircuitBreakerConfig) (now : ℤ) (failed : Bool) (b : BreakerInner) : Bool :=
  let samples := (b.samples ++ [(failed, now)]).dropWhile fun s =>
    now - s.2 > secs cfg.windowDurationSecs
  asU32 samples.length ≥ cfg.minSamples &&
    cfg.errorRateReached (samples.countP fun s => s.1) (asU32 samples.length)

variable {cfg : CircuitBreakerConfig} {now : ℤ} {b : BreakerInner}

theorem check_closed (h : b.state = .closed) : b.check cfg now = (.ok (), b) := by
  unfold check
  rw [h]

theorem check_open (h : b.state = .open) :
    ((b.check cfg now).1.isOk = true ∧ (b.check cfg now).2.state = .halfOpen) ∨
      ((b.check cfg now).1.isOk = false ∧ (b.check cfg now).2.state = .open) := by
  unfold check
  rw [h]
  dsimp only
  by_cases hc : b.elapsed now ≥ secs cfg.openDurationSecs
  · rw [if_pos hc]
    exact .inl ⟨rfl, rfl⟩
  · rw [if_neg hc]
    exact .inr ⟨rfl, h⟩

theorem check_halfOpen (h : b.state = .halfOpen) : (b.check cfg now).2.state = .halfOpen := by
  unfold check
  rw [h]
  dsimp only
  split
  · rfl
  · rfl

theorem record_closed {failed : Outcome} (h : b.state = .closed) :
    (record cfg now failed b).state =
      if b.trips cfg now (failed = .failure) then .open else .closed := by
  unfold record
  rw [h]
  dsimp only
  unfold recordClosed trips
  dsimp only
  split
  · rfl
  · exact h

theorem record_halfOpen {outcome : Outcome} (h : b.state = .halfOpen) :
    (record cfg now outcome b).state ≠ .halfOpen := by
  unfold record
  rw [h]
  cases outcome with
  | success => simp
  | failure => simp

end BreakerInner

/-- How often the breaker had opened and entered HalfOpen when it admitted the attempt. -/
structure Attempt where
  opened : ℕ
  entered : ℕ
  deriving DecidableEq, Repr

structure Tracked where
  breaker : BreakerInner
  opened : ℕ := 0
  entered : ℕ := 0
  outstanding : List Attempt := []
  deriving DecidableEq, Repr

inductive BreakerCall where
  | check (now : ℤ)
  | record (now : ℤ) (attempt : Attempt) (outcome : Outcome)
  | reset
  | forceOpen (now : ℤ)
  deriving DecidableEq, Repr

namespace Tracked

def new (now : ℤ) (state : CircuitState) : Tracked := { breaker := .newWithState now state }

def move (s : Tracked) (b : BreakerInner) : Tracked :=
  { s with
    breaker := b
    opened := if s.breaker.state ≠ .open ∧ b.state = .open then s.opened + 1 else s.opened
    entered := if s.breaker.state ≠ .halfOpen ∧ b.state = .halfOpen then s.entered + 1
      else s.entered }

def admitNext (s : Tracked) : Tracked :=
  { s with outstanding := ⟨s.opened, s.entered⟩ :: s.outstanding }

def step (cfg : CircuitBreakerConfig) (s : Tracked) : BreakerCall → Tracked
  | .check now =>
    match s.breaker.check cfg now with
    | (.ok (), b) => (s.move b).admitNext
    | (.error _, b) => s.move b
  | .record now attempt outcome =>
    { s.move (s.breaker.record cfg now outcome) with outstanding := s.outstanding.erase attempt }
  | .reset => s.move s.breaker.reset
  | .forceOpen now => s.move (s.breaker.forceOpen now)

def after (cfg : CircuitBreakerConfig) (s : Tracked) (calls : List BreakerCall) : Tracked :=
  calls.foldl (step cfg) s

/-- `P` holds of every call, in the state the call meets. -/
def Along (cfg : CircuitBreakerConfig) (P : Tracked → BreakerCall → Prop) (s : Tracked)
    (calls : List BreakerCall) : Prop :=
  ∀ done call rest, calls = done ++ call :: rest → P (s.after cfg done) call

theorem along_nil {cfg : CircuitBreakerConfig} {P : Tracked → BreakerCall → Prop} {s : Tracked} :
    Along cfg P s [] :=
  fun done call rest h => absurd h.symm (by simp)

theorem along_cons {cfg : CircuitBreakerConfig} {P : Tracked → BreakerCall → Prop} {s : Tracked}
    {call : BreakerCall} {calls : List BreakerCall} :
    Along cfg P s (call :: calls) ↔ P s call ∧ Along cfg P (s.step cfg call) calls := by
  constructor
  · intro h
    refine ⟨h [] call calls rfl, fun done c rest hcalls => ?_⟩
    exact h (call :: done) c rest (by rw [hcalls, List.cons_append])
  · rintro ⟨hcall, hrest⟩ done c rest hcalls
    cases done with
    | nil =>
      obtain ⟨rfl, -⟩ := List.cons.inj hcalls
      exact hcall
    | cons c' done =>
      obtain ⟨rfl, htail⟩ := List.cons.inj hcalls
      exact hrest done c rest htail

/-- A record reports one attempt that was admitted and not yet reported. -/
def Reports (s : Tracked) : BreakerCall → Prop
  | .record _ attempt _ => attempt ∈ s.outstanding
  | _ => True

/-- HalfOpen is left only through a probe admitted since it was entered, through `reset` or
through `force_open`, and an attempt from before the breaker opened moves it nowhere. -/
def Disciplined (cfg : CircuitBreakerConfig) (s : Tracked) : BreakerCall → Prop
  | .check now => s.breaker.state = .halfOpen → (s.step cfg (.check now)).breaker.state = .halfOpen
  | .record now attempt outcome =>
    (s.breaker.state = .halfOpen →
      (s.step cfg (.record now attempt outcome)).breaker.state ≠ .halfOpen →
        attempt.entered = s.entered) ∧
    (attempt.opened < s.opened →
      (s.step cfg (.record now attempt outcome)).breaker.state = s.breaker.state)
  | .reset | .forceOpen _ => True

/-- The outcome of an attempt from before the breaker opened meets an open breaker, or a closed
one that it does not trip. -/
def LateHarmless (cfg : CircuitBreakerConfig) (s : Tracked) : BreakerCall → Prop
  | .record now attempt outcome => attempt.opened < s.opened →
      s.breaker.state = .open ∨
        s.breaker.state = .closed ∧ s.breaker.trips cfg now (outcome = .failure) = false
  | _ => True

/-- What the counts of an attempt say about when it was admitted. -/
structure Dated (s : Tracked) (a : Attempt) : Prop where
  opened : a.opened ≤ s.opened
  entered : a.entered ≤ s.entered
  open_ : s.breaker.state = .open → a.opened < s.opened
  probe : s.breaker.state = .halfOpen → (a.entered = s.entered ↔ a.opened = s.opened)

variable {cfg : CircuitBreakerConfig} {s : Tracked} {a : Attempt} {b : BreakerInner}

/-- A breaker enters HalfOpen from Open alone. -/
theorem Dated.move (h : s.Dated a) (hb : b.state = .halfOpen → s.breaker.state ≠ .closed) :
    (s.move b).Dated a := by
  have ho := h.opened
  have he := h.entered
  constructor
  · simp only [Tracked.move]
    split
    · omega
    · omega
  · simp only [Tracked.move]
    split
    · omega
    · omega
  · intro hopen
    simp only [Tracked.move] at hopen ⊢
    by_cases hs : s.breaker.state = .open
    · have := h.open_ hs
      simp only [hs, ne_eq, not_true_eq_false, false_and, if_false]
      omega
    · rw [if_pos ⟨hs, hopen⟩]
      omega
  · intro hhalf
    simp only [Tracked.move] at hhalf ⊢
    have hclosed := hb hhalf
    cases hs : s.breaker.state with
    | closed => exact absurd hs hclosed
    | «open» =>
      have := h.open_ hs
      simp only [hhalf]
      simp
      omega
    | halfOpen =>
      have := h.probe hs
      simpa [hhalf] using this

theorem dated_admit (h : ∀ a ∈ s.outstanding, s.Dated a) (hs : s.breaker.state ≠ .open) :
    ∀ a ∈ s.admitNext.outstanding, s.admitNext.Dated a := by
  intro a ha
  rw [admitNext, List.mem_cons] at ha
  obtain rfl | ha := ha
  · exact ⟨Nat.le_refl _, Nat.le_refl _, fun ho => absurd ho hs, fun _ => ⟨fun _ => rfl, fun _ => rfl⟩⟩
  · obtain ⟨ho, he, hopen, hprobe⟩ := h a ha
    exact ⟨ho, he, hopen, hprobe⟩

theorem dated_step (h : ∀ a ∈ s.outstanding, s.Dated a) (call : BreakerCall) :
    ∀ a ∈ (s.step cfg call).outstanding, (s.step cfg call).Dated a := by
  cases call with
  | check now =>
    have hmove : ∀ b, (b.state = .halfOpen → s.breaker.state ≠ .closed) →
        ∀ a ∈ (s.move b).outstanding, (s.move b).Dated a :=
      fun b hb a ha => (h a ha).move hb
    cases hs : s.breaker.state with
    | closed =>
      have hc := @BreakerInner.check_closed cfg now _ hs
      simp only [step, hc]
      refine dated_admit (hmove _ ?_) ?_
      · intro hh
        rw [hs] at hh
        cases hh
      · simp [Tracked.move, hs]
    | «open» =>
      have hc := @BreakerInner.check_open cfg now _ hs
      have hnot : s.breaker.state ≠ .closed := by simp [hs]
      simp only [step]
      split
      next b hb =>
        rw [hb] at hc
        refine dated_admit (hmove _ fun _ => hnot) ?_
        obtain ⟨-, hstate⟩ | ⟨hok, -⟩ := hc
        · dsimp only at hstate
          simp [Tracked.move, hstate]
        · simp [Except.isOk, Except.toBool] at hok
      next => exact hmove _ fun _ => hnot
    | halfOpen =>
      have hc := @BreakerInner.check_halfOpen cfg now _ hs
      have hnot : s.breaker.state ≠ .closed := by simp [hs]
      simp only [step]
      split
      next b hb =>
        rw [hb] at hc
        refine dated_admit (hmove _ fun _ => hnot) ?_
        dsimp only at hc
        simp [Tracked.move, hc]
      next => exact hmove _ fun _ => hnot
  | record now attempt outcome =>
    intro a ha
    have hdated := h a (List.mem_of_mem_erase ha)
    have hm : (s.move (s.breaker.record cfg now outcome)).Dated a := by
      apply hdated.move
      intro hhalf hclosed
      rw [BreakerInner.record_closed hclosed] at hhalf
      split at hhalf
      · cases hhalf
      · cases hhalf
    exact ⟨hm.opened, hm.entered, hm.open_, hm.probe⟩
  | reset => exact fun a ha => (h a ha).move (by simp [BreakerInner.reset])
  | forceOpen now => exact fun a ha => (h a ha).move (by simp [BreakerInner.forceOpen])

theorem dated_after (h : ∀ a ∈ s.outstanding, s.Dated a) (calls : List BreakerCall) :
    ∀ a ∈ (s.after cfg calls).outstanding, (s.after cfg calls).Dated a := by
  induction calls generalizing s with
  | nil => exact h
  | cons call rest ih => exact ih (dated_step h call)

theorem check_keeps_halfOpen (now : ℤ) (h : s.breaker.state = .halfOpen) :
    (s.step cfg (.check now)).breaker.state = .halfOpen := by
  have hc := @BreakerInner.check_halfOpen cfg now _ h
  simp only [step]
  split
  next b hb =>
    rw [hb] at hc
    exact hc
  next b hb =>
    rw [hb] at hc
    exact hc

/-- One call keeps the discipline exactly when no late outcome does harm in it. -/
theorem disciplined_iff (h : ∀ a ∈ s.outstanding, s.Dated a) {call : BreakerCall}
    (hcall : s.Reports call) : s.Disciplined cfg call ↔ s.LateHarmless cfg call := by
  cases call with
  | check now => exact ⟨fun _ => trivial, fun _ => check_keeps_halfOpen now⟩
  | record now attempt outcome =>
    have hdated := h attempt hcall
    have hstate : (s.step cfg (.record now attempt outcome)).breaker.state =
        (s.breaker.record cfg now outcome).state := rfl
    constructor
    · rintro ⟨-, hstill⟩ hlate
      have hstill := hstill hlate
      rw [hstate] at hstill
      cases hs : s.breaker.state with
      | «open» => exact .inl rfl
      | closed =>
        rw [BreakerInner.record_closed hs, hs] at hstill
        refine .inr ⟨rfl, ?_⟩
        rw [Bool.eq_false_iff]
        intro ht
        rw [if_pos ht] at hstill
        cases hstill
      | halfOpen =>
        have hleft := @BreakerInner.record_halfOpen cfg now _ outcome hs
        rw [hstill, hs] at hleft
        exact absurd rfl hleft
    · intro hlate
      constructor
      · intro hhalf _
        apply (hdated.probe hhalf).mpr
        apply Nat.le_antisymm hdated.opened
        apply Nat.le_of_not_lt
        intro hlt
        obtain ho | ⟨hc, -⟩ := hlate hlt
        · rw [hhalf] at ho
          cases ho
        · rw [hhalf] at hc
          cases hc
      · intro hlt
        rw [hstate]
        obtain ho | ⟨hc, ht⟩ := hlate hlt
        · rw [BreakerInner.record_open ho]
        · rw [BreakerInner.record_closed hc, ht, hc]
          rfl
  | reset => exact Iff.rfl
  | forceOpen now => exact Iff.rfl

theorem half_open_discipline (cfg : CircuitBreakerConfig) (now : ℤ) (state : CircuitState)
    (calls : List BreakerCall) (h : Along cfg Reports (new now state) calls) :
    Along cfg (Disciplined cfg) (new now state) calls ↔
      Along cfg (LateHarmless cfg) (new now state) calls := by
  have hdated : ∀ done, ∀ a ∈ ((new now state).after cfg done).outstanding,
      ((new now state).after cfg done).Dated a :=
    dated_after fun a ha => absurd ha List.not_mem_nil
  constructor
  · intro hall done call rest hcalls
    exact (disciplined_iff (hdated done) (h done call rest hcalls)).mp (hall done call rest hcalls)
  · intro hall done call rest hcalls
    exact (disciplined_iff (hdated done) (h done call rest hcalls)).mpr (hall done call rest hcalls)

/-- One failure in two opens, for half a minute. -/
def touchy : CircuitBreakerConfig where
  windowDurationSecs := 60
  minSamples := 1
  errorRateReached failures total := total ≤ 2 * failures
  openDurationSecs := 30
  halfOpenMaxProbes := 1

/-- Two attempts start together. One fails and opens the breaker, a probe goes out after the
cool-down, and the other reports while the probe is under way. -/
def lateOutcome (outcome : Outcome) : List BreakerCall :=
  [.check 0, .check 0, .record 1000 ⟨0, 0⟩ .failure, .check 40000,
    .record 41000 ⟨0, 0⟩ outcome]

def probeOutcome (outcome : Outcome) : List BreakerCall :=
  [.check 0, .check 0, .record 1000 ⟨0, 0⟩ .failure, .check 40000, .record 41000 ⟨1, 1⟩ outcome]

theorem lateOutcome_reports (outcome : Outcome) :
    Along touchy Reports (new 0 .closed) (lateOutcome outcome) := by
  unfold lateOutcome
  simp only [along_cons]
  exact ⟨trivial, trivial, (by decide : (⟨0, 0⟩ : Attempt) ∈ _), trivial,
    (by decide : (⟨0, 0⟩ : Attempt) ∈ _), along_nil⟩

theorem probeOutcome_reports (outcome : Outcome) :
    Along touchy Reports (new 0 .closed) (probeOutcome outcome) := by
  unfold probeOutcome
  simp only [along_cons]
  exact ⟨trivial, trivial, (by decide : (⟨0, 0⟩ : Attempt) ∈ _), trivial,
    (by decide : (⟨1, 1⟩ : Attempt) ∈ _), along_nil⟩

theorem probe_outcome_disciplined :
    Along touchy (Disciplined touchy) (new 0 .closed) (probeOutcome .failure) ↔
      Along touchy (LateHarmless touchy) (new 0 .closed) (probeOutcome .failure) :=
  half_open_discipline touchy 0 .closed (probeOutcome .failure) (probeOutcome_reports .failure)

theorem late_outcome_reopens :
    ¬ ∀ (cfg : CircuitBreakerConfig) (now : ℤ) (state : CircuitState) (calls : List BreakerCall),
      Along cfg Reports (new now state) calls →
        Along cfg (Disciplined cfg) (new now state) calls := by
  intro h
  have hd := h touchy 0 .closed _ (lateOutcome_reports .failure)
  unfold lateOutcome at hd
  simp only [along_cons] at hd
  obtain ⟨-, -, -, -, ⟨-, hstill⟩, -⟩ := hd
  exact absurd (hstill (by decide)) (by decide)

end Tracked

end FleetOrchestrator.Scheduler
