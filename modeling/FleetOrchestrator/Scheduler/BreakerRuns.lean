import FleetOrchestrator.Scheduler.HalfOpen
import FleetOrchestrator.Tables.Window
import Mathlib.Algebra.Order.Field.Rat

/-! A breaker over its whole life: what its state holds is what the calls so far say. -/

namespace FleetOrchestrator.Scheduler

open Core Tables

inductive BreakerOp where
  | check
  | record (outcome : Outcome)
  | reset
  | forceOpen
  deriving DecidableEq

namespace BreakerInner

/-- Whether the call admits something, and the breaker after it. -/
def call (cfg : CircuitBreakerConfig) (now : ℤ) (b : BreakerInner) : BreakerOp → Bool × BreakerInner
  | .check => ((b.check cfg now).1.isOk, (b.check cfg now).2)
  | .record outcome => (false, b.record cfg now outcome)
  | .reset => (false, b.reset)
  | .forceOpen => (false, b.forceOpen now)

end BreakerInner

structure Called where
  op : BreakerOp
  at_ : ℤ
  before : BreakerState
  after : BreakerState
  admitted : Bool

def lastCall (t₀ : ℤ) : List Called → ℤ
  | [] => t₀
  | c :: _ => c.at_

/-- The calls of a breaker created at `t₀`, newest first, and what has become of it. -/
inductive Lived (cfg : CircuitBreakerConfig) (t₀ : ℤ) (created : CircuitState) :
    List Called → BreakerInner → Prop
  | created : Lived cfg t₀ created [] (.newWithState t₀ created)
  | call {log : List Called} {b : BreakerInner} (h : Lived cfg t₀ created log b) (op : BreakerOp)
      (now : ℤ) (hnow : lastCall t₀ log ≤ now) :
      Lived cfg t₀ created
        (⟨op, now, b.state, (b.call cfg now op).2.state, (b.call cfg now op).1⟩ :: log)
        (b.call cfg now op).2

section Logs

variable (t₀ : ℤ) (created : CircuitState)

def Called.opens (c : Called) : Bool :=
  c.op = .forceOpen || c.before ≠ .open && c.after = .open

/-- When the breaker opened, if it ever did. -/
def openedAt : List Called → Option ℤ
  | [] => if created = .open then some t₀ else none
  | c :: log => if c.opens then some c.at_ else openedAt log

def Called.isProbe (c : Called) : Bool := c.op = .check && c.before ≠ .closed && c.admitted

/-- When the probes were issued, newest first. -/
def issued (log : List Called) : List ℤ := (log.filter Called.isProbe).map Called.at_

/-- Those issued since the breaker became half-open. -/
def current : List Called → List ℤ
  | [] => []
  | c :: log =>
    (if c.isProbe then [c.at_] else []) ++ if c.before = .halfOpen then current log else []

/-- The samples recorded since the last closing, oldest first. -/
def recorded : List Called → List (Bool × ℤ)
  | [] => []
  | c :: log =>
    match c.op with
    | .check => recorded log
    | .record outcome =>
      if c.before = .closed then recorded log ++ [(decide (outcome = .failure), c.at_)] else []
    | .reset | .forceOpen => []

end Logs

section Probes

variable (cfg : CircuitBreakerConfig)

/-- How long a probe is waited for. -/
def patience : ℤ := secs (max cfg.openDurationSecs 1)

def fresh (now issuedAt : ℤ) : Bool := now - issuedAt < patience cfg

def slots : ℕ := max cfg.halfOpenMaxProbes 1

end Probes

/-- What the state of the breaker says of the calls so far. -/
structure Faithful (cfg : CircuitBreakerConfig) (t₀ : ℤ) (created : CircuitState)
    (log : List Called) (b : BreakerInner) : Prop where
  past : ∀ t ∈ issued log, t ≤ lastCall t₀ log
  opened : b.state = .open → b.openedAt = openedAt t₀ created log ∧
    ∃ t, openedAt t₀ created log = some t ∧ t ≤ lastCall t₀ log ∧ ∀ i ∈ issued log, i ≤ t
  slots : b.state = .halfOpen → b.halfOpenProbes.length ≤ slots cfg
  probes : b.state = .halfOpen → ∀ now, lastCall t₀ log ≤ now →
    (current log).countP (fresh cfg now) = b.halfOpenProbes.countP (fresh cfg now)
  older : b.state = .halfOpen → 1 ≤ cfg.openDurationSecs → ∃ old, issued log = current log ++ old ∧
    ∀ t ∈ old, patience cfg ≤ lastCall t₀ log - t
  order : Chronological (recorded log) ∧ ∀ s ∈ recorded log, s.2 ≤ lastCall t₀ log
  samples : b.state = .closed → b.samples = window (secs cfg.windowDurationSecs) (recorded log)

section Steps

variable {cfg : CircuitBreakerConfig} {t₀ now : ℤ} {created : CircuitState} {log : List Called}
  {b : BreakerInner} {op : BreakerOp} {outcome : Outcome}

theorem faithful_created : Faithful cfg t₀ created [] (.newWithState t₀ created) := by
  refine ⟨by simp [issued], fun h => ?_, by simp [BreakerInner.newWithState], fun _ _ _ => rfl,
    fun _ _ => ⟨[], rfl, by simp⟩, ⟨List.Pairwise.nil, by simp [recorded]⟩, fun _ => rfl⟩
  have hc : created = .open := by
    cases created <;> first | rfl | cases h
  subst hc
  exact ⟨rfl, t₀, rfl, le_refl _, by simp [issued]⟩

/-- What a call on an open breaker does. -/
theorem check_open_cases (cfg : CircuitBreakerConfig) (now : ℤ) (h : b.state = .open) :
    (secs cfg.openDurationSecs ≤ b.elapsed now ∧ (b.check cfg now).1 = .ok () ∧
      (b.check cfg now).2 = { b with state := .halfOpen, halfOpenProbes := [now] }) ∨
    (b.elapsed now < secs cfg.openDurationSecs ∧
      b.check cfg now = (.error (secs cfg.openDurationSecs - b.elapsed now), b)) := by
  unfold BreakerInner.check
  rw [h]
  dsimp only
  by_cases hc : b.elapsed now ≥ secs cfg.openDurationSecs
  · rw [if_pos hc]
    exact .inl ⟨hc, rfl, rfl⟩
  · rw [if_neg hc]
    exact .inr ⟨by omega, rfl⟩

theorem check_halfOpen_cases (cfg : CircuitBreakerConfig) (now : ℤ) (h : b.state = .halfOpen) :
    (((b.halfOpenProbes.filter (fresh cfg now)).length < slots cfg ∧
      b.check cfg now = (.ok (), { b with
        halfOpenProbes := b.halfOpenProbes.filter (fresh cfg now) ++ [now] })) ∨
    (slots cfg ≤ (b.halfOpenProbes.filter (fresh cfg now)).length ∧
      b.check cfg now = (.error 0, { b with
        halfOpenProbes := b.halfOpenProbes.filter (fresh cfg now) }))) := by
  unfold BreakerInner.check
  rw [h]
  change (_ ∧ (if (b.halfOpenProbes.filter (fresh cfg now)).length < slots cfg then _ else _) = _) ∨
    (_ ∧ (if (b.halfOpenProbes.filter (fresh cfg now)).length < slots cfg then _ else _) = _)
  by_cases hc : (b.halfOpenProbes.filter (fresh cfg now)).length < slots cfg
  · rw [if_pos hc]
    exact .inl ⟨hc, rfl⟩
  · rw [if_neg hc]
    exact .inr ⟨by omega, rfl⟩

theorem mem_issued_cons {c : Called} {t : ℤ} (h : t ∈ issued (c :: log)) :
    t = c.at_ ∨ t ∈ issued log := by
  unfold issued at *
  by_cases hc : c.isProbe
  · rw [List.filter_cons_of_pos hc, List.map_cons, List.mem_cons] at h
    exact h
  · rw [List.filter_cons_of_neg hc] at h
    exact .inr h

theorem issued_cons_of_not {c : Called} (hc : c.isProbe = false) :
    issued (c :: log) = issued log := by
  simp [issued, hc]

namespace Faithful

theorem past_call (h : Faithful cfg t₀ created log b) {c : Called} (hc : lastCall t₀ log ≤ c.at_) :
    ∀ t ∈ issued (c :: log), t ≤ lastCall t₀ (c :: log) := by
  intro t ht
  change t ≤ c.at_
  rcases mem_issued_cons ht with rfl | ht
  · exact le_refl _
  · have := h.past t ht
    omega

theorem order_call (h : Faithful cfg t₀ created log b) {c : Called} (hc : lastCall t₀ log ≤ c.at_) :
    Chronological (recorded (c :: log)) ∧
      ∀ s ∈ recorded (c :: log), s.2 ≤ lastCall t₀ (c :: log) := by
  have hpast : ∀ s ∈ recorded log, s.2 ≤ c.at_ := fun s hs => by
    have := h.order.2 s hs
    omega
  change _ ∧ ∀ s ∈ recorded (c :: log), s.2 ≤ c.at_
  unfold recorded
  split
  · exact ⟨h.order.1, hpast⟩
  · split
    · refine ⟨chronological_push h.order.1 hpast, fun s hs => ?_⟩
      rcases List.mem_append.mp hs with hs | hs
      · exact hpast s hs
      · rw [List.mem_singleton.mp hs]
    · exact ⟨List.Pairwise.nil, by simp⟩
  · exact ⟨List.Pairwise.nil, by simp⟩
  · exact ⟨List.Pairwise.nil, by simp⟩

/-- A call that leaves the breaker as it was, closed or open. -/
theorem untouched (h : Faithful cfg t₀ created log b) {c : Called} (hc : lastCall t₀ log ≤ c.at_)
    (hopens : c.opens = false) (hprobe : c.isProbe = false) (hstate : b.state ≠ .halfOpen)
    (hrec : b.state = .closed → recorded (c :: log) = recorded log) :
    Faithful cfg t₀ created (c :: log) b := by
  refine ⟨h.past_call hc, fun ho => ?_, fun hh => absurd hh hstate, fun hh => absurd hh hstate,
    fun hh => absurd hh hstate, h.order_call hc, fun hcl => ?_⟩
  · obtain ⟨hb, t, ht, hle, hissued⟩ := h.opened ho
    have hsame : openedAt t₀ created (c :: log) = openedAt t₀ created log := by
      simp [openedAt, hopens]
    rw [hsame, issued_cons_of_not hprobe]
    exact ⟨hb, t, ht, Int.le_trans hle hc, hissued⟩
  · rw [hrec hcl]
    exact h.samples hcl

/-- A call that opens it. -/
theorem opening (h : Faithful cfg t₀ created log b) {c : Called} (hc : lastCall t₀ log ≤ c.at_)
    {b' : BreakerInner} (hopens : c.opens = true) (hstate : b'.state = .open)
    (hat : b'.openedAt = some c.at_) : Faithful cfg t₀ created (c :: log) b' := by
  have hopened : openedAt t₀ created (c :: log) = some c.at_ := by simp [openedAt, hopens]
  refine ⟨h.past_call hc, fun _ => ?_, fun hh => ?_, fun hh => ?_, fun hh => ?_, h.order_call hc,
    fun hh => ?_⟩
  · rw [hopened]
    exact ⟨hat, c.at_, rfl, le_refl _, h.past_call hc⟩
  all_goals
    rw [hstate] at hh
    cases hh

/-- A call that leaves it closed. -/
theorem closing (h : Faithful cfg t₀ created log b) {c : Called} (hc : lastCall t₀ log ≤ c.at_)
    {b' : BreakerInner} (hstate : b'.state = .closed)
    (hsamples : b'.samples = window (secs cfg.windowDurationSecs) (recorded (c :: log))) :
    Faithful cfg t₀ created (c :: log) b' := by
  refine ⟨h.past_call hc, fun hh => ?_, fun hh => ?_, fun hh => ?_, fun hh => ?_, h.order_call hc,
    fun _ => hsamples⟩
  all_goals
    rw [hstate] at hh
    cases hh

/-- The check after the cool-down, which is the first probe. -/
theorem halfOpened (h : Faithful cfg t₀ created log b) (hnow : lastCall t₀ log ≤ now)
    (hstate : b.state = .open) (hcool : secs cfg.openDurationSecs ≤ b.elapsed now) :
    Faithful cfg t₀ created (⟨.check, now, .open, .halfOpen, true⟩ :: log)
      { b with state := .halfOpen, halfOpenProbes := [now] } := by
  obtain ⟨hb, t, ht, hle, hissued⟩ := h.opened hstate
  have helapsed : b.elapsed now = now - t := by simp [BreakerInner.elapsed, hb, ht]
  refine ⟨h.past_call hnow, nofun, fun _ => ?_, fun _ _ _ => rfl, fun _ hod => ?_,
    h.order_call hnow, nofun⟩
  · exact Nat.le_max_right _ _
  · refine ⟨issued log, rfl, fun i hi => ?_⟩
    have hi := hissued i hi
    have hmax : max cfg.openDurationSecs 1 = cfg.openDurationSecs := Nat.max_eq_left hod
    change patience cfg ≤ now - i
    rw [patience, hmax]
    omega

theorem fresh_of_fresh {now' i : ℤ} (hnow : now ≤ now') (h : fresh cfg now' i = true) :
    fresh cfg now i = true := by
  simp only [fresh, decide_eq_true_eq] at *
  omega

/-- A check in the half-open breaker. -/
theorem probed (h : Faithful cfg t₀ created log b) (hnow : lastCall t₀ log ≤ now)
    (hstate : b.state = .halfOpen) (admitted : Bool) {b' : BreakerInner}
    (hstate' : b'.state = .halfOpen)
    (hprobes : b'.halfOpenProbes =
      b.halfOpenProbes.filter (fresh cfg now) ++ if admitted then [now] else [])
    (hlen : b'.halfOpenProbes.length ≤ Scheduler.slots cfg) :
    Faithful cfg t₀ created (⟨.check, now, .halfOpen, .halfOpen, admitted⟩ :: log) b' := by
  have hissued : issued (⟨.check, now, .halfOpen, .halfOpen, admitted⟩ :: log) =
      (if admitted then [now] else []) ++ issued log := by
    cases admitted <;> rfl
  have hcurrent : current (⟨.check, now, .halfOpen, .halfOpen, admitted⟩ :: log) =
      (if admitted then [now] else []) ++ current log := by
    cases admitted <;> rfl
  refine ⟨h.past_call hnow, fun hh => ?_, fun _ => hlen, fun _ now' hnow' => ?_,
    fun _ hod => ?_, h.order_call hnow, fun hh => ?_⟩
  · rw [hstate'] at hh
    cases hh
  · -- what is fresh later is fresh now, so that the stale ones are missed by nobody
    have hnow' : now ≤ now' := hnow'
    have hkept : ∀ i, (fresh cfg now' i && fresh cfg now i) = fresh cfg now' i := fun i => by
      cases hi : fresh cfg now' i
      · rfl
      · exact fresh_of_fresh hnow' hi
    rw [hcurrent, hprobes, List.countP_append, List.countP_append, List.countP_filter,
      h.probes hstate now' (Int.le_trans hnow hnow')]
    simp only [hkept]
    exact Nat.add_comm _ _
  · obtain ⟨old, hold, hstale⟩ := h.older hstate hod
    refine ⟨old, ?_, fun i hi => ?_⟩
    · rw [hissued, hcurrent, hold, List.append_assoc]
    · have := hstale i hi
      change patience cfg ≤ now - i
      omega
  · rw [hstate'] at hh
    cases hh

theorem check_call (h : Faithful cfg t₀ created log b) (hnow : lastCall t₀ log ≤ now) :
    Faithful cfg t₀ created
      (⟨.check, now, b.state, (b.check cfg now).2.state, (b.check cfg now).1.isOk⟩ :: log)
      (b.check cfg now).2 := by
  cases hstate : b.state with
  | closed =>
    have hcheck : b.check cfg now = (.ok (), b) := by simp only [BreakerInner.check, hstate]
    rw [hcheck]
    exact h.closing hnow hstate (h.samples hstate)
  | «open» =>
    rcases check_open_cases cfg now hstate with
      ⟨hcool, hok, hb⟩ | ⟨-, hcheck⟩
    · rw [hok, hb]
      exact h.halfOpened hnow hstate hcool
    · rw [hcheck]
      refine h.untouched hnow ?_ rfl ?_ fun hcl => ?_
      · simp [Called.opens]
      · simp [hstate]
      · rfl
  | halfOpen =>
    have hlen := h.slots hstate
    rcases check_halfOpen_cases cfg now hstate with
      ⟨hroom, hcheck⟩ | ⟨-, hcheck⟩
    · rw [hcheck]
      dsimp only
      rw [hstate]
      refine h.probed hnow hstate true rfl rfl ?_
      rw [List.length_append, List.length_singleton]
      exact hroom
    · rw [hcheck]
      dsimp only
      rw [hstate]
      refine h.probed hnow hstate false rfl (List.append_nil _).symm ?_
      exact Nat.le_trans (List.length_filter_le _ _) hlen

/-- The samples as a record in the closed breaker leaves them. -/
theorem samples_recorded (h : Faithful cfg t₀ created log b) (hnow : lastCall t₀ log ≤ now)
    (hstate : b.state = .closed) (failed : Bool) :
    (b.recordClosed cfg now failed).samples =
      window (secs cfg.windowDurationSecs) (recorded log ++ [(failed, now)]) := by
  have hpast : ∀ s ∈ recorded log, s.2 ≤ now := fun s hs => Int.le_trans (h.order.2 s hs) hnow
  rw [← window_push h.order.1 hpast, ← h.samples hstate]
  unfold BreakerInner.recordClosed
  dsimp only
  split <;> rfl

theorem record_call (h : Faithful cfg t₀ created log b) (hnow : lastCall t₀ log ≤ now)
    (outcome : Outcome) :
    Faithful cfg t₀ created
      (⟨.record outcome, now, b.state, (b.record cfg now outcome).state, false⟩ :: log)
      (b.record cfg now outcome) := by
  cases hstate : b.state with
  | closed =>
    have hrecord : b.record cfg now outcome = b.recordClosed cfg now (outcome = .failure) := by
      simp only [BreakerInner.record, hstate]
    have hsamples := h.samples_recorded hnow hstate (outcome = .failure)
    rw [hrecord]
    -- only the samples decide whether it trips
    have htrip : ((b.recordClosed cfg now (outcome = .failure)).state = .open ∧
        (b.recordClosed cfg now (outcome = .failure)).openedAt = some now) ∨
        (b.recordClosed cfg now (outcome = .failure)).state = .closed := by
      unfold BreakerInner.recordClosed
      dsimp only
      split
      · exact .inl ⟨rfl, rfl⟩
      · exact .inr hstate
    rcases htrip with ⟨hopen, hat⟩ | hclosed
    · refine h.opening hnow ?_ hopen hat
      simp [Called.opens, hopen]
    · exact h.closing hnow hclosed hsamples
  | «open» =>
    rw [BreakerInner.record_open hstate]
    refine h.untouched hnow ?_ rfl ?_ fun hcl => ?_
    · simp [Called.opens]
    · simp [hstate]
    · rw [hstate] at hcl
      cases hcl
  | halfOpen =>
    cases outcome with
    | success =>
      have hrecord : b.record cfg now .success = { state := .closed } := by
        simp only [BreakerInner.record, hstate]
      rw [hrecord]
      exact h.closing hnow rfl rfl
    | failure =>
      have hrecord : b.record cfg now .failure =
          { b with state := .open, openedAt := some now, halfOpenProbes := [] } := by
        simp only [BreakerInner.record, hstate]
      rw [hrecord]
      exact h.opening hnow rfl rfl rfl

theorem call (h : Faithful cfg t₀ created log b) (hnow : lastCall t₀ log ≤ now)
    (op : BreakerOp) :
    Faithful cfg t₀ created
      (⟨op, now, b.state, (b.call cfg now op).2.state, (b.call cfg now op).1⟩ :: log)
      (b.call cfg now op).2 := by
  cases op with
  | check => exact h.check_call hnow
  | record outcome => exact h.record_call hnow outcome
  | reset => exact h.closing hnow rfl rfl
  | forceOpen => exact h.opening hnow rfl rfl rfl

end Faithful

/-- What the breaker holds is what its calls say, however it came about. -/
theorem lived_faithful (h : Lived cfg t₀ created log b) : Faithful cfg t₀ created log b := by
  induction h with
  | created => exact faithful_created
  | call _ op now hnow ih => exact ih.call hnow op

/-- No refusal carries a negative wait. -/
theorem check_remaining {left : ℤ} (hcheck : (b.check cfg now).1 = .error left) : 0 ≤ left := by
  cases hstate : b.state with
  | closed =>
    have hok : (b.check cfg now).1 = .ok () := by simp only [BreakerInner.check, hstate]
    rw [hok] at hcheck
    cases hcheck
  | «open» =>
    rcases check_open_cases cfg now hstate with ⟨-, hok, -⟩ | ⟨hwait, hb⟩
    · rw [hok] at hcheck
      cases hcheck
    · rw [hb] at hcheck
      cases hcheck
      omega
  | halfOpen =>
    rcases check_halfOpen_cases cfg now hstate with ⟨-, hb⟩ | ⟨-, hb⟩
    · rw [hb] at hcheck
      cases hcheck
    · rw [hb] at hcheck
      cases hcheck
      exact le_refl _

end Steps

/-- The samples that a record at `now` would leave. -/
def kept (cfg : CircuitBreakerConfig) (log : List Called) (now : ℤ) (outcome : Outcome) :
    List (Bool × ℤ) :=
  window (secs cfg.windowDurationSecs) (recorded log ++ [(decide (outcome = .failure), now)])

/-- Enough samples, and a large enough share of failures among them. -/
def Trips (cfg : CircuitBreakerConfig) (threshold : ℚ) (samples : List (Bool × ℤ)) : Prop :=
  cfg.minSamples ≤ samples.length ∧
    threshold ≤ (samples.countP fun s => s.1 : ℕ) / (samples.length : ℚ)

/-- What the calls so far ask of the breaker at `now`. -/
structure Meets (cfg : CircuitBreakerConfig) (threshold : ℚ) (t₀ : ℤ) (created : CircuitState)
    (log : List Called) (b : BreakerInner) (now : ℤ) : Prop where
  cools : b.state = .open → (b.check cfg now).1.isOk →
    ∃ t, openedAt t₀ created log = some t ∧ secs cfg.openDurationSecs ≤ now - t
  probes : b.state = .halfOpen → (current log).countP (fresh cfg now) ≤ slots cfg
  issued : b.state = .halfOpen → 1 ≤ cfg.openDurationSecs →
    (issued log).countP (fresh cfg now) ≤ slots cfg
  samples : b.state = .closed → Chronological b.samples ∧
    b.samples = window (secs cfg.windowDurationSecs) (recorded log)
  trips : b.state = .closed → ∀ outcome, (kept cfg log now outcome).length < 2 ^ 32 →
    ((b.record cfg now outcome).state = .open ↔ Trips cfg threshold (kept cfg log now outcome))
  others : b.state = .closed → (b.check cfg now).2.state = .closed ∧ b.reset.state = .closed
  remaining : ∀ left, (b.check cfg now).1 = .error left → 0 ≤ left

section Runs

variable {cfg : CircuitBreakerConfig} {threshold : ℚ} {t₀ now : ℤ} {created : CircuitState}
  {log : List Called} {b : BreakerInner} {outcome : Outcome}

theorem kept_pos : 0 < (kept cfg log now outcome).length := by
  have hmem : (decide (outcome = .failure), now) ∈ kept cfg log now outcome := by
    rw [kept, window_push_eq, List.mem_filter]
    simp
  exact List.length_pos_of_mem hmem

theorem Faithful.trips (h : Faithful cfg t₀ created log b) (hnow : lastCall t₀ log ≤ now)
    (hrate : ∀ failures total : ℕ, 0 < total →
      (cfg.errorRateReached failures total = true ↔ threshold ≤ failures / (total : ℚ)))
    (hstate : b.state = .closed) (hlen : (kept cfg log now outcome).length < 2 ^ 32) :
    (b.record cfg now outcome).state = .open ↔ Trips cfg threshold (kept cfg log now outcome) := by
  have hrecord : b.record cfg now outcome = b.recordClosed cfg now (outcome = .failure) := by
    simp only [BreakerInner.record, hstate]
  have hpast : ∀ s ∈ recorded log, s.2 ≤ now := fun s hs => Int.le_trans (h.order.2 s hs) hnow
  have hsamples : (b.samples ++ [(decide (outcome = .failure), now)]).dropWhile
      (fun s => now - s.2 > secs cfg.windowDurationSecs) = kept cfg log now outcome := by
    rw [h.samples hstate, kept, ← window_push h.order.1 hpast]
  have htotal : BreakerInner.asU32 (kept cfg log now outcome).length =
      (kept cfg log now outcome).length := Nat.mod_eq_of_lt hlen
  rw [hrecord, BreakerInner.recordClosed, hsamples, htotal, Trips, ← hrate _ _ kept_pos]
  split
  · rename_i hc
    simpa using hc
  · rename_i hc
    simpa [hstate] using hc

theorem Faithful.countP_issued (h : Faithful cfg t₀ created log b) (hnow : lastCall t₀ log ≤ now)
    (hstate : b.state = .halfOpen) (hod : 1 ≤ cfg.openDurationSecs) :
    (Scheduler.issued log).countP (fresh cfg now) = (current log).countP (fresh cfg now) := by
  obtain ⟨old, hold, hstale⟩ := h.older hstate hod
  have hnone : old.countP (fresh cfg now) = 0 := by
    rw [List.countP_eq_zero]
    intro i hi
    have := hstale i hi
    simp only [fresh, decide_eq_true_eq]
    omega
  rw [hold, List.countP_append, hnone, Nat.add_zero]

/-- A breaker keeps to its configuration, whatever calls came before. -/
theorem breaker_meets (h : Lived cfg t₀ created log b) (hnow : lastCall t₀ log ≤ now)
    (hrate : ∀ failures total : ℕ, 0 < total →
      (cfg.errorRateReached failures total = true ↔ threshold ≤ failures / (total : ℚ))) :
    Meets cfg threshold t₀ created log b now := by
  have hb := lived_faithful h
  have hcurrent : b.state = .halfOpen → (current log).countP (fresh cfg now) ≤ slots cfg :=
    fun hstate => by
      rw [hb.probes hstate now hnow]
      exact Nat.le_trans List.countP_le_length (hb.slots hstate)
  constructor
  · intro hstate hok
    obtain ⟨hat, t, ht, -, -⟩ := hb.opened hstate
    have helapsed : b.elapsed now = now - t := by simp [BreakerInner.elapsed, hat, ht]
    rcases check_open_cases cfg now hstate with ⟨hcool, -, -⟩ | ⟨-, hcheck⟩
    · exact ⟨t, ht, by omega⟩
    · rw [hcheck] at hok
      cases hok
  · exact hcurrent
  · intro hstate hod
    rw [hb.countP_issued hnow hstate hod]
    exact hcurrent hstate
  · intro hstate
    have hsamples := hb.samples hstate
    refine ⟨?_, hsamples⟩
    rw [hsamples]
    exact hb.order.1.sublist window_sublist
  · intro hstate outcome hlen
    exact hb.trips hnow hrate hstate hlen
  · intro hstate
    refine ⟨?_, rfl⟩
    have hcheck : b.check cfg now = (.ok (), b) := by simp only [BreakerInner.check, hstate]
    rw [hcheck]
    exact hstate
  · intro left hcheck
    exact check_remaining hcheck

end Runs

namespace Tripping

/-- Two samples suffice, and half of them may not fail. -/
def config (openDurationSecs : ℕ) : CircuitBreakerConfig :=
  { windowDurationSecs := 60, minSamples := 2
    errorRateReached := fun failures total => total ≤ 2 * failures
    openDurationSecs, halfOpenMaxProbes := 1 }

theorem config_rate {od failures total : ℕ} (h : 0 < total) :
    (config od).errorRateReached failures total = true ↔ (1 / 2 : ℚ) ≤ failures / (total : ℚ) := by
  have hpos : (0 : ℚ) < total := by exact_mod_cast h
  rw [le_div_iff₀ hpos, div_mul_eq_mul_div, div_le_iff₀ zero_lt_two, one_mul]
  change decide (total ≤ 2 * failures) = true ↔ _
  rw [decide_eq_true_iff, mul_comm _ (2 : ℚ)]
  exact_mod_cast Iff.rfl

theorem tripped_meets : ∃ log b, b.state = .open ∧
    Meets (config 30) (1 / 2) 0 .closed log b 31000 := by
  have hlived := ((@Lived.created (config 30) 0 .closed).call (.record .success) 0
    (le_refl _)).call (.record .failure) 1000 (by decide)
  exact ⟨_, _, by decide, breaker_meets hlived (by decide) fun _ _ => config_rate⟩

/-- Opened and half-opened again within the second, it forgets the probe that is out. -/
theorem reopened_admits_more : ¬ ∀ (cfg : CircuitBreakerConfig) (t₀ : ℤ) (created : CircuitState)
    (log : List Called) (b : BreakerInner) (now : ℤ), Lived cfg t₀ created log b →
    lastCall t₀ log ≤ now → (∀ c ∈ log, ∀ outcome, c.op ≠ .record outcome) →
    b.state = .halfOpen → (issued log).countP (fresh cfg now) ≤ slots cfg := by
  intro h
  have hlived := (((@Lived.created (config 0) 0 .halfOpen).call .check 0 (le_refl _)).call
    .forceOpen 0 (by decide)).call .check 0 (by decide)
  have hmany := h _ _ _ _ _ 0 hlived (by decide) (by simp) (by decide)
  revert hmany
  decide

end Tripping

end FleetOrchestrator.Scheduler
