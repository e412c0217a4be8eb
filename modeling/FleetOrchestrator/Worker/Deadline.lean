import FleetOrchestrator.Worker.Supervision
import FleetOrchestrator.Worker.Watchdog

/-! The heartbeat loop with the watchdog beside it: which deadlines a turning loop keeps. -/

namespace FleetOrchestrator.Worker

open Core

/-- The timeouts of one turn. -/
def healthTimeout : Nanos := Nanos.fromSecs 1

def httpTimeout : Nanos := Nanos.fromSecs 10

/-- All children that are stopped in one pass are waited for at once. -/
def terminateGrace : Nanos := Nanos.fromSecs 5

structure Turn.Within (config : LoopConfig) (x : Turn) : Prop where
  health : x.health ≤ healthTimeout
  request : x.request ≤ httpTimeout
  work : x.work ≤ terminateGrace
  pause : x.pause ≤ config.interval

/-- As long as one turn may take. -/
def turnLimit (config : LoopConfig) : Nanos :=
  healthTimeout + httpTimeout + terminateGrace + config.interval

/-- The loop between two beats, and the thread that watches it. -/
structure Guarded (m : AgentProcessManager) where
  sup : Supervisor m
  beats : ℕ
  disarmed : Bool
  /-- The last look of the thread, or its start. -/
  polled : Nanos
  watch : Option Watch
  now : Nanos

/-- What comes next. The turn's beat is at its start. -/
inductive Moment where
  | turn (x : Turn)
  | spawn (time : Nanos)
  | look (slept delay : Nanos)
  | disarm

namespace Guarded

variable {m : AgentProcessManager}

def enter (config : LoopConfig) (workerId : String) (now : Nanos) (procs : Processes m.portRange)
    (orphans : List AgentOrphan) (sweep : Nanos) : Guarded m where
  sup := .enter config workerId now procs orphans sweep
  beats := 0
  disarmed := false
  polled := now
  watch := none
  now

/-- One step in the order of time: the clock of the loop is when it beats next. -/
def step (stallAfter : Nanos) (s : Guarded m) : Moment → Option (Guarded m)
  | .turn x =>
    if s.now ≤ s.sup.clock then
      some { s with sup := (s.sup.turn x).1, beats := s.beats + 1, now := s.sup.clock }
    else none
  | .spawn time =>
    if s.watch = none ∧ s.now ≤ time ∧ time ≤ s.sup.clock then
      some { s with polled := time, watch := some (.watching s.beats 0), now := time }
    else none
  | .look slept delay =>
    match s.watch with
    | none => none
    | some w =>
      let time := s.polled + slept + delay
      if s.now ≤ time ∧ time ≤ s.sup.clock then
        some { s with
          polled := time
          watch := some (w.look (pollInterval stallAfter) stallAfter ⟨slept, s.disarmed, s.beats⟩)
          now := time }
      else none
  | .disarm => some { s with disarmed := true }

end Guarded

/-- No part of a turn takes longer than its own limit, and no sleep is shorter than asked. -/
def Moment.Fair (config : LoopConfig) (stallAfter : Nanos) : Moment → Prop
  | .turn x => x.Within config
  | .look slept _ => pollInterval stallAfter ≤ slept
  | .spawn _ | .disarm => True

/-- What the worker can come to. -/
inductive Runs {m : AgentProcessManager} (config : LoopConfig) (stallAfter : Nanos)
    (s₀ : Guarded m) : Guarded m → Prop
  | enter : Runs config stallAfter s₀ s₀
  | step {s s' : Guarded m} {e : Moment} (h : Runs config stallAfter s₀ s)
      (he : e.Fair config stallAfter) (hs : s.step stallAfter e = some s') :
      Runs config stallAfter s₀ s'

/-- The watchdog does not kill a worker whose loop turns. What is swept before the first beat takes
no longer than a turn. -/
def NeverStalled (config : WorkerConfig) (announced : ℕ) : Prop :=
  ∀ (m : AgentProcessManager) workerId now (procs : Processes m.portRange) orphans sweep s,
    sweep ≤ turnLimit (config.loop announced) →
    Runs (config.loop announced) (Nanos.fromSecs config.watchdogStallAfterSecs)
      (Guarded.enter (config.loop announced) workerId now procs orphans sweep) s →
    ∀ beats stalledFor, s.watch ≠ some (.stalled beats stalledFor)

section Invariant

variable {m : AgentProcessManager} {config : LoopConfig} {stallAfter : Nanos} {s s' : Guarded m}
  {x : Turn}

theorem turn_spec (h : s.sup.loop.Ready) (x : Turn) :
    (s.sup.turn x).1.loop.Ready ∧ (s.sup.turn x).1.loop.config = s.sup.loop.config ∧
      (s.sup.turn x).1.clock = s.sup.heardAt x + x.work + x.pause := by
  cases hx : x.fails with
  | true =>
    obtain ⟨hready, hconfig, -, hclock, -⟩ := Supervisor.turn_failed h hx
    exact ⟨hready, hconfig, hclock⟩
  | false =>
    obtain ⟨hready, hconfig, -, hclock⟩ := Supervisor.turn_answered h hx
    exact ⟨hready, hconfig, hclock⟩

/-- Of what the thread adds up, none is from before its baseline; without a beat since then, the
next one is due within a turn of it. -/
structure Timed (limit : Nanos) (s : Guarded m) (baseline since : ℕ) : Prop where
  beats : baseline ≤ s.beats
  origin : ∃ t, t + since ≤ s.polled ∧ s.polled ≤ s.now ∧
    (baseline = s.beats → s.sup.clock ≤ t + limit)

structure Paced (limit : Nanos) (s : Guarded m) : Prop where
  ready : s.sup.loop.Ready
  next : s.now ≤ s.sup.clock ∧ s.sup.clock ≤ s.now + limit
  timed : ∀ baseline since, s.watch = some (.watching baseline since) →
    Timed limit s baseline since
  alive : ∀ beats stalledFor, s.watch ≠ some (.stalled beats stalledFor)

theorem Turn.Within.length (hx : x.Within config) :
    x.health + x.request + x.work + x.pause ≤ turnLimit config := by
  have hhealth := hx.health
  have hrequest := hx.request
  have hwork := hx.work
  have hpause := hx.pause
  rw [turnLimit]
  grind

theorem Paced.turn (h : Paced (turnLimit config) s) (hx : x.Within config)
    (hs : s.step stallAfter (.turn x) = some s') : Paced (turnLimit config) s' := by
  obtain ⟨hready, -, hclock⟩ := turn_spec h.ready x
  have hlength := hx.length
  have hnext := h.next
  rw [Guarded.step, Option.ite_none_right_eq_some] at hs
  obtain ⟨-, hs⟩ := hs
  cases hs
  refine ⟨hready, ?_, ?_, h.alive⟩
  · dsimp only
    rw [hclock, Supervisor.heardAt]
    grind
  · intro baseline since hw
    obtain ⟨hbeats, t, ht, hpolled, -⟩ := h.timed baseline since hw
    refine ⟨Nat.le_succ_of_le hbeats, t, ht, ?_, ?_⟩
    · exact Nat.le_trans hpolled hnext.1
    · intro hsame
      exact absurd hsame (Nat.ne_of_lt (Nat.lt_succ_of_le hbeats))

theorem Paced.spawn {limit time : Nanos} (h : Paced limit s)
    (hs : s.step stallAfter (.spawn time) = some s') : Paced limit s' := by
  have hnext := h.next
  rw [Guarded.step, Option.ite_none_right_eq_some] at hs
  obtain ⟨⟨-, hnow, htime⟩, hs⟩ := hs
  cases hs
  have hclock : s.sup.clock ≤ time + limit := by grind
  refine ⟨h.ready, ⟨htime, hclock⟩, ?_, nofun⟩
  intro baseline since hw
  cases hw
  exact ⟨le_refl _, time, le_refl _, le_refl _, fun _ => hclock⟩

/-- A look within the deadline does not end the thread's life. -/
theorem Paced.look {limit slept delay : Nanos} (h : Paced limit s) (hlimit : limit < stallAfter)
    (hs : s.step stallAfter (.look slept delay) = some s') : Paced limit s' := by
  have hnext := h.next
  cases hw : s.watch with
  | none => simp [Guarded.step, hw] at hs
  | some w =>
    simp only [Guarded.step, hw, Option.ite_none_right_eq_some] at hs
    obtain ⟨⟨hnow, htime⟩, hs⟩ := hs
    cases hs
    have hclock : s.sup.clock ≤ s.polled + slept + delay + limit := by grind
    cases w with
    | disarmed => exact ⟨h.ready, ⟨htime, hclock⟩, nofun, nofun⟩
    | stalled beats stalledFor => exact absurd hw (h.alive beats stalledFor)
    | watching baseline since =>
      obtain ⟨hbeats, t, ht, hpolled, hdue⟩ := h.timed baseline since hw
      have hcases := Watch.look_cases (pollInterval stallAfter) stallAfter baseline since
        ⟨slept, s.disarmed, s.beats⟩
      have hsum : t + (since + slept) ≤ s.polled + slept + delay := by grind
      obtain hlook | hlook | hlook | ⟨hlook, hsame, hstall⟩ := hcases
      · rw [hlook]
        exact ⟨h.ready, ⟨htime, hclock⟩, nofun, nofun⟩
      · rw [hlook]
        refine ⟨h.ready, ⟨htime, hclock⟩, ?_, nofun⟩
        intro baseline' since' hw'
        cases hw'
        exact ⟨le_refl _, _, le_refl _, le_refl _, fun _ => hclock⟩
      · rw [hlook]
        refine ⟨h.ready, ⟨htime, hclock⟩, ?_, nofun⟩
        intro baseline' since' hw'
        cases hw'
        exact ⟨hbeats, t, hsum, le_refl _, hdue⟩
      · exfalso
        have hdue := hdue hsame.symm
        dsimp only at hstall
        grind

theorem Paced.disarm {limit : Nanos} (h : Paced limit s)
    (hs : s.step stallAfter .disarm = some s') : Paced limit s' := by
  cases hs
  refine ⟨h.ready, h.next, ?_, h.alive⟩
  intro baseline since hw
  obtain ⟨hbeats, hrest⟩ := h.timed baseline since hw
  exact ⟨hbeats, hrest⟩

theorem Paced.step {e : Moment} (h : Paced (turnLimit config) s) (hlimit : turnLimit config < stallAfter)
    (he : e.Fair config stallAfter) (hs : s.step stallAfter e = some s') :
    Paced (turnLimit config) s' := by
  cases e with
  | turn x => exact h.turn he hs
  | spawn time => exact h.spawn hs
  | look slept delay => exact h.look hlimit hs
  | disarm => exact h.disarm hs

theorem paced_enter {workerId : String} {now sweep : Nanos} {procs : Processes m.portRange}
    {orphans : List AgentOrphan} {limit : Nanos} (hsweep : sweep ≤ limit) :
    Paced limit (Guarded.enter config workerId now procs orphans sweep) :=
  ⟨Supervisor.enter_ready.1, ⟨Nat.le_add_right now sweep, Nat.add_le_add_left hsweep now⟩, nofun,
    nofun⟩

theorem paced_runs {s₀ : Guarded m} (h₀ : Paced (turnLimit config) s₀)
    (hlimit : turnLimit config < stallAfter) (h : Runs config stallAfter s₀ s) :
    Paced (turnLimit config) s := by
  induction h with
  | enter => exact h₀
  | step _ he hs ih => exact ih.step hlimit he hs

end Invariant

section Stalling

variable {m : AgentProcessManager} {config : LoopConfig} {stallAfter : Nanos}

theorem pollInterval_le {stallAfter : ℕ} (h : 1000000000 ≤ stallAfter) :
    0 < pollInterval stallAfter ∧ pollInterval stallAfter ≤ stallAfter := by
  rw [pollInterval]
  omega

/-- Nothing is answered in time, and every part of the turn takes as long as it may. -/
def slowest (config : LoopConfig) (machine : Machine) : Turn where
  health := healthTimeout
  agentHealthy := false
  request := httpTimeout
  reply := none
  machine
  work := terminateGrace
  pause := config.interval

theorem slowest_within (machine : Machine) : (slowest config machine).Within config :=
  ⟨le_refl _, le_refl _, le_refl _, le_refl _⟩

/-- The thread has slept so long since its start, and seen no beat. -/
def Guarded.still (s : Guarded m) (t : ℕ) : Guarded m :=
  { s with polled := t, watch := some (.watching s.beats t), now := t }

variable {s s₀ : Guarded m}

theorem look_still (ha : s.disarmed = false) (t slept stall : ℕ) (hclock : t + slept ≤ s.sup.clock)
    (hfrozen : slept ≤ pollInterval stall * freezeOverrunFactor) :
    (s.still t).step stall (.look slept 0) =
      if stall ≤ t + slept then
        some { s.still (t + slept) with watch := some (.stalled s.beats (t + slept)) }
      else some (s.still (t + slept)) := by
  have hslow : ¬pollInterval stall * freezeOverrunFactor < slept := Nat.not_lt.mpr hfrozen
  have htime : t ≤ t + slept := Nat.le_add_right t slept
  have hclock' : t + slept ≤ (s.still t).sup.clock := hclock
  by_cases hstall : stall ≤ t + slept
  · simp [Guarded.step, Guarded.still, htime, hclock, Watch.look, judge, ha, hslow, hstall]
  · simp [Guarded.step, Guarded.still, htime, hclock, Watch.look, judge, ha, hslow, hstall]

theorem runs_still {stall : ℕ} (ha : s.disarmed = false) (hclock : stall ≤ s.sup.clock)
    (h : Runs config stall s₀ (s.still 0)) (k : ℕ) (hk : k * pollInterval stall < stall) :
    Runs config stall s₀ (s.still (k * pollInterval stall)) := by
  induction k with
  | zero => simpa using h
  | succ k ih =>
    have hsucc : (k + 1) * pollInterval stall = k * pollInterval stall + pollInterval stall :=
      Nat.succ_mul k _
    have hlook := look_still ha (k * pollInterval stall) (pollInterval stall) stall
      (by rw [← hsucc]; exact hk.le.trans hclock) (by rw [freezeOverrunFactor]; omega)
    rw [← hsucc, if_neg (by omega)] at hlook
    exact (ih (by omega)).step (le_refl _) hlook

theorem stalls_of_le {stall : ℕ} (hstall : 1000000000 ≤ stall) (ha : s.disarmed = false)
    (hclock : stall ≤ s.sup.clock) (h : Runs config stall s₀ (s.still 0)) :
    ∃ s', Runs config stall s₀ s' ∧ ∃ b d, s'.watch = some (.stalled b d) := by
  obtain ⟨hpos, hle⟩ := pollInterval_le hstall
  have hdiv := Nat.div_add_mod stall (pollInterval stall)
  have hmod := Nat.mod_lt stall hpos
  have hcount := Nat.div_pos hle hpos
  have hfirst : (stall / pollInterval stall - 1) * pollInterval stall + pollInterval stall =
      pollInterval stall * (stall / pollInterval stall) := by
    rw [← Nat.succ_mul, Nat.succ_eq_add_one, Nat.sub_add_cancel hcount, Nat.mul_comm]
  have hlast : (stall / pollInterval stall - 1) * pollInterval stall +
      (pollInterval stall + stall % pollInterval stall) = stall := by omega
  have hbefore := runs_still ha hclock h (stall / pollInterval stall - 1) (by omega)
  have hlook := look_still ha ((stall / pollInterval stall - 1) * pollInterval stall)
    (pollInterval stall + stall % pollInterval stall) stall (by rw [hlast]; exact hclock)
    (by rw [freezeOverrunFactor]; omega)
  rw [hlast, if_pos (le_refl stall)] at hlook
  exact ⟨_, hbefore.step (Nat.le_add_right _ _) hlook, _, _, rfl⟩

theorem clock_slowest (hready : s.sup.loop.Ready) (hclock : s.sup.clock = 0) (machine : Machine) :
    (s.sup.turn (slowest config machine)).1.clock = turnLimit config := by
  obtain ⟨-, -, hturn⟩ := turn_spec hready (slowest config machine)
  rw [hturn, Supervisor.heardAt, hclock, Nat.zero_add, turnLimit, slowest]

/-- A turn that is slow throughout, beside a thread that starts with it. -/
theorem runs_slowest (config : LoopConfig) (stallAfter : Nanos) (machine : Machine)
    (procs : Processes m.portRange) :
    ∃ s : Guarded m, s.disarmed = false ∧ s.sup.clock = turnLimit config ∧
      Runs config stallAfter (Guarded.enter config "w" 0 procs [] 0) (s.still 0) := by
  have hready : (Guarded.enter config "w" 0 procs [] 0).sup.loop.Ready := Supervisor.enter_ready.1
  have hclock : (Guarded.enter config "w" 0 procs [] 0).sup.clock = 0 := rfl
  generalize hs₀ : Guarded.enter config "w" 0 procs [] 0 = s₀ at *
  have hnow : s₀.now = 0 := by rw [← hs₀, Guarded.enter]
  have hwatch : s₀.watch = none := by rw [← hs₀, Guarded.enter]
  have harmed : s₀.disarmed = false := by rw [← hs₀, Guarded.enter]
  have hfair : Moment.Fair config stallAfter (.turn (slowest config machine)) :=
    slowest_within machine
  obtain ⟨sup, hsup⟩ : ∃ sup, sup = (s₀.sup.turn (slowest config machine)).1 := ⟨_, rfl⟩
  have hlimit : sup.clock = turnLimit config := by
    rw [hsup]
    exact clock_slowest hready hclock machine
  have hturn : s₀.step stallAfter (.turn (slowest config machine)) =
      some { s₀ with sup, beats := s₀.beats + 1, now := 0 } := by
    rw [Guarded.step, if_pos (hnow ▸ Nat.zero_le _), hclock, ← hsup]
  obtain ⟨s₁, hs₁⟩ : ∃ s₁, s₁ = { s₀ with sup, beats := s₀.beats + 1, now := 0 } := ⟨_, rfl⟩
  have hspawn : s₁.step stallAfter (.spawn 0) = some (s₁.still 0) := by
    rw [Guarded.step, if_pos ⟨by rw [hs₁]; exact hwatch, by rw [hs₁], Nat.zero_le _⟩,
      Guarded.still]
  rw [← hs₁] at hturn
  exact ⟨s₁, by rw [hs₁]; exact harmed, by rw [hs₁]; exact hlimit,
    (Runs.enter.step hfair hturn).step (e := .spawn 0) trivial hspawn⟩

end Stalling

theorem stalls_of_limit {config : WorkerConfig} {announced : ℕ}
    (hon : config.watchdogStallAfterSecs ≠ 0)
    (hlimit : Nanos.fromSecs config.watchdogStallAfterSecs ≤ turnLimit (config.loop announced)) :
    ¬NeverStalled config announced := by
  intro h
  have hstall : 1000000000 ≤ Nanos.fromSecs config.watchdogStallAfterSecs :=
    Nat.le_mul_of_pos_left _ (Nat.pos_of_ne_zero hon)
  let m : AgentProcessManager := ⟨⟨1, 1, by decide, le_refl 1⟩, 1⟩
  let machine : Machine := ⟨fun _ => .running, fun _ _ => true, fun _ _ => none, fun _ => true⟩
  obtain ⟨s, ha, hclock, hruns⟩ := runs_slowest (m := m) (config.loop announced)
    (Nanos.fromSecs config.watchdogStallAfterSecs) machine .empty
  obtain ⟨s', hruns', b, d, hstalled⟩ := stalls_of_le hstall ha (hclock ▸ hlimit) hruns
  exact h m "w" 0 .empty [] 0 s' (Nat.zero_le _) hruns' b d hstalled

/-- The watchdog leaves a turning loop alone where its deadline is beyond the limits of a turn at
the interval that the loop runs with. -/
theorem neverStalled_iff (config : WorkerConfig) (announced : ℕ)
    (hon : config.watchdogStallAfterSecs ≠ 0) :
    NeverStalled config announced ↔
      turnLimit (config.loop announced) < Nanos.fromSecs config.watchdogStallAfterSecs := by
  constructor
  · intro h
    by_contra hlimit
    exact stalls_of_limit hon (Nat.not_lt.mp hlimit) h
  · intro hlimit m workerId now procs orphans sweep s hsweep hruns
    exact (paced_runs (paced_enter hsweep) hlimit hruns).alive

theorem neverStalled_default : NeverStalled ⟨15, 60, 120⟩ 15 :=
  (neverStalled_iff ⟨15, 60, 120⟩ 15 (by decide)).mpr (by decide)

/-- A deadline that the validation accepts, and that one slow turn passes. -/
theorem validate_stalls : WorkerConfig.validate ⟨15, 60, 16⟩ = .ok () ∧
    ¬NeverStalled ⟨15, 60, 16⟩ 15 :=
  ⟨rfl, stalls_of_limit (by decide) (by decide)⟩

end FleetOrchestrator.Worker
