import FleetOrchestrator.Worker.Supervision

/-! When a worker that cannot reach its orchestrator stops its agents. -/

namespace FleetOrchestrator.Worker

open Core

/-- A beat of a run: what its turn met, when its outcome was known, what was done then, and the
agents in the table before and after. -/
structure Beat where
  turn : Turn
  heardAt : Nanos
  calls : List MachineCall
  before : List AgentId
  left : List AgentId

namespace Supervisor

variable {m : AgentProcessManager}

/-- The loop after the turns, which stand newest first. -/
def after (s : Supervisor m) : List Turn → Supervisor m
  | [] => s
  | x :: past => ((s.after past).turn x).1

def beats (s : Supervisor m) : List Turn → List Beat
  | [] => []
  | x :: past =>
    { turn := x
      heardAt := (s.after past).heardAt x
      calls := ((s.after past).turn x).2
      before := (s.after past).procs.agents
      left := (s.after (x :: past)).procs.agents } :: s.beats past

end Supervisor

def Beat.Fences (b : Beat) : Prop :=
  ∃ doomed, .terminateAll doomed ∈ b.calls ∧ doomed.map Prod.fst = b.before

/-- When the orchestrator last answered, or the loop was entered. -/
def lastSuccess (entered : Nanos) : List Beat → Nanos
  | [] => entered
  | b :: past => if b.turn.fails then lastSuccess entered past else b.heardAt

/-- Whether the last of the beats failed. -/
def failing (past : List Beat) : Bool := past.head?.any fun b => b.turn.fails

/-- How long the loop took from the outcome of the last beat, or its entry, to that of this one. -/
def sinceLast (sweep : Nanos) (b : Beat) (past : List Beat) : Nanos :=
  (match past.head? with
    | none => sweep
    | some last => last.turn.work + last.turn.pause) + b.turn.health + b.turn.request

/-- What is asked of a failed beat after those before it. -/
structure Fenced (config : LoopConfig) (entered : Nanos) (b : Beat) (past : List Beat) : Prop where
  exact : b.turn.fails →
    (b.Fences ↔ config.fenceAfter ≤ b.heardAt - lastSuccess entered past)
  retried : b.turn.fails → b.Fences → failing past
  emptied : b.turn.fails → config.fenceAfter ≤ b.heardAt - lastSuccess entered past → b.left = []

/-- The first failure after an answer is known before the limit. -/
def Timely (config : LoopConfig) (sweep : Nanos) (b : Beat) (past : List Beat) : Prop :=
  b.turn.fails → failing past = false → sinceLast sweep b past < config.fenceAfter

/-- A property of every beat, given those before it. -/
def Throughout (P : Beat → List Beat → Prop) : List Beat → Prop
  | [] => True
  | b :: past => P b past ∧ Throughout P past

namespace Supervisor

variable {m : AgentProcessManager} {config : LoopConfig} {workerId : String}
  {entered sweep : Nanos} {procs : Processes m.portRange} {orphans : List AgentOrphan}

/-- What the loop knows of its beats. -/
structure Aware (config : LoopConfig) (entered sweep : Nanos) (past : List Beat)
    (s : Supervisor m) : Prop where
  ready : s.loop.Ready
  config : s.loop.config = config
  contact : s.loop.lastContact = lastSuccess entered past
  clock : s.clock = match past.head? with
    | none => entered + sweep
    | some last => last.heardAt + last.turn.work + last.turn.pause

theorem aware (turns : List Turn) :
    Aware config entered sweep ((enter config workerId entered procs orphans sweep).beats turns)
      ((enter config workerId entered procs orphans sweep).after turns) := by
  induction turns with
  | nil => exact ⟨enter_ready.1, enter_ready.2.1, enter_ready.2.2, rfl⟩
  | cons x past ih =>
    cases hx : x.fails with
    | false =>
      obtain ⟨hready, hconfig, hcontact, hclock⟩ := turn_answered ih.ready hx
      refine ⟨hready, hconfig.trans ih.config, ?_, hclock⟩
      rw [beats, lastSuccess, hx]
      exact hcontact
    | true =>
      obtain ⟨hready, hconfig, hcontact, hclock, -⟩ := turn_failed ih.ready hx
      refine ⟨hready, hconfig.trans ih.config, ?_, hclock⟩
      rw [beats, lastSuccess, hx]
      exact hcontact.trans ih.contact

theorem not_fences_nil {b : Beat} (h : b.calls = []) : ¬ b.Fences := by
  rintro ⟨doomed, hmem, -⟩
  rw [h] at hmem
  cases hmem

/-- The time without contact at a first failure is what the loop spent since. -/
theorem elapsed_first {s : Supervisor m} {past : List Beat} (h : Aware config entered sweep past s)
    {b : Beat} (hb : b.heardAt = s.heardAt b.turn) (hfirst : failing past = false) :
    b.heardAt - lastSuccess entered past = sinceLast sweep b past := by
  have hclock := h.clock
  rw [hb, heardAt]
  cases past with
  | nil =>
    simp only [List.head?_nil] at hclock
    simp only [lastSuccess, sinceLast, List.head?_nil, hclock, Nat.add_assoc,
      Nat.add_sub_cancel_left]
  | cons last past =>
    have hlast : last.turn.fails = false := by simpa [failing] using hfirst
    simp only [List.head?_cons] at hclock
    simp only [lastSuccess, hlast, sinceLast, List.head?_cons, hclock, Bool.false_eq_true,
      if_false, Nat.add_assoc, Nat.add_sub_cancel_left]

/-- A failed beat fences exactly where contact is too long ago, and then leaves no process. -/
theorem turn_fences {s : Supervisor m} {past : List Beat} (h : Aware config entered sweep past s)
    {b : Beat} (hb : b.heardAt = s.heardAt b.turn) (hcalls : b.calls = (s.turn b.turn).2)
    (hbefore : b.before = s.procs.agents) (hleft : b.left = (s.turn b.turn).1.procs.agents)
    (hx : b.turn.fails = true) :
    (b.Fences ↔ config.fenceAfter ≤ b.heardAt - lastSuccess entered past) ∧
      (config.fenceAfter ≤ b.heardAt - lastSuccess entered past → b.left = []) := by
  obtain ⟨-, -, -, -, hlate, hearly⟩ := turn_failed h.ready hx
  rw [← hb, h.config, h.contact] at hlate hearly
  by_cases hc : config.fenceAfter ≤ b.heardAt - lastSuccess entered past
  · obtain ⟨hprocs, hdone⟩ := hlate hc
    refine ⟨⟨fun _ => hc, fun _ => ⟨s.procs.rows, ?_, hbefore.symm⟩⟩, fun _ => ?_⟩
    · rw [hcalls, hdone]
      exact List.mem_append_right _ (List.mem_singleton.mpr rfl)
    · rw [hleft, hprocs]
      rfl
  · obtain ⟨-, hdone⟩ := hearly (Nat.not_le.mp hc)
    exact ⟨⟨fun hf => absurd hf (not_fences_nil (hcalls.trans hdone)), fun h => absurd h hc⟩,
      fun h => absurd h hc⟩

theorem fenced_iff {s : Supervisor m} {past : List Beat} (h : Aware config entered sweep past s)
    {b : Beat} (hb : b.heardAt = s.heardAt b.turn) (hcalls : b.calls = (s.turn b.turn).2)
    (hbefore : b.before = s.procs.agents) (hleft : b.left = (s.turn b.turn).1.procs.agents) :
    Fenced config entered b past ↔ Timely config sweep b past := by
  constructor
  · intro hf hx hfirst
    rw [← elapsed_first h hb hfirst]
    by_contra hlate
    have hfences := (hf.exact hx).mpr (Nat.not_lt.mp hlate)
    rw [hf.retried hx hfences] at hfirst
    cases hfirst
  · intro ht
    refine ⟨fun hx => (turn_fences h hb hcalls hbefore hleft hx).1, fun hx hfences => ?_,
      fun hx => (turn_fences h hb hcalls hbefore hleft hx).2⟩
    -- an early enough first failure leaves a retry
    cases hfirst : failing past with
    | true => rfl
    | false =>
      have hlate := (turn_fences h hb hcalls hbefore hleft hx).1.mp hfences
      rw [elapsed_first h hb hfirst] at hlate
      exact absurd (ht hx hfirst) (Nat.not_lt.mpr hlate)

/-- Every run fences when it should and never at a first failure, just where each first failure
is known in time. -/
theorem fencing_iff (turns : List Turn) :
    Throughout (Fenced config entered)
        ((enter config workerId entered procs orphans sweep).beats turns) ↔
      Throughout (Timely config sweep)
        ((enter config workerId entered procs orphans sweep).beats turns) := by
  induction turns with
  | nil => exact Iff.rfl
  | cons x past ih => exact and_congr (fenced_iff (aware past) rfl rfl rfl rfl) ih

/-- A limit wide enough for the longest way to a first failure leaves the retry. -/
theorem timely_of_margin {longest : Nanos} (hsweep : sweep ≤ longest)
    (hmargin : longest + Nanos.fromSecs 11 < config.fenceAfter) {past : List Beat}
    (hpast : ∀ b ∈ past, b.turn.work + b.turn.pause ≤ longest ∧
      b.turn.health ≤ Nanos.fromSecs 1 ∧ b.turn.request ≤ Nanos.fromSecs 10) :
    Throughout (Timely config sweep) past := by
  induction past with
  | nil => trivial
  | cons b past ih =>
    refine ⟨fun _ _ => ?_, ih fun b hb => hpast b (List.mem_cons_of_mem _ hb)⟩
    obtain ⟨-, hhealth, hrequest⟩ := hpast b List.mem_cons_self
    have hwait : (match past.head? with
        | none => sweep
        | some last => last.turn.work + last.turn.pause) ≤ longest := by
      cases past with
      | nil => exact hsweep
      | cons last past => exact (hpast last (by simp)).1
    have hbeat : Nanos.fromSecs 1 + Nanos.fromSecs 10 = Nanos.fromSecs 11 := by decide
    refine Nat.lt_of_le_of_lt ?_ hmargin
    rw [← hbeat, ← Nat.add_assoc]
    exact Nat.add_le_add (Nat.add_le_add hwait hhealth) hrequest

end Supervisor

namespace Narrow

/-- One second between the interval and the limit. -/
def config : WorkerConfig := ⟨15, 16, 0⟩

def manager : AgentProcessManager := ⟨.pair, 1⟩

def machine : Machine := ⟨fun _ => .running, fun _ _ => true, fun _ _ => some 7,
  fun _ => true⟩

/-- An answer at once, and fifteen seconds later a request that fails after two. -/
def turns : List Turn :=
  [⟨0, true, Nanos.fromSecs 2, none, machine, 0, Nanos.fromSecs 15⟩,
    ⟨0, true, 0, some ⟨200, "200 OK", none, some ⟨true, "active", none⟩⟩, machine, 0,
      Nanos.fromSecs 15⟩]

theorem first_failure_fences : ¬ ∀ (config : WorkerConfig) (announced : ℕ)
    (m : AgentProcessManager) (workerId : String) (entered sweep : Nanos)
    (procs : Processes m.portRange) (orphans : List AgentOrphan) (turns : List Turn),
    config.validate = .ok () →
    (∀ x ∈ turns, x.health ≤ Nanos.fromSecs 1 ∧ x.request ≤ Nanos.fromSecs 10 ∧
      x.pause = (config.loop announced).interval) →
    Throughout (Fenced (config.loop announced) entered)
      ((Supervisor.enter (config.loop announced) workerId entered procs orphans sweep).beats
        turns) := by
  intro h
  have hrun := h config 15 manager "w" 0 0 .empty [] turns rfl (by decide +kernel)
  have hfences := (hrun.1.exact (by decide)).mpr (by decide +kernel)
  have := hrun.1.retried (by decide) hfences
  revert this
  decide

end Narrow

end FleetOrchestrator.Worker
