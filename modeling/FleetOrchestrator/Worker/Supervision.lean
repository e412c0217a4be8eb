import FleetOrchestrator.Worker.Processes

/-! The heartbeat loop over the agent processes, one turn at a time. -/

namespace FleetOrchestrator.Worker

open Core

/-- The settings of a worker that its loop depends on. -/
structure WorkerConfig where
  heartbeatIntervalSecs : ℕ
  agentFenceAfterSecs : ℕ
  watchdogStallAfterSecs : ℕ
  deriving DecidableEq, Repr

namespace WorkerConfig

def validate (config : WorkerConfig) : Except String Unit :=
  if config.agentFenceAfterSecs ≤ config.heartbeatIntervalSecs then
    .error "worker.agent_fence_after_secs must be greater than worker.heartbeat_interval_secs"
  else if config.watchdogStallAfterSecs ≠ 0 ∧
      config.watchdogStallAfterSecs ≤ config.heartbeatIntervalSecs then
    .error ("worker.watchdog_stall_after_secs must be 0 or greater than " ++
      "worker.heartbeat_interval_secs")
  else .ok ()

/-- What the runner starts the loop with, given the interval that registering announced. -/
def loop (config : WorkerConfig) (announced : ℕ) : LoopConfig where
  intervalSecs := max announced config.heartbeatIntervalSecs
  fenceAfterSecs := config.agentFenceAfterSecs

end WorkerConfig

/-- What one turn of the loop meets, and how long each part of it takes. -/
structure Turn where
  health : Nanos
  agentHealthy : Bool
  request : Nanos
  reply : Option Reply
  machine : Machine
  /-- The pass over the processes, or the fencing. -/
  work : Nanos
  pause : Nanos

/-- Whether the beat fails. -/
def Turn.fails (x : Turn) : Bool :=
  match RegistrationClient.heartbeatResult x.reply with
  | .ok _ => false
  | .error _ => true

structure Supervisor (m : AgentProcessManager) where
  loop : HeartbeatLoop
  procs : Processes m.portRange
  clock : Nanos

namespace Supervisor

variable {m : AgentProcessManager}

/-- The loop is entered at `now`, and sweeps before its first beat. -/
def enter (config : LoopConfig) (workerId : String) (now : Nanos) (procs : Processes m.portRange)
    (orphans : List AgentOrphan) (sweep : Nanos) : Supervisor m where
  loop := (HeartbeatLoop.start config workerId now).step (.swept orphans)
  procs
  clock := now + sweep

/-- When the outcome of the beat is known. -/
def heardAt (s : Supervisor m) (x : Turn) : Nanos := s.clock + x.health + x.request

def turn (s : Supervisor m) (x : Turn) : Supervisor m × List MachineCall :=
  let heard := (s.loop.step (.beat x.agentHealthy)).step (.reply x.reply)
  let now := s.heardAt x
  match heard.point with
  | .answered response =>
    let pass := m.reconcile x.machine s.procs response.agents
    ({ loop := heard.step (.reconciled now (pass.1.getD ⟨[], []⟩))
       procs := pass.2.1
       clock := now + x.work + x.pause }, pass.2.2)
  | .failed _ =>
    if s.loop.config.fenceAfter ≤ now - s.loop.lastContact then
      let fencing := m.fenceAll s.procs
      ({ loop := heard.step (.fenced now fencing.1)
         procs := fencing.2.1
         clock := now + x.work + x.pause }, fencing.2.2)
    else
      ({ loop := heard.step (.fenced now [])
         procs := s.procs
         clock := now + x.work + x.pause }, [])
  | _ => (s, [])

end Supervisor

/-- What the loop takes over is what the pass reports. -/
theorem reconcile_reported {m : AgentProcessManager} {machine : Machine}
    {t : Processes m.portRange} {commands : Option (List AgentCommand)} :
    reconcile commands ((m.reconcile machine t commands).1.getD ⟨[], []⟩) =
      (m.reconcile machine t commands).1 := by
  cases commands <;> rfl

namespace HeartbeatLoop

/-- A registered loop between two beats. -/
structure Ready (s : HeartbeatLoop) : Prop where
  point : s.point = .top
  registered : ∃ workerId, s.client.workerId = some workerId

variable {s : HeartbeatLoop} {reply : Option Reply}

theorem step_reconciled {response : HeartbeatResponse} (h : s.point = .answered response)
    {now : Nanos} {outcome : ReconcileOutcome} :
    s.step (.reconciled now outcome) = s.converge response now outcome := by simp only [step, h]

theorem step_fenced {e : WorkerError} (h : s.point = .failed e) {now : Nanos}
    {agents : List AgentId} : s.step (.fenced now agents) = s.fence now agents := by
  simp only [step, h]

theorem heard_ok (agentHealthy : Bool) (h : s.Ready) {body : HeartbeatResponse}
    (hreply : RegistrationClient.heartbeatResult reply = .ok body) :
    ((s.step (.beat agentHealthy)).step (.reply reply)).point = .answered body ∧
      ((s.step (.beat agentHealthy)).step (.reply reply)).client.workerId = s.client.workerId ∧
      ((s.step (.beat agentHealthy)).step (.reply reply)).config = s.config := by
  obtain ⟨hpoint, workerId, hid⟩ := h
  have hack (c : RegistrationClient) : (c.acknowledge body).workerId = c.workerId := by
    unfold RegistrationClient.acknowledge
    cases body.agents <;> rfl
  simp [step, hpoint, send, RegistrationClient.heartbeatRequest, hid, receive, hreply, hack]

theorem heard_error (agentHealthy : Bool) (h : s.Ready) {e : WorkerError}
    (hreply : RegistrationClient.heartbeatResult reply = .error e) :
    ((s.step (.beat agentHealthy)).step (.reply reply)).point = .failed e ∧
      ((s.step (.beat agentHealthy)).step (.reply reply)).client.workerId = s.client.workerId ∧
      ((s.step (.beat agentHealthy)).step (.reply reply)).config = s.config ∧
      ((s.step (.beat agentHealthy)).step (.reply reply)).lastContact = s.lastContact := by
  obtain ⟨hpoint, workerId, hid⟩ := h
  simp [step, hpoint, send, RegistrationClient.heartbeatRequest, hid, receive, hreply]

end HeartbeatLoop

namespace Supervisor

variable {m : AgentProcessManager} {s : Supervisor m} {x : Turn}

/-- A turn whose beat is answered makes contact. -/
theorem turn_answered (h : s.loop.Ready) (hx : x.fails = false) :
    (s.turn x).1.loop.Ready ∧ (s.turn x).1.loop.config = s.loop.config ∧
      (s.turn x).1.loop.lastContact = s.heardAt x ∧
      (s.turn x).1.clock = s.heardAt x + x.work + x.pause := by
  unfold Turn.fails at hx
  cases hreply : RegistrationClient.heartbeatResult x.reply with
  | error e =>
    rw [hreply] at hx
    cases hx
  | ok body =>
    obtain ⟨hpoint, hid, hconfig⟩ :=
      HeartbeatLoop.heard_ok x.agentHealthy h hreply
    obtain ⟨-, workerId, hw⟩ := h
    unfold turn
    dsimp only
    rw [hpoint]
    dsimp only
    rw [HeartbeatLoop.step_reconciled hpoint]
    refine ⟨⟨rfl, workerId, ?_⟩, hconfig, rfl, rfl⟩
    rw [← hw, ← hid]
    unfold HeartbeatLoop.converge HeartbeatLoop.afterConverging
    dsimp only
    split <;> rfl

/-- What fencing does to the loop, whatever it adds to the buffer. -/
theorem fence_cases (s : HeartbeatLoop) (now : Nanos) (agents : List AgentId) :
    ∃ client : RegistrationClient, client.workerId = s.client.workerId ∧
      s.fence now agents = ⟨s.config, client, s.lastContact, .top⟩ := by
  refine ⟨s.afterFencing (now - s.lastContact) agents, ?_, rfl⟩
  unfold HeartbeatLoop.afterFencing
  split <;> rfl

/-- A turn whose beat fails fences where contact is too long ago, and else leaves the processes
as they are. -/
theorem turn_failed (h : s.loop.Ready) (hx : x.fails = true) :
    (s.turn x).1.loop.Ready ∧ (s.turn x).1.loop.config = s.loop.config ∧
      (s.turn x).1.loop.lastContact = s.loop.lastContact ∧
      (s.turn x).1.clock = s.heardAt x + x.work + x.pause ∧
      (s.loop.config.fenceAfter ≤ s.heardAt x - s.loop.lastContact →
        (s.turn x).1.procs = .empty ∧ (s.turn x).2 = (m.fenceAll s.procs).2.2) ∧
      (s.heardAt x - s.loop.lastContact < s.loop.config.fenceAfter →
        (s.turn x).1.procs = s.procs ∧ (s.turn x).2 = []) := by
  unfold Turn.fails at hx
  cases hreply : RegistrationClient.heartbeatResult x.reply with
  | ok body =>
    rw [hreply] at hx
    cases hx
  | error e =>
    obtain ⟨hpoint, hid, hconfig, hcontact⟩ :=
      HeartbeatLoop.heard_error x.agentHealthy h hreply
    obtain ⟨-, workerId, hw⟩ := h
    unfold turn
    generalize (s.loop.step (.beat x.agentHealthy)).step (.reply x.reply) = heard at *
    dsimp only
    rw [hpoint]
    dsimp only
    by_cases hlate : s.loop.config.fenceAfter ≤ s.heardAt x - s.loop.lastContact
    · obtain ⟨client, hclient, hfence⟩ :=
        fence_cases heard (s.heardAt x) (m.fenceAll s.procs).1
      rw [if_pos hlate, HeartbeatLoop.step_fenced hpoint, hfence]
      refine ⟨⟨rfl, workerId, ?_⟩, hconfig, hcontact, rfl, fun _ => ⟨rfl, rfl⟩,
        fun h => absurd hlate (Nat.not_le.mpr h)⟩
      exact hclient.trans (hid.trans hw)
    · obtain ⟨client, hclient, hfence⟩ :=
        fence_cases heard (s.heardAt x) []
      rw [if_neg hlate, HeartbeatLoop.step_fenced hpoint, hfence]
      refine ⟨⟨rfl, workerId, ?_⟩, hconfig, hcontact, rfl, fun h => absurd h hlate,
        fun _ => ⟨rfl, rfl⟩⟩
      exact hclient.trans (hid.trans hw)

theorem enter_ready {config : LoopConfig} {workerId : String} {now sweep : Nanos}
    {procs : Processes m.portRange} {orphans : List AgentOrphan} :
    (enter config workerId now procs orphans sweep).loop.Ready ∧
      (enter config workerId now procs orphans sweep).loop.config = config ∧
      (enter config workerId now procs orphans sweep).loop.lastContact = now := by
  refine ⟨⟨rfl, workerId, ?_⟩, rfl, rfl⟩
  simp only [enter, HeartbeatLoop.step, HeartbeatLoop.start, HeartbeatLoop.sweep]
  split <;> rfl

end Supervisor

end FleetOrchestrator.Worker
