import FleetOrchestrator.Core.Fleet

/-! The worker's registration client and its heartbeat loop, one step at a time. -/

namespace FleetOrchestrator.Worker

open Core

inductive AgentOrphanReason where
  | unplaced
  | staleIncarnation
  deriving DecidableEq, Repr

structure AgentOrphan where
  agentId : AgentId
  reason : AgentOrphanReason
  deriving DecidableEq, Repr

structure AgentFenced where
  agentId : AgentId
  unreachableSecs : ℕ
  deriving DecidableEq, Repr

structure HeartbeatRequest where
  workerId : String
  agentHealthy : Bool
  agentAcks : List AgentAck
  agentObservations : Option (List AgentObservation)
  agentOrphans : List AgentOrphan
  agentFenced : List AgentFenced
  deriving DecidableEq, Repr

structure HeartbeatResponse where
  ok : Bool
  desiredState : String
  agents : Option (List AgentCommand) := none
  deriving DecidableEq, Repr

inductive WorkerError where
  | http
  | orchestratorApi (message : String)
  deriving DecidableEq, Repr

/-- What comes back for a request: the status line, the body as text, and the body as JSON where
it can be read. -/
structure Reply where
  code : ℕ
  status : String
  text : Option String
  json : Option HeartbeatResponse
  deriving DecidableEq, Repr

def Reply.isSuccess (r : Reply) : Bool := 200 ≤ r.code && r.code < 300

structure RegistrationClient where
  workerId : Option String := none
  pendingAcks : List AgentAck := []
  pendingObservations : Option (List AgentObservation) := none
  pendingOrphans : List AgentOrphan := []
  pendingFenced : List AgentFenced := []
  deriving DecidableEq, Repr

namespace RegistrationClient

def new : RegistrationClient := {}

/-- `heartbeat_once` up to the request's departure. -/
def heartbeatRequest (c : RegistrationClient) (agentHealthy : Bool) :
    Except WorkerError (HeartbeatRequest × RegistrationClient) :=
  match c.workerId with
  | none => .error (.orchestratorApi "not registered yet")
  | some workerId =>
    .ok ({ workerId
           agentHealthy
           agentAcks := c.pendingAcks
           agentObservations := c.pendingObservations
           agentOrphans := c.pendingOrphans
           agentFenced := c.pendingFenced },
      { c with
        pendingAcks := []
        pendingObservations := none
        pendingOrphans := []
        pendingFenced := [] })

/-- What `heartbeat_once` makes of the reply, `none` where sending failed. -/
def heartbeatResult : Option Reply → Except WorkerError HeartbeatResponse
  | none => .error .http
  | some r =>
    if r.isSuccess then
      match r.json with
      | none => .error .http
      | some body => .ok body
    else .error (.orchestratorApi
      ("heartbeat returned " ++ r.status ++ ": " ++ r.text.getD ""))

def acknowledge (c : RegistrationClient) (body : HeartbeatResponse) : RegistrationClient :=
  match body.agents with
  | none => c
  | some cmds => { c with pendingAcks := cmds.map fun x => ⟨x.agentId, x.generation⟩ }

@[simp] theorem acknowledge_pendingOrphans (c : RegistrationClient) (body : HeartbeatResponse) :
    (c.acknowledge body).pendingOrphans = c.pendingOrphans := by
  unfold acknowledge
  cases body.agents <;> rfl

@[simp] theorem acknowledge_pendingFenced (c : RegistrationClient) (body : HeartbeatResponse) :
    (c.acknowledge body).pendingFenced = c.pendingFenced := by
  unfold acknowledge
  cases body.agents <;> rfl

end RegistrationClient

/-- Instants and durations, in nanoseconds. -/
abbrev Nanos := ℕ

namespace Nanos

def fromSecs (secs : ℕ) : Nanos := secs * 1000000000

def asSecs (d : Nanos) : ℕ := d / 1000000000

end Nanos

structure ReconcileOutcome where
  observations : List AgentObservation
  orphans : List AgentOrphan
  deriving DecidableEq, Repr

/-- `AgentProcessManager::reconcile` with what its pass over the processes found. -/
def reconcile (commands : Option (List AgentCommand)) (outcome : ReconcileOutcome) :
    Option ReconcileOutcome :=
  commands.map fun _ => outcome

structure LoopConfig where
  intervalSecs : ℕ
  fenceAfterSecs : ℕ

namespace LoopConfig

def interval (config : LoopConfig) : Nanos := Nanos.fromSecs (max config.intervalSecs 1)

def fenceAfter (config : LoopConfig) : Nanos :=
  max (Nanos.fromSecs config.fenceAfterSecs) (config.interval + Nanos.fromSecs 1)

end LoopConfig

/-- Where `run_heartbeat_loop` stands. -/
inductive LoopPoint where
  | entered
  | top
  | sent (request : HeartbeatRequest)
  | answered (response : HeartbeatResponse)
  | failed (error : WorkerError)
  | left
  deriving DecidableEq, Repr

structure HeartbeatLoop where
  config : LoopConfig
  client : RegistrationClient
  lastContact : Nanos
  point : LoopPoint

/-- What the loop meets at its next step. -/
inductive LoopInput where
  | swept (orphans : List AgentOrphan)
  | shutdown
  | beat (agentHealthy : Bool)
  | reply (reply : Option Reply)
  | reconciled (now : Nanos) (outcome : ReconcileOutcome)
  | fenced (now : Nanos) (agents : List AgentId)
  deriving DecidableEq, Repr

namespace HeartbeatLoop

def sweep (s : HeartbeatLoop) (orphans : List AgentOrphan) : HeartbeatLoop :=
  { s with
    client :=
      if orphans.isEmpty then s.client
      else { s.client with pendingOrphans := s.client.pendingOrphans ++ orphans }
    point := .top }

def send (s : HeartbeatLoop) (agentHealthy : Bool) : HeartbeatLoop :=
  match s.client.heartbeatRequest agentHealthy with
  | .error e => { s with point := .failed e }
  | .ok (request, client) => { s with client, point := .sent request }

def receive (s : HeartbeatLoop) (reply : Option Reply) : HeartbeatLoop :=
  match RegistrationClient.heartbeatResult reply with
  | .error e => { s with point := .failed e }
  | .ok body => { s with client := s.client.acknowledge body, point := .answered body }

def afterConverging (s : HeartbeatLoop) : Option ReconcileOutcome → RegistrationClient
  | none => s.client
  | some outcome =>
    { s.client with
      pendingObservations := some outcome.observations
      pendingOrphans := s.client.pendingOrphans ++ outcome.orphans }

def converge (s : HeartbeatLoop) (response : HeartbeatResponse) (now : Nanos)
    (outcome : ReconcileOutcome) : HeartbeatLoop :=
  { s with
    client := s.afterConverging (reconcile response.agents outcome)
    lastContact := now
    point := .top }

def afterFencing (s : HeartbeatLoop) (unreachable : Nanos) (agents : List AgentId) :
    RegistrationClient :=
  if s.config.fenceAfter ≤ unreachable ∧ agents ≠ [] then
    { s.client with
      pendingFenced := s.client.pendingFenced ++
        agents.map fun agentId => ⟨agentId, Nanos.asSecs unreachable⟩ }
  else s.client

def fence (s : HeartbeatLoop) (now : Nanos) (agents : List AgentId) : HeartbeatLoop :=
  { s with
    client := s.afterFencing (now - s.lastContact) agents
    point := .top }

/-- One step of the loop; an input that is not the next one leaves it where it is. -/
def step (s : HeartbeatLoop) : LoopInput → HeartbeatLoop
  | .swept orphans =>
    match s.point with
    | .entered => s.sweep orphans
    | _ => s
  | .shutdown =>
    match s.point with
    | .top => { s with point := .left }
    | _ => s
  | .beat agentHealthy =>
    match s.point with
    | .top => s.send agentHealthy
    | _ => s
  | .reply reply =>
    match s.point with
    | .sent _ => s.receive reply
    | _ => s
  | .reconciled now outcome =>
    match s.point with
    | .answered response => s.converge response now outcome
    | _ => s
  | .fenced now agents =>
    match s.point with
    | .failed _ => s.fence now agents
    | _ => s

def after (s : HeartbeatLoop) (inputs : List LoopInput) : HeartbeatLoop := inputs.foldl step s

/-- The loop as the runner starts it, once registered as `workerId`. -/
def start (config : LoopConfig) (workerId : String) (now : Nanos) : HeartbeatLoop where
  config
  client := { RegistrationClient.new with workerId := some workerId }
  lastContact := now
  point := .entered

end HeartbeatLoop

end FleetOrchestrator.Worker
