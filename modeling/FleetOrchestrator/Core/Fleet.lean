import FleetOrchestrator.Core.Task

namespace FleetOrchestrator.Core

inductive WorkerStatus where
  | online
  | degraded
  | draining
  | offline
  | circuitOpen
  deriving DecidableEq, Repr

inductive WorkerLivenessMode where
  | periodic
  | onDemand
  deriving DecidableEq, Repr

inductive CircuitState where
  | closed
  | open
  | halfOpen
  deriving DecidableEq, Repr

structure Worker where
  id : WorkerId
  name : String
  labels : List (String × String) := []
  status : WorkerStatus := .online
  lastSeen : Option ℤ := none
  lastActivityAt : Option ℤ := none
  maxConcurrent : ℕ := 4
  maxAgentProcesses : Option ℕ := none
  circuitState : CircuitState := .closed
  livenessMode : WorkerLivenessMode := .periodic
  registeredAt : ℤ
  incarnationStartedAt : ℤ
  deriving DecidableEq, Repr

namespace Worker

def label (w : Worker) (key : String) : Option String := w.labels.lookup key

def matchesLabels (w : Worker) (required : List String) : Bool :=
  required.all fun lbl => (w.label lbl).isSome

end Worker

structure WorkerFilter where
  status : Option WorkerStatus := none
  labels : List (String × String) := []
  limit : ℕ := 100
  offset : ℕ := 0
  deriving DecidableEq, Repr

inductive AgentStatus where
  | ready
  | stopped
  deriving DecidableEq, Repr

inductive AgentDesiredStatus where
  | running
  | stopped
  deriving DecidableEq, Repr

def AgentDesiredStatus.asStr : AgentDesiredStatus → String
  | running => "running"
  | stopped => "stopped"

inductive AgentObservedStatus where
  | running
  | failed
  deriving DecidableEq, Repr

inductive AgentObservationReason where
  | capReached
  | noFreePort
  | spawnFailed
  deriving DecidableEq, Repr

/-- What a worker saw of one agent; only a failure has a reason. -/
inductive AgentObservation where
  | running (agentId : AgentId)
  | failed (agentId : AgentId) (reason : AgentObservationReason)
  deriving DecidableEq, Repr

namespace AgentObservation

def agentId : AgentObservation → AgentId
  | running id => id
  | failed id _ => id

def status : AgentObservation → AgentObservedStatus
  | running _ => .running
  | failed _ _ => .failed

def reason : AgentObservation → Option AgentObservationReason
  | running _ => none
  | failed _ reason => some reason

end AgentObservation

structure AgentCommand where
  agentId : AgentId
  desiredStatus : AgentDesiredStatus
  generation : ℤ
  deriving DecidableEq, Repr

structure AgentAck where
  agentId : AgentId
  generation : ℤ
  deriving DecidableEq, Repr

inductive AgentTemplateStatus where
  | draft
  | published
  | deprecated
  | retired
  | discarded
  deriving DecidableEq, Repr

namespace AgentTemplateStatus

def asStr : AgentTemplateStatus → String
  | draft => "draft"
  | published => "published"
  | deprecated => "deprecated"
  | retired => "retired"
  | discarded => "discarded"

def acceptsNewPins : AgentTemplateStatus → Bool
  | published | deprecated => true
  | draft | retired | discarded => false

end AgentTemplateStatus

structure AgentTemplatePin where
  templateId : ℕ
  revisionId : ℕ
  deriving DecidableEq, Repr

structure AgentTemplateRevision where
  id : ℕ
  templateId : ℕ
  isRevoked : Bool := false
  deriving DecidableEq, Repr

structure Agent where
  id : AgentId
  projectId : ProjectId
  name : String
  status : AgentStatus := .ready
  templatePin : Option AgentTemplatePin := none
  workerId : Option WorkerId := none
  assignedAt : Option ℤ := none
  desiredStatus : AgentDesiredStatus := .stopped
  commandGeneration : ℤ := 0
  lastAckedGeneration : ℤ := 0
  commandIssuedAt : Option ℤ := none
  commandControlEpoch : Option ℤ := none
  observedStatus : Option AgentObservedStatus := none
  observedAt : Option ℤ := none
  observedReason : Option AgentObservationReason := none
  createdAt : ℤ
  updatedAt : ℤ
  deriving DecidableEq, Repr

namespace Agent

def templateRevision (a : Agent) : Option ℕ := a.templatePin.map AgentTemplatePin.revisionId

def withoutPlacement (a : Agent) : Agent := { a with workerId := none, assignedAt := none }

def commandDelivered (a : Agent) : Bool := a.lastAckedGeneration = a.commandGeneration

def startPending (a : Agent) : Bool :=
  a.status = .ready && a.desiredStatus = .running && a.observedStatus.isNone

def commandUnackedFor (a : Agent) (now : ℤ) : Option ℤ :=
  if a.commandDelivered then none
  else a.commandIssuedAt.map fun issued => max (now - issued) 0

end Agent

inductive SlotClaim where
  | claimed
  | capReached
  | noSuchAgent
  | noSuchWorker
  | fenced
  | observedRunning
  deriving DecidableEq, Repr

inductive CommandIssue where
  | issued
  | noSuchAgent
  | fenced
  deriving DecidableEq, Repr

inductive ToolInvocationStatus where
  | pending
  | inProgress
  | completed
  | failed
  deriving DecidableEq, Repr

inductive ToolInvocationKind where
  | read
  | edit
  | delete
  | move
  | search
  | execute
  | think
  | fetch
  | switchMode
  | other
  deriving DecidableEq, Repr

structure ToolInvocation where
  toolCallId : String
  name : Option String
  kind : ToolInvocationKind
  status : ToolInvocationStatus
  deriving DecidableEq, Repr

inductive FleetEvent where
  | taskCreated (taskId : TaskId) (serverHint : Option String) (createdBy : String) (at_ : ℤ)
  | taskDispatched (taskId : TaskId) (workerId : WorkerId) (at_ : ℤ)
  | taskProgress (taskId : TaskId) (workerId : WorkerId) (seq : ℕ) (chunk : String) (at_ : ℤ)
  | taskToolCall (taskId : TaskId) (workerId : WorkerId) (invocation : ToolInvocation) (at_ : ℤ)
  | taskCompleted (taskId : TaskId) (workerId : WorkerId) (result : TaskResult) (at_ : ℤ)
  | taskFailed (taskId : TaskId) (failure : TaskFailure) (at_ : ℤ)
  | taskCancelled (taskId : TaskId) (reason : String) (at_ : ℤ)
  | workerJoined (workerId : WorkerId) (name endpoint : String) (at_ : ℤ)
  | workerLeft (workerId : WorkerId) (reason : String) (at_ : ℤ)
  | workerCircuitChanged (workerId : WorkerId) (from_ to_ : CircuitState) (at_ : ℤ)
  | workerHeartbeat (workerId : WorkerId) (activeTasks : ℕ) (agentHealthy : Bool) (at_ : ℤ)
  deriving DecidableEq, Repr

namespace FleetEvent

/-- The task whose hand-over the event tells. -/
def dispatchOf : FleetEvent → Option TaskId
  | taskDispatched id .. => some id
  | _ => none

/-- The task whose end the event tells. -/
def endOf : FleetEvent → Option TaskId
  | taskCompleted id .. | taskFailed id .. | taskCancelled id .. => some id
  | _ => none

/-- The event tells that a task was handed over or has ended. -/
def isDecision (e : FleetEvent) : Bool := e.dispatchOf.isSome || e.endOf.isSome

end FleetEvent

inductive AuditOutcome where
  | success
  | failure
  deriving DecidableEq, Repr

inductive AuditValue where
  | text (s : String)
  | flag (b : Bool)
  | number (n : ℤ)
  deriving DecidableEq, Repr

structure AuditEvent where
  actorLabel : String
  action : String
  targetType : Option String
  targetId : Option String
  outcome : AuditOutcome
  detail : List (String × AuditValue)
  controlEpoch : Option ℤ
  createdAt : ℤ
  deriving DecidableEq, Repr

namespace AuditAction

def controlDispatchRefused : String := "control.dispatch_refused"
def controlWriteFenced : String := "control.write_fenced"
def controlOutcomeAbandoned : String := "control.outcome_abandoned"
def controlCancelUndelivered : String := "control.cancel_undelivered"
def controlOrphanSessionCancelled : String := "control.orphan_session_cancelled"
def controlWorkerRecovered : String := "control.worker_recovered"
def controlUnclaimedSession : String := "control.unclaimed_session"
def agentToolOutsideAllowlist : String := "agent.tool_outside_allowlist"
def agentCommandUnacked : String := "agent.command_unacked"

end AuditAction

structure ControlLease where
  clusterId : String
  activeInstanceId : String
  epoch : ℤ
  acquiredAt : ℤ
  expiresAt : ℤ
  lastRenewedAt : ℤ
  binaryVersion : Option String
  deriving DecidableEq, Repr

structure ControlFence where
  clusterId : String
  epoch : ℤ
  deriving DecidableEq, Repr

inductive StoreError where
  | connection (msg : String)
  | notFound
  | decode (msg : String)
  | conflict (msg : String)
  | migration (msg : String)
  | sqlx (msg : String)
  | json (msg : String)
  | bootstrapTokenInvalid (msg : String)
  | unsupported (op : String)
  deriving DecidableEq, Repr

def StoreError.message : StoreError → String
  | connection m => "database connection error: " ++ m
  | notFound => "not found"
  | decode m => "decode error: " ++ m
  | conflict m => "conflict: " ++ m
  | migration m => "migration error: " ++ m
  | sqlx m => "sqlx error: " ++ m
  | json m => "json error: " ++ m
  | bootstrapTokenInvalid m => "bootstrap token invalid or exhausted: " ++ m
  | unsupported m => "operation not supported by this store backend: " ++ m

structure DispatchRequest where
  taskId : TaskId
  workerId : WorkerId
  prompt : String
  cwd : Option String
  model : Option String
  maxTurns : Option ℕ
  timeoutSecs : Option ℕ
  checkpointBranch : Option String
  skillsRequired : List String
  deriving DecidableEq, Repr

structure CancelRequest where
  taskId : TaskId
  knownSession : Option SessionId
  workerId : Option WorkerId
  deriving DecidableEq, Repr

inductive CancelDelivery where
  | sent
  | noSession
  | unreachable
  deriving DecidableEq, Repr

inductive FailureObservation where
  | reported
  | notDelivered
  | resultLost
  deriving DecidableEq, Repr

def FailureObservation.kind : FailureObservation → FailureKind
  | reported => .workerError
  | notDelivered => .workerUnavailable
  | resultLost => .resultLost

inductive WorkerEvent where
  | output (taskId : TaskId) (seq : ℕ) (chunk : String)
  | toolCall (taskId : TaskId) (workerId : WorkerId) (invocation : ToolInvocation)
  | sessionOpened (taskId : TaskId) (sessionId : SessionId)
  | completed (taskId : TaskId) (result : TaskResult)
  | failed (taskId : TaskId) (error : String) (observation : FailureObservation)
  deriving DecidableEq, Repr

namespace WorkerEvent

def taskId : WorkerEvent → TaskId
  | output t .. | toolCall t .. | sessionOpened t _ | completed t _ | failed t .. => t

def isTerminal : WorkerEvent → Bool
  | completed .. | failed .. => true
  | output .. | toolCall .. | sessionOpened .. => false

end WorkerEvent

inductive SessionInventory where
  | reported (live : List SessionId)
  | undeclared
  | refused (message : String)
  deriving DecidableEq, Repr

namespace SessionInventory

def label : SessionInventory → String
  | reported _ => "reported"
  | undeclared => "undeclared"
  | refused _ => "refused"

def isAuthoritative : SessionInventory → Bool
  | reported _ => true
  | undeclared | refused _ => false

end SessionInventory

inductive TransportError where
  | workerNotRegistered (worker : String)
  | connection (msg : String)
  | timeout (msg : String)
  | workerError (msg : String)
  | alreadyRegistered (worker : String)
  | workerAtCapacity (worker : String)
  | auth (msg : String)
  | invalidRequest (msg : String)
  deriving DecidableEq, Repr

namespace TransportError

def message : TransportError → String
  | workerNotRegistered w => "worker " ++ w ++ " is not registered"
  | connection m => "worker connection error: " ++ m
  | timeout m => "worker timeout after " ++ m
  | workerError m => "worker error: " ++ m
  | alreadyRegistered w => "worker " ++ w ++ " already registered"
  | workerAtCapacity w => "worker " ++ w ++ " is at capacity (max_concurrent_tasks reached)"
  | auth m => "authentication failed: " ++ m
  | invalidRequest m => "dispatch request is invalid and was not sent to the worker: " ++ m

def isInvalidRequest : TransportError → Bool
  | invalidRequest _ => true
  | _ => false

end TransportError

end FleetOrchestrator.Core
