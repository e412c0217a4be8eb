import FleetOrchestrator.Scheduler.FleetState
import FleetOrchestrator.Scheduler.Selector
import FleetOrchestrator.Scheduler.SkillLoader

namespace FleetOrchestrator.Scheduler

open Core Store Transport

inductive DispatchError where
  | store (message : String)
  | noWorker (message : String)
  | circuitOpen (w : WorkerId)
  | recoveryUnavailable (w : WorkerId)
  | skillMissing (taskId : TaskId) (missing : List String)
  | transport (message : String)
  | notPending (taskId : TaskId) (current : String)
  | idempotencyConflict (key : String) (existing : TaskId)
  | controlPlaneFenced
  | invalidRequest (message : String)
  deriving DecidableEq, Repr

def DispatchError.message : DispatchError → String
  | store m => "store error: " ++ m
  | noWorker m => "no worker available: " ++ m
  | circuitOpen w => "circuit breaker open for worker " ++ toString w
  | recoveryUnavailable w => "worker " ++ toString w ++
      " has not been recovered yet — its session inventory could not be read"
  | skillMissing t missing => "task " ++ toString t ++ " requires skill(s) that could not be loaded: " ++
      ", ".intercalate missing
  | transport m => "transport error: " ++ m
  | notPending t current => "task " ++ toString t ++ " is no longer pending (now '" ++ current ++
      "') — dispatch aborted"
  | idempotencyConflict key existing => "idempotency key '" ++ key ++
      "' already used with a different payload (task " ++ toString existing ++ ")"
  | controlPlaneFenced => "this instance does not currently hold the control plane lease"
  | invalidRequest m => "invalid task request: " ++ m

def DispatchError.ofTransport : TransportError → DispatchError
  | .invalidRequest m => .invalidRequest m
  | e => .transport e.message

inductive CancelError where
  | store (message : String)
  | notFound (taskId : TaskId)
  | alreadyTerminal (taskId : TaskId) (phase : String)
  | controlPlaneFenced
  deriving DecidableEq, Repr

namespace Dispatcher

def workerRecoveryTimeout : ℕ := 5

def getWorkerCircuitState (w : WorkerId) : M CircuitState := do
  let found ← call (.store (.getWorker w))
  match found with
  | .ok (some worker) => return worker.circuitState
  | .ok none | .error _ => return .closed

def persistBreakerTransition (w : WorkerId) (old new : BreakerState) : M Unit :=
  if old = new then return ()
  else do
    let _ ← call (.store (.updateWorkerCircuitState w new.toCircuit))
    appendEvent (.workerCircuitChanged w old.toCircuit new.toCircuit)

/-- `cb.record(..)` between two readings of the state, and what follows from a change. -/
def recordOutcome (w : WorkerId) (outcome : Outcome) : M Unit := do
  let old ← call (.process (.breakerState w))
  call (.process (.breakerRecord w outcome))
  let new ← call (.process (.breakerState w))
  persistBreakerTransition w old new

def markFailed (id : TaskId) (expected : List TaskPhase) (failure : TaskFailure)
    (origin : TransitionOrigin) : M Bool := do
  let fence ← call (.process .controlFence)
  let outcome ← call (.store (.compareAndSetTaskStatus id expected (.failed failure) fence origin))
  match outcome with
  | .ok .applied =>
    appendEvent (.taskFailed id failure)
    return true
  | .ok (.rejected _) | .ok .fenced | .ok (.staleDispatchEpoch _) | .error _ => return false

def vanishedSessionFailure (w : WorkerId) (sessionId : SessionId) : TaskFailure where
  error := "worker " ++ toString w ++ " no longer holds ACP session " ++ sessionId ++
    " for this task — the execution ended without reporting a result"
  kind := .executionVanished
  workerId := some w
  attempts := 0

def reapVanished (w : WorkerId) (live : List SessionId) : List Task → M Unit
  | [] => return ()
  | task :: tasks => do
    match task.acpSessionId with
    | none => reapVanished w live tasks
    | some sessionId =>
      if live.contains sessionId then reapVanished w live tasks
      else
        let _ ← markFailed task.id [.dispatched] (vanishedSessionFailure w sessionId)
          .controlDecision
        reapVanished w live tasks

def reapVanishedOnWorker (w : WorkerId) (live : List SessionId) : M Unit := do
  let dispatched ← call (.store (.listTasks
    { status := some .dispatched, workerId := some w, limit := 1000 }))
  match dispatched with
  | .error _ => return ()
  | .ok tasks => reapVanished w live tasks

def reapReported (w : WorkerId) : SessionInventory → M Unit
  | .reported live => reapVanishedOnWorker w live
  | .undeclared | .refused _ => return ()

def recoverWorker (cfg : ProcessConfig) (w : WorkerId) : M (Except DispatchError Bool) := do
  let inventory ← AcpTransport.listSessions w workerRecoveryTimeout
  match inventory with
  | .error _ => return .error (.recoveryUnavailable w)
  | .ok inventory =>
    reapReported w inventory
    auditDecision cfg AuditAction.controlWorkerRecovered ("worker", toString w)
      [("inventory", .text inventory.label), ("authoritative", .flag inventory.isAuthoritative)]
    call (.process (.ledgerInsert w))
    return .ok true

def ensureWorkerRecovered (cfg : ProcessConfig) (w : WorkerId) : M (Except DispatchError Bool) := do
  let generation ← call (.process .leaseEpoch)
  let known ← call (.process (.ledgerContains generation w))
  if known then return .ok false else recoverWorker cfg w

/-- A failure before the task was claimed; the caller chooses whether it ends the task. -/
def failPending (markUnavailableAsFailed : Bool) (id : TaskId) (failure : TaskFailure) : M Unit :=
  if markUnavailableAsFailed then do
    let _ ← markFailed id [.pending] failure .controlDecision
    return ()
  else return ()

def selectionFailure (e : SelectionError) : TaskFailure where
  error := e.message
  kind := match e with
    | .noWorkerForCredential _ => .credentialMissing
    | _ => .workerUnavailable
  workerId := none
  attempts := 0

def checkBreaker (task : Task) (flag : Bool) (w : WorkerId) : M (Except DispatchError Unit) := do
  let initial ← getWorkerCircuitState w
  call (.process (.breakerGet w initial))
  let old ← call (.process (.breakerState w))
  let checked ← call (.process (.breakerCheck w))
  let new ← call (.process (.breakerState w))
  persistBreakerTransition w old new
  match checked with
  | .ok () => return .ok ()
  | .error remaining =>
    failPending flag task.id
      ⟨"circuit open: circuit breaker is not accepting requests (remaining: " ++
        toString remaining ++ "ms)", .circuitOpen, some w, 0⟩
    return .error (.circuitOpen w)

def recoverFirst (cfg : ProcessConfig) (task : Task) (flag : Bool) (w : WorkerId) :
    M (Except DispatchError Unit) := do
  let recovered ← ensureWorkerRecovered cfg w
  match recovered with
  | .ok _ => return .ok ()
  | .error e =>
    recordOutcome w .failure
    failPending flag task.id ⟨e.message, .workerUnavailable, some w, 0⟩
    return .error e

def earlierTurn (task ancestor : Task) : Option String :=
  if ancestor.id = task.id ∨ task.createdAt ≤ ancestor.createdAt then none
  else
    match ancestor.status with
    | .completed result => some ("Q: " ++ ancestor.prompt ++ "\nA: " ++ result.output ++ "\n\n")
    | _ => none

def buildThreadedPrompt (task : Task) : M String := do
  let history ← call (.store (.listThreadTasks task.threadId))
  match history with
  | .error _ => return task.prompt
  | .ok turns =>
    let context := String.join (turns.filterMap (earlierTurn task))
    return if context.isEmpty then task.prompt else context ++ "Q: " ++ task.prompt

def basePrompt (task : Task) : M String :=
  if task.parentTaskId.isSome then buildThreadedPrompt task else return task.prompt

def skillFailure (w : WorkerId) (missing : List String) : TaskFailure :=
  ⟨"required skill(s) not available on the orchestrator: " ++ ", ".intercalate missing,
    .skillMissing, some w, 0⟩

def assembleHarness (D : Deployment) (task : Task) (flag : Bool) (w : WorkerId) :
    M (Except DispatchError SkillLoader.SkillInjection) := do
  let base ← basePrompt task
  let harness ← SkillLoader.injectSkills D.sha256 base task.skillsRequired
  if harness.isComplete then return .ok harness
  else
    failPending flag task.id (skillFailure w harness.missing)
    return .error (.skillMissing task.id harness.missing)

def staleEpochMessage (what : String) (under : ℤ) : String :=
  what ++ " CAS reported a stale dispatch epoch (" ++ toString under ++
    ") for a ControlDecision transition — this indicates a bug in the store"

/-- The write that makes the task this process's to send. -/
def claim (cfg : ProcessConfig) (task : Task) (w : WorkerId) : M (Except DispatchError Unit) := do
  let startedAt ← utcNow
  let fence ← call (.process .controlFence)
  let outcome ← call (.store (.compareAndSetTaskStatus task.id [.pending]
    (.dispatched w startedAt) fence .controlDecision))
  match outcome with
  | .error e => return .error (.store e.message)
  | .ok .applied => return .ok ()
  | .ok .fenced =>
    auditControl cfg AuditAction.controlWriteFenced ("task", toString task.id)
      [("worker_id", .text (toString w))]
    return .error .controlPlaneFenced
  | .ok (.staleDispatchEpoch under) =>
    return .error (.store (staleEpochMessage "dispatch" under))
  | .ok (.rejected current) => return .error (.notPending task.id current.asStr)

def requestFor (task : Task) (w : WorkerId) (prompt : String) : DispatchRequest where
  taskId := task.id
  workerId := w
  prompt := prompt
  cwd := task.cwd
  model := task.model
  maxTurns := task.maxTurns
  timeoutSecs := task.timeoutSecs
  checkpointBranch := task.checkpointBranch
  skillsRequired := task.skillsRequired

/-- A request fault is not held against the worker. -/
def blameWorker (w : WorkerId) (e : TransportError) : M Unit :=
  if e.isInvalidRequest then do
    let old ← call (.process (.breakerState w))
    let new ← call (.process (.breakerState w))
    persistBreakerTransition w old new
  else recordOutcome w .failure

def transportFailure (w : WorkerId) (e : TransportError) : TaskFailure :=
  ⟨e.message, if e.isInvalidRequest then .invalidRequest else .workerError, some w, 1⟩

def handOver (task : Task) (w : WorkerId) (harness : SkillLoader.SkillInjection) :
    M (Except DispatchError Unit) := do
  appendEvent (.taskDispatched task.id w)
  let fence ← call (.process .controlFence)
  let _ ← call (.store (.recordTaskSkillSnapshot task.id harness.loaded fence))
  call (.process .incRunning)
  let sent ← AcpTransport.dispatch (requestFor task w harness.prompt)
  match sent with
  | .ok () => return .ok ()
  | .error e =>
    blameWorker w e
    let _ ← markFailed task.id [.dispatched] (transportFailure w e) .controlDecision
    call (.process .decRunning)
    return .error (.ofTransport e)

def dispatchTo (D : Deployment) (cfg : ProcessConfig) (task : Task) (flag : Bool) (w : WorkerId) :
    M (Except DispatchError Unit) :=
  (checkBreaker task flag w).andThen fun _ =>
    (recoverFirst cfg task flag w).andThen fun _ =>
      (assembleHarness D task flag w).andThen fun harness =>
        (claim cfg task w).andThen fun _ => handOver task w harness

def dispatchExisting (D : Deployment) (cfg : ProcessConfig) (task : Task)
    (markUnavailableAsFailed : Bool) : M (Except DispatchError Unit) := do
  let allowed ← call (.process .leaseAllowsControl)
  match allowed with
  | false =>
    let label ← call (.process .leaseStatusLabel)
    auditControl cfg AuditAction.controlDispatchRefused ("task", toString task.id)
      [("lease_status", .text label)]
    return .error .controlPlaneFenced
  | true =>
    let selected ← Selector.select task
    match selected with
    | .error e =>
      failPending markUnavailableAsFailed task.id (selectionFailure e)
      return .error (.noWorker e.message)
    | .ok w => dispatchTo D cfg task markUnavailableAsFailed w

/-- The readings stop at the first dependency that is not completed. -/
def hasUnresolvedDependencies : List TaskId → M Bool
  | [] => return false
  | dep :: deps => do
    let found ← getTask dep
    match found with
    | .ok (some t) =>
      match t.phase with
      | .completed => hasUnresolvedDependencies deps
      | .pending | .dispatched | .failed | .cancelled => return true
    | .ok none | .error _ => return true

def routed (D : Deployment) (task : Task) : Task :=
  let decision := D.resolveRouting task
  { task with
    routingProfile := task.routingProfile.orElse fun _ => some decision.profile
    resolvedModel := task.resolvedModel.orElse fun _ => some decision.resolvedModel
    tokenBudget := task.tokenBudget.orElse fun _ => some decision.tokenBudget }

def isTransient : DispatchError → Bool
  | .noWorker _ | .circuitOpen _ => true
  | _ => false

def firstAttempt (D : Deployment) (cfg : ProcessConfig) (task : Task) :
    M (Except DispatchError TaskId) := do
  let retriesEnabled := 0 < cfg.maxDispatchRetries
  let attempt ← dispatchExisting D cfg task (!retriesEnabled)
  match attempt with
  | .ok () => return .ok task.id
  | .error e =>
    if retriesEnabled && isTransient e then
      let _ ← call (.store (.incrementTaskRetryCount task.id))
      return .ok task.id
    else return .error e

def submitInserted (D : Deployment) (cfg : ProcessConfig) (task : Task) :
    M (Except DispatchError TaskId) := do
  appendEvent (.taskCreated task.id task.serverHint task.createdBy)
  let unresolved ← hasUnresolvedDependencies task.dependencyIds
  if unresolved then return .ok task.id else firstAttempt D cfg task

def submit (D : Deployment) (cfg : ProcessConfig) (task : Task) :
    M (Except DispatchError TaskId) :=
  match validateWorkspaceCwd task.cwd with
  | .error e => return .error (.invalidRequest ("cwd: " ++ e.message))
  | .ok _ => do
    let outcome ← call (.store (.insertTaskIdempotent (routed D task)))
    match outcome with
    | .error e => return .error (.store e.message)
    | .ok (.duplicate existing) => return .ok existing.id
    | .ok (.conflict existing) =>
      return .error (.idempotencyConflict (task.idempotencyKey.getD "") existing)
    | .ok .inserted => submitInserted D cfg (routed D task)

def dispatchReady (D : Deployment) (cfg : ProcessConfig) : List Task → M Unit
  | [] => return ()
  | task :: tasks => do
    let unresolved ← hasUnresolvedDependencies task.dependencyIds
    if unresolved then dispatchReady D cfg tasks
    else
      let _ ← dispatchExisting D cfg task false
      dispatchReady D cfg tasks

def dispatchReadyTasks (D : Deployment) (cfg : ProcessConfig) : M Unit := do
  let listed ← call (.store (.listTasks { status := some .pending, limit := 1000 }))
  match listed with
  | .error _ => return ()
  | .ok tasks => dispatchReady D cfg tasks

def currentWorkerOf (id : TaskId) : M (Option WorkerId) := do
  let found ← getTask id
  match found with
  | .ok (some t) =>
    match t.status with
    | .dispatched w _ => return some w
    | _ => return none
  | .ok none | .error _ => return none

def recordOnBreaker (w : WorkerId) (outcome : Outcome) : M Unit := do
  let initial ← getWorkerCircuitState w
  call (.process (.breakerGet w initial))
  recordOutcome w outcome

/-- An event is only left behind by a write that was applied. -/
def markCompleted (id : TaskId) (result : TaskResult) : M Unit := do
  let fence ← call (.process .controlFence)
  let outcome ← call (.store (.compareAndSetTaskStatus id [.dispatched] (.completed result) fence
    .workerOutcome))
  match outcome with
  | .ok .applied => appendEvent (.taskCompleted id result.workerId result)
  | .ok (.rejected _) | .ok .fenced | .ok (.staleDispatchEpoch _) | .error _ => return ()

def handleCompleted (D : Deployment) (cfg : ProcessConfig) (id : TaskId) (result : TaskResult) :
    M Unit := do
  recordOnBreaker result.workerId .success
  markCompleted id result
  call (.process .decRunning)
  dispatchReadyTasks D cfg

def recordFailureOf : Option WorkerId → M Unit
  | some w => recordOnBreaker w .failure
  | none => return ()

def handleFailed (id : TaskId) (error : String) (observation : FailureObservation) : M Unit := do
  let worker ← currentWorkerOf id
  recordFailureOf worker
  let _ ← markFailed id [.dispatched] ⟨error, observation.kind, worker, 1⟩ .workerOutcome
  call (.process .decRunning)

def handleSessionOpened (id : TaskId) (sessionId : SessionId) : M Unit := do
  let fence ← call (.process .controlFence)
  let _ ← call (.store (.recordTaskAcpSession id sessionId fence))
  return ()

def allowedTools (revision : ℕ) : M (Option (List String)) := do
  let cached ← call (.process (.allowlistGet revision))
  match cached with
  | some tools => return some tools
  | none =>
    let found ← call (.store (.getAgentTemplateRevision revision))
    match found with
    | .ok (some tools) =>
      call (.process (.allowlistInsert revision tools))
      return some tools
    | .ok none | .error _ => return none

def checkToolName (cfg : ProcessConfig) (id : TaskId) (w : WorkerId) (agent : Agent)
    (revision : ℕ) (name : String) : M Unit := do
  let allowed ← allowedTools revision
  match allowed with
  | none => return ()
  | some tools =>
    if tools.isEmpty || tools.contains name then return ()
    else
      auditDecision cfg AuditAction.agentToolOutsideAllowlist ("task", toString id)
        [("agent_id", .text (toString agent.id)), ("worker_id", .text (toString w)),
          ("tool", .text name), ("template_revision_id", .text (toString revision))]

def checkToolAgainstAllowlist (cfg : ProcessConfig) (id : TaskId) (w : WorkerId)
    (invocation : ToolInvocation) : M Unit :=
  match invocation.name with
  | none => return ()
  | some name => do
    let found ← getTask id
    match found with
    | .ok (some task) =>
      match task.agentId with
      | none => return ()
      | some agentId =>
        let agent ← call (.store (.getAgent agentId))
        match agent with
        | .ok (some agent) =>
          match agent.templateRevision with
          | none => return ()
          | some revision => checkToolName cfg id w agent revision name
        | .ok none | .error _ => return ()
    | .ok none | .error _ => return ()

def handleToolCall (cfg : ProcessConfig) (id : TaskId) (w : WorkerId)
    (invocation : ToolInvocation) : M Unit := do
  appendEvent (.taskToolCall id w invocation)
  checkToolAgainstAllowlist cfg id w invocation

def abandonOutcome (cfg : ProcessConfig) (id : TaskId) : M Unit := do
  let label ← call (.process .leaseStatusLabel)
  auditControl cfg AuditAction.controlOutcomeAbandoned ("task", toString id)
    [("lease_status", .text label)]

/-- Only the two events that decide a task need the lease. -/
def handleWorkerEvent (D : Deployment) (cfg : ProcessConfig) (event : WorkerEvent) : M Unit :=
  match event with
  | .completed id result => do
    let allowed ← call (.process .leaseAllowsControl)
    if allowed then handleCompleted D cfg id result else abandonOutcome cfg id
  | .failed id error observation => do
    let allowed ← call (.process .leaseAllowsControl)
    if allowed then handleFailed id error observation else abandonOutcome cfg id
  | .sessionOpened id sessionId => handleSessionOpened id sessionId
  | .output id _ chunk => do
    let _ ← call (.store (.appendOutput id chunk))
    return ()
  | .toolCall id w invocation => handleToolCall cfg id w invocation

def undelivered (w : WorkerId) (task : Task) : List (String × AuditValue) :=
  [("worker_id", .text (toString w)), ("session_known", .flag task.acpSessionId.isSome)]

/-- Telling the worker; whatever comes of it, the cancellation goes on. -/
def notifyWorker (cfg : ProcessConfig) (id : TaskId) (task : Task) (w : WorkerId) : M Unit := do
  let delivery ← AcpTransport.cancel ⟨id, task.acpSessionId, some w⟩
  match delivery with
  | .ok .unreachable =>
    auditDecision cfg AuditAction.controlCancelUndelivered ("task", toString id)
      (undelivered w task)
  | .ok .sent | .ok .noSession | .error _ => return ()

def writeCancelled (id : TaskId) (reason : String) : M (Except CancelError Unit) := do
  let cancelledAt ← utcNow
  let fence ← call (.process .controlFence)
  let outcome ← call (.store (.compareAndSetTaskStatus id [.pending, .dispatched]
    (.cancelled reason cancelledAt) fence .controlDecision))
  match outcome with
  | .error e => return .error (.store e.message)
  | .ok .applied =>
    appendEvent (.taskCancelled id reason)
    call (.process .decRunning)
    return .ok ()
  | .ok .fenced => return .error .controlPlaneFenced
  | .ok (.staleDispatchEpoch under) => return .error (.store (staleEpochMessage "cancel" under))
  | .ok (.rejected current) => return .error (.alreadyTerminal id current.asStr)

def notifyAssigned (cfg : ProcessConfig) (id : TaskId) (task : Task) : M Unit :=
  match task.status with
  | .dispatched w _ => notifyWorker cfg id task w
  | _ => return ()

def cancelFound (cfg : ProcessConfig) (id : TaskId) (task : Task) (reason : String) :
    M (Except CancelError Unit) := do
  notifyAssigned cfg id task
  writeCancelled id reason

def cancel (cfg : ProcessConfig) (id : TaskId) (reason : String) : M (Except CancelError Unit) := do
  let allowed ← call (.process .leaseAllowsControl)
  match allowed with
  | false => return .error .controlPlaneFenced
  | true =>
    let found ← getTask id
    match found with
    | .error e => return .error (.store e.message)
    | .ok none => return .error (.notFound id)
    | .ok (some task) =>
      if task.isTerminal then return .error (.alreadyTerminal id task.phase.asStr)
      else cancelFound cfg id task reason

end Dispatcher

end FleetOrchestrator.Scheduler
