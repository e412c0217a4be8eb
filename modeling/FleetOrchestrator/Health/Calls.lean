import FleetOrchestrator.Core.Errors
import FleetOrchestrator.Encoding.Words
import FleetOrchestrator.Health.Workers

/-! The heartbeat and the registration of a worker, the scan for workers that have gone silent, and
any number of them at once. -/

namespace FleetOrchestrator.Health

open Api Core Tables Store Interleaving

structure HeartbeatRequest where
  workerId : WorkerId
  activeTasks : ℕ := 0
  agentHealthy : Bool := true
  /-- The reported use is above 90 per cent. -/
  cpuOver : Bool := false
  ramOver : Bool := false

def HeartbeatRequest.isOverloaded (req : HeartbeatRequest) : Bool := req.cpuOver || req.ramOver

def HeartbeatRequest.newStatus (req : HeartbeatRequest) : WorkerStatus :=
  if req.agentHealthy then .online else .degraded

/-- The row is written back as it was read, but for the status. -/
def writeBack (worker : WorkerRow) (status : WorkerStatus) : Call (Except ApiError Unit) := do
  match ← execute (.upsertWorker (worker.withStatus status)) with
  | .error e => return .error (.ofStore e)
  | .ok () => return .ok ()

def promote (req : HeartbeatRequest) (worker : WorkerRow) : Call (Except ApiError Unit) :=
  if worker.status ≠ .draining ∧ worker.status ≠ req.newStatus then
    writeBack worker req.newStatus
  else return .ok ()

/-- The answer is the state that the worker is asked to be in. -/
def selfDrain (req : HeartbeatRequest) (worker : WorkerRow) : Call (Except ApiError String) :=
  if req.isOverloaded ∨ worker.status = .draining then
    if worker.status ≠ .draining then
      (writeBack worker .draining).andThen fun _ => return .ok "drain"
    else return .ok "drain"
  else return .ok "running"

def heartbeat (req : HeartbeatRequest) : Call (Except ApiError String) := do
  match ← execute (.getWorker req.workerId) with
  | none => return .error (.notFound ("worker " ++ toString req.workerId))
  | some worker =>
    match ← execute (.updateWorkerHeartbeat req.workerId req.activeTasks) with
    | .error e => return .error (.ofStore e)
    | .ok () => (promote req worker).andThen fun _ => selfDrain req worker

structure RegisterRequest where
  name : String
  agentEndpoint : String
  labels : List (String × String) := []
  maxConcurrentTasks : ℕ := 4
  maxAgentProcesses : Option ℕ := none
  workerVersion : Option String := none
  livenessMode : WorkerLivenessMode := .periodic
  existingWorkerId : Option WorkerId := none

def validWorkerName (name : String) : Bool :=
  name.toList.all fun c => c.isAlphanum || c = '-' || c = '_' || c = '.'

def checkRegistration (req : RegisterRequest) : Except ApiError Unit :=
  if (trim req.name).isEmpty then .error (.badRequest "name must not be empty")
  else if (trim req.agentEndpoint).isEmpty then
    .error (.badRequest "agent_endpoint must not be empty")
  else if !validWorkerName (trim req.name) then
    .error (.badRequest "name must be alphanumeric, '-', '_', or '.' only")
  else .ok ()

def ambiguous (name : String) (byName byId : WorkerRow) : ApiError :=
  .conflict ("name '" ++ name ++ "' maps to worker " ++ toString byName.id ++
    " but existing_worker_id points to " ++ toString byId.id)

def checkSame (name : String) : Option WorkerRow → Option WorkerRow → Except ApiError Unit
  | some byName, some byId =>
    if byName.id ≠ byId.id then .error (ambiguous name byName byId) else .ok ()
  | _, _ => .ok ()

def buildWorker (req : RegisterRequest) (id : WorkerId) (now : ℤ) (existing : Option WorkerRow) :
    WorkerRow where
  id := id
  name := trim req.name
  endpoint := req.agentEndpoint
  labels := req.labels
  status := .online
  lastSeen := some now
  lastActivityAt := existing.bind fun w => w.lastActivityAt
  activeTasks := 0
  maxConcurrent := req.maxConcurrentTasks
  maxAgentProcesses := req.maxAgentProcesses
  circuitState := .closed
  workerVersion := req.workerVersion
  livenessMode := req.livenessMode
  registeredAt := (existing.map fun w => w.registeredAt).getD now
  incarnationStartedAt := (existing.map fun w => w.incarnationStartedAt).getD now

def findById : Option WorkerId → Call (Option WorkerRow)
  | some id => execute (.getWorker id)
  | none => return none

/-- The restart is stamped before the row is written. -/
def bumpIfKnown (known : Bool) (id : WorkerId) : Call Unit :=
  if known then do
    let _ ← execute (.bumpWorkerIncarnation id)
    return ()
  else return ()

def upsertAndRegister (worker : WorkerRow) : Call (Except ApiError WorkerId) := do
  match ← execute (.upsertWorker worker) with
  | .error e => return .error (.ofStore e)
  | .ok () => return .ok worker.id

/-- A worker that nobody knows gets the fresh id. -/
def registerWorker (req : RegisterRequest) (fresh : WorkerId) : Call (Except ApiError WorkerId) :=
  match checkRegistration req with
  | .error e => return .error e
  | .ok () => do
    let byName ← execute (.getWorkerByName (trim req.name))
    let byId ← findById req.existingWorkerId
    match checkSame (trim req.name) byName byId with
    | .error e => return .error e
    | .ok () => do
      let id := ((byId.or byName).map fun w => w.id).getD fresh
      let now ← execute .utcNow
      bumpIfKnown (byName.isSome || byId.isSome) id
      upsertAndRegister (buildWorker req id now (byName.or byId))

structure HealthConfig where
  checkInterval : ℕ := 15
  missedHeartbeatThreshold : ℕ := 3

def HealthConfig.graceDuration (config : HealthConfig) : ℤ :=
  config.checkInterval * config.missedHeartbeatThreshold

/-- The worker should have been heard of, and was not within the grace period. -/
def WorkerRow.expired (now grace : ℤ) (worker : WorkerRow) : Bool :=
  worker.livenessMode ≠ .onDemand && worker.lastSeen.any fun lastSeen => now - lastSeen > grace

def HealthConfig.missed (config : HealthConfig) (worker : WorkerRow) : String :=
  "heartbeat missed for more than " ++ toString config.graceDuration ++ "s (last_seen=" ++
    worker.lastSeen.elim "" toString ++ ")"

/-- The scan goes on where a write fails, and counts the others. -/
def markOffline (config : HealthConfig) (now : ℤ) : List WorkerRow → ℕ → Call ℕ
  | [], expired => return expired
  | worker :: all, expired =>
    if worker.expired now config.graceDuration then do
      match ← execute (.upsertWorker (worker.withStatus .offline)) with
      | .error _ => markOffline config now all expired
      | .ok () => do
        execute (.appendWorkerLeft worker.id (config.missed worker))
        markOffline config now all (expired + 1)
    else markOffline config now all expired

def scanOnce (config : HealthConfig) : Call ℕ := do
  let candidates ← execute (.listWorkers { status := some .online })
  let degraded ← execute (.listWorkers { status := some .degraded })
  let draining ← execute (.listWorkers { status := some .draining })
  let now ← execute .utcNow
  markOffline config now (candidates ++ degraded ++ draining) 0

inductive Activity where
  | heartbeat (req : HeartbeatRequest)
  | register (req : RegisterRequest) (fresh : WorkerId)
  | scan (config : HealthConfig)

inductive Outcome where
  | beaten (r : Except ApiError String)
  | registered (r : Except ApiError WorkerId)
  | scanned (expired : ℕ)

def program : Activity → Call Outcome
  | .heartbeat req => Outcome.beaten <$> heartbeat req
  | .register req fresh => Outcome.registered <$> registerWorker req fresh
  | .scan config => Outcome.scanned <$> scanOnce config

inductive Disturbance where
  | pass (seconds : ℕ)
  | edit (f : WorkerRow → WorkerRow)

def disturb : Disturbance → World → World
  | .pass seconds, w => { w with now := w.now + seconds }
  | .edit f, w =>
    { w with workers :=
        w.workers.updateWhere (fun _ => true) (WorkerRow.edited f) (WorkerRow.key_edited f) }

def workers (b : Backend) :
    Machine Op Op.Resp Unit Activity Outcome World (WorkerId → ℕ) Disturbance where
  program _ a := program a
  exec rank _ op w := some (op.effect b rank w)
  spawned _ _ := []
  accept _ _ w := some w
  disturb e w := some (disturb e w)

abbrev WorkersConfig := Config Op Op.Resp Unit Activity Outcome World
abbrev WorkersAction := Action Unit Activity (WorkerId → ℕ) Disturbance
abbrev Past := List (Entry Op Op.Resp)

end FleetOrchestrator.Health
