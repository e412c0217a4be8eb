import FleetOrchestrator.Issues.Issue
import FleetOrchestrator.Projects.Archive
import FleetOrchestrator.Scheduler.Dispatcher
import FleetOrchestrator.Submissions.Request

/-! The two surfaces that take submissions, up to what the dispatcher makes of them. -/

namespace FleetOrchestrator.Submissions

open Api Core Dashboard Issues Projects Scheduler Store Tables Interleaving

structure World where
  store : StoreState := .empty
  projects : ProjectTable := .empty
  /-- Every task id drawn so far. -/
  minted : List TaskId := []

inductive Op where
  | getTask (id : TaskId)
  | getProject (id : ProjectId)
  | getAgent (id : AgentId)
  /-- A new id, and the time. -/
  | newTask
  | insertTaskIdempotent (task : Task)
  /-- What the dispatcher does with a task that it has inserted. -/
  | dispatchInserted (task : Task)

abbrev Op.Resp : Op → Type
  | .getTask _ => Except StoreError (Option Task)
  | .getProject _ => Except StoreError (Option Project)
  | .getAgent _ => Except StoreError (Option Agent)
  | .newTask => TaskId × ℤ
  | .insertTaskIdempotent _ => Except StoreError IdempotentInsert
  | .dispatchInserted _ => Except DispatchError Unit

abbrev Call (α : Type) := Prog Op Op.Resp α

def execute (op : Op) : Call op.Resp := Prog.perform op

structure Choice where
  fault : Option StoreError := none
  taskRank : TaskId → ℕ := TaskId.uuid
  newId : TaskId := ⟨0⟩
  notDispatched : Option DispatchError := none

def attempt {α : Type} (ch : Choice) (w : World) (k : Except StoreError α × World) :
    Except StoreError α × World :=
  match ch.fault with
  | some e => (.error e, w)
  | none => k

/-- An id is drawn once. A dispatch does not fail as a submission does that conflicts. -/
def exec (b : Backend) (ch : Choice) : (op : Op) → World → Option (op.Resp × World)
  | .getTask id, w => some (attempt ch w (.ok (w.store.tasks.get id), w))
  | .getProject id, w => some (attempt ch w (.ok (w.projects.get id), w))
  | .getAgent id, w => some (attempt ch w (.ok (w.store.agents.get id), w))
  | .newTask, w =>
    if w.minted.contains ch.newId then none
    else some ((ch.newId, w.store.now), { w with minted := ch.newId :: w.minted })
  | .insertTaskIdempotent task, w =>
    let r := b.insertTaskIdempotent w.store ch.taskRank task
    some (attempt ch w (r.1, { w with store := r.2 }))
  | .dispatchInserted _, w =>
    match ch.notDispatched with
    | none => some (.ok (), w)
    | some (.idempotencyConflict _ _) => none
    | some e => some (.error e, w)

/-- Why a look into the store did not end well: the store failed, while it was looking for that, or
what it found is refused. -/
inductive Trouble (ε : Type) where
  | store (what : String) (e : StoreError)
  | refused (e : ε)

def ensureProjectAcceptsNewTasks (id : ProjectId) :
    Call (Except (Trouble ProjectAdmissionError) Project) := do
  match ← execute (.getProject id) with
  | .error e => return .error (.store "project" e)
  | .ok none => return .error (.refused (.notFound id))
  | .ok (some project) =>
    if !project.status.acceptsNewTasks then
      return .error (.refused (.notAccepting project.name project.status.asStr "tasks"))
    else
      return .ok project

def Trouble.asPin : Trouble ProjectAdmissionError → Trouble TaskPinError
  | .store what e => .store what e
  | .refused e => .refused (.project e)

def applyAgentPin (req : TaskRequest) : Call (Except (Trouble TaskPinError) TaskRequest) :=
  match req.agentId with
  | none => return .ok req
  | some agentId =>
    if req.serverHint.isSome then
      return .error (.refused .conflictingPins)
    else do
      match ← execute (.getAgent agentId) with
      | .error e => return .error (.store "agent" e)
      | .ok none => return .error (.refused (.agentNotFound agentId))
      | .ok (some agent) =>
        match req.projectId with
        | none =>
          match ← ensureProjectAcceptsNewTasks agent.projectId with
          | .error e => return .error e.asPin
          | .ok _ => return .ok { req with projectId := some agent.projectId }
        | some taskProject =>
          if taskProject ≠ agent.projectId then
            return .error (.refused (.projectMismatch taskProject agent.projectId))
          else
            return .ok req

/-- The submission up to the insertion; the dispatch is one operation. -/
def submit (D : Deployment) (task : Task) : Call (Except DispatchError TaskId) :=
  match validateWorkspaceCwd task.cwd with
  | .error e => return .error (.invalidRequest ("cwd: " ++ e.message))
  | .ok _ => do
    match ← execute (.insertTaskIdempotent (Dispatcher.routed D task)) with
    | .error e => return .error (.store e.message)
    | .ok (.duplicate existing) => return .ok existing.id
    | .ok (.conflict existing) =>
      return .error (.idempotencyConflict (task.idempotencyKey.getD "") existing)
    | .ok .inserted =>
      match ← execute (.dispatchInserted (Dispatcher.routed D task)) with
      | .error e => return .error e
      | .ok _ => return .ok task.id

/-- An identifier of a request: not there (or empty, in a form), not an identifier, or that one. -/
inductive Given (α : Type) where
  | absent
  | malformed
  | given (a : α)
  deriving DecidableEq

/-- What the two surfaces answer. -/
inductive Reply where
  | submitted (id : TaskId) (dispatched deduplicated : Bool)
  | notDispatched (id : TaskId) (warning : String)
  | failed (e : Dashboard.ApiError)
  | toolJson (id : TaskId) (status : TaskPhase) (deduplicated : Bool)
  | toolError (msg : String)
  | rpcFailed (e : JsonRpcError)
  deriving DecidableEq

structure Principal where
  username : String
  permissions : List PermissionKind := [.taskCreate]

structure SubmitTaskForm where
  prompt : String
  model : Option String := none
  serverHint : Option String := none
  customInstructions : Option String := none
  cwd : Option String := none
  priority : Option String := none
  maxTurns : Option ℕ := none
  timeoutSecs : Option ℕ := none
  parentTaskId : Given TaskId := .absent
  projectId : Given ProjectId := .absent
  agentId : Given AgentId := .absent
  idempotencyKey : Option String := none
  csrfValid : Bool := true

def nonEmpty (s : Option String) : Option String := s.filter fun t => t ≠ ""

/-- A key of nothing but blanks is none. -/
def trimmedKey (key : Option String) : Option String := nonEmpty (key.map trim)

def fullPrompt (form : SubmitTaskForm) : String :=
  match nonEmpty (form.customInstructions.map trim) with
  | some instr => instr ++ "\n\n---\n\n" ++ trim form.prompt
  | none => trim form.prompt

def formPriority : Option String → TaskPriority
  | some "low" => .low
  | some "high" => .high
  | _ => .normal

def formRequest (username : String) (form : SubmitTaskForm) (projectId : Option ProjectId)
    (agentId : Option AgentId) : TaskRequest :=
  { prompt := fullPrompt form
    cwd := nonEmpty form.cwd
    model := nonEmpty form.model
    serverHint := nonEmpty form.serverHint
    maxTurns := form.maxTurns
    timeoutSecs := form.timeoutSecs
    priority := formPriority form.priority
    createdBy := username
    projectId
    agentId
    idempotencyKey := trimmedKey form.idempotencyKey }

def pinFailed : Trouble TaskPinError → Dashboard.ApiError
  | .store _ e => .store e.message
  | .refused e => .badRequest e.message

def projectFailed : Trouble ProjectAdmissionError → Dashboard.ApiError
  | .store _ e => .store e.message
  | .refused e => .badRequest e.message

/-- The row of the parent, if the form names one. -/
def loadParent : Given TaskId → Call (Except Dashboard.ApiError (Option Task))
  | .absent => return .ok none
  | .malformed => return .error (.badRequest "invalid parent_task_id")
  | .given id => do
    match ← execute (.getTask id) with
    | .error e => return .error (.internal e.message)
    | .ok none => return .error (.badRequest "parent task not found")
    | .ok (some parent) => return .ok (some parent)

def inherited (task : Task) : Option Task → Task
  | none => task
  | some parent => inheritFromParent task parent

/-- What is checked when the task has its final fields. -/
def checkFinal (task : Task) : Call (Except Dashboard.ApiError Task) :=
  let checkCwd : Except Dashboard.ApiError Task :=
    match validateWorkspaceCwd task.cwd with
    | .error e => .error (.badRequest ("cwd: " ++ e.message))
    | .ok _ => .ok task
  match task.projectId with
  | none => return checkCwd
  | some id => do
    match ← ensureProjectAcceptsNewTasks id with
    | .error e => return .error (projectFailed e)
    | .ok _ => return checkCwd

/-- The pin is checked on the request, and the parent is applied to the task. -/
def buildTask (sha256 : List UInt8 → String) (req : TaskRequest) (parent : Option Task) :
    Call (Except Dashboard.ApiError Task) := do
  match ← applyAgentPin req with
  | .error e => return .error (pinFailed e)
  | .ok req =>
    let (id, now) ← execute .newTask
    checkFinal (inherited (fromRequest sha256 id now req) parent)

def given? {α : Type} (msg : String) : Given α → Except Dashboard.ApiError (Option α)
  | .absent => .ok none
  | .malformed => .error (.badRequest msg)
  | .given a => .ok (some a)

/-- The task that a form makes, if nothing speaks against it. -/
def admitForm (sha256 : List UInt8 → String) (principal : Principal) (configured : Bool)
    (form : SubmitTaskForm) : Call (Except Dashboard.ApiError Task) :=
  if !principal.permissions.contains .taskCreate then
    return .error permissionDenied
  else if !form.csrfValid then
    return .error (.forbidden "CSRF token invalid")
  else if trim form.prompt = "" then
    return .error (.badRequest "prompt must not be empty")
  else if !configured then
    return .error (.unavailable "task submission is not configured")
  else do
    match ← loadParent form.parentTaskId with
    | .error e => return .error e
    | .ok parent =>
      match given? "invalid project_id" form.projectId with
      | .error e => return .error e
      | .ok projectId =>
        match given? "invalid agent_id" form.agentId with
        | .error e => return .error e
        | .ok agentId =>
          buildTask sha256 (formRequest principal.username form projectId agentId) parent

def conflictMessage (key : String) (existing : TaskId) : String :=
  "idempotency key '" ++ key ++ "' was already used with a different payload (existing task " ++
    toString existing ++ ")"

/-- The row as it is after the submission, for the answer. -/
def isDispatched : Except StoreError (Option Task) → Bool
  | .ok (some t) => t.status.isDispatched
  | .ok none | .error _ => true

def submitTaskApi (D : Deployment) (sha256 : List UInt8 → String) (principal : Principal)
    (configured : Bool) (form : SubmitTaskForm) : Call Reply := do
  match ← admitForm sha256 principal configured form with
  | .error e => return .failed e
  | .ok task =>
    match ← submit D task with
    | .ok id =>
      let found ← execute (.getTask id)
      return .submitted id (isDispatched found) (id ≠ task.id)
    | .error (.idempotencyConflict key existing) =>
      return .failed (.conflict (conflictMessage key existing))
    | .error e => return .notDispatched task.id e.message

/-- An identifier of the arguments of a tool. -/
inductive Arg (α : Type) where
  | absent
  | notText
  | malformed
  | given (a : α)
  deriving DecidableEq

structure DispatchArgs where
  prompt : Option String
  cwd : Option String := none
  model : Option String := none
  serverHint : Option String := none
  requiredLabels : List String := []
  maxTurns : Option ℕ := none
  timeoutSecs : Option ℕ := none
  projectId : Arg ProjectId := .absent
  agentId : Arg AgentId := .absent
  skillsRequired : List String := []
  idempotencyKey : Option String := none

def rpcPinFailed : Trouble TaskPinError → JsonRpcError
  | .store what e => .internal ("failed to look up " ++ what ++ ": " ++ e.message)
  | .refused e => .invalidParams e.message

def rpcProjectFailed : Trouble ProjectAdmissionError → JsonRpcError
  | .store what e => .internal ("failed to look up " ++ what ++ ": " ++ e.message)
  | .refused e => .invalidParams e.message

def argsRequest (createdBy prompt : String) (args : DispatchArgs) (projectId : Option ProjectId)
    (agentId : Option AgentId) : TaskRequest :=
  { prompt
    cwd := args.cwd
    model := args.model
    serverHint := args.serverHint
    requiredLabels := args.requiredLabels
    maxTurns := args.maxTurns
    timeoutSecs := args.timeoutSecs
    createdBy
    projectId
    agentId
    skillsRequired := args.skillsRequired
    idempotencyKey := trimmedKey args.idempotencyKey }

/-- The project that the arguments name has to accept tasks. -/
def argsProject : Arg ProjectId → Call (Except JsonRpcError (Option ProjectId))
  | .absent => return .ok none
  | .notText => return .error (.invalidParams "project_id must be a UUID string")
  | .malformed => return .error (.invalidParams "project_id must be a UUID")
  | .given id => do
    match ← ensureProjectAcceptsNewTasks id with
    | .error e => return .error (rpcProjectFailed e)
    | .ok _ => return .ok (some id)

def argsAgent : Arg AgentId → Except JsonRpcError (Option AgentId)
  | .absent => .ok none
  | .notText => .error (.invalidParams "agent_id must be a UUID string")
  | .malformed => .error (.invalidParams "agent_id must be a UUID")
  | .given id => .ok (some id)

def admitArgs (sha256 : List UInt8 → String) (createdBy : String) (args : DispatchArgs) :
    Call (Except JsonRpcError Task) :=
  match args.prompt with
  | none => return .error (.invalidParams "missing required field: prompt")
  | some prompt =>
    if trim prompt = "" then
      return .error (.invalidParams "prompt must not be empty")
    else
      match validateWorkspaceCwd args.cwd with
      | .error e => return .error (.invalidParams ("cwd: " ++ e.message))
      | .ok _ => do
        match ← argsProject args.projectId with
        | .error e => return .error e
        | .ok projectId =>
          match argsAgent args.agentId with
          | .error e => return .error e
          | .ok agentId =>
            match ← applyAgentPin (argsRequest createdBy prompt args projectId agentId) with
            | .error e => return .error (rpcPinFailed e)
            | .ok req =>
              let (id, now) ← execute .newTask
              return .ok (fromRequest sha256 id now req)

/-- A row that cannot be read is taken for dispatched. -/
def statusOf : Except StoreError (Option Task) → TaskPhase
  | .ok (some t) => t.phase
  | .ok none | .error _ => .dispatched

def handleDispatchTask (D : Deployment) (sha256 : List UInt8 → String) (createdBy : String)
    (args : DispatchArgs) : Call Reply := do
  match ← admitArgs sha256 createdBy args with
  | .error e => return .rpcFailed e
  | .ok task =>
    match ← submit D task with
    | .ok id =>
      let found ← execute (.getTask id)
      return .toolJson id (statusOf found) (id ≠ task.id)
    | .error e =>
      return .toolError ("dispatch failed: " ++ e.message ++ " (task_id=" ++ toString task.id ++ ")")

inductive Activity where
  | submitTask (principal : Principal) (configured : Bool) (form : SubmitTaskForm)
  | dispatchTask (createdBy : String) (args : DispatchArgs)

def program (D : Deployment) (sha256 : List UInt8 → String) : Activity → Call Reply
  | .submitTask principal configured form => submitTaskApi D sha256 principal configured form
  | .dispatchTask createdBy args => handleDispatchTask D sha256 createdBy args

/-- What no other writer of the store changes in a task. -/
structure Lasting where
  stamp : TaskId × String × Option String × Option String
  threadId : TaskId
  serverHint : Option String
  cwd : Option String
  model : Option String
  projectId : Option ProjectId
  deriving DecidableEq

def lasting (t : Task) : Lasting :=
  ⟨stamp t, t.threadId, t.serverHint, t.cwd, t.model, t.projectId⟩

/-- Tasks may be changed and removed, but not added. -/
def keepsTasks (s s' : StoreState) : Bool :=
  s'.tasks.rows.all fun t => (s.tasks.get t.id).any fun t₀ => lasting t₀ = lasting t

/-- Everything else that happens in the store. -/
structure Others where
  store : StoreState
  projects : ProjectTable

def clients (D : Deployment) (sha256 : List UInt8 → String) :
    Machine Op Op.Resp Unit Activity Reply World Choice Others where
  program _ a := program D sha256 a
  exec ch _ op w := exec D.backend ch op w
  spawned _ _ := []
  accept _ _ w := some w
  disturb o w :=
    if keepsTasks w.store o.store then some { w with store := o.store, projects := o.projects }
    else none

abbrev SubmissionConfig := Config Op Op.Resp Unit Activity Reply World
abbrev SubmissionAction := Action Unit Activity Choice Others
abbrev History := List (Entry Op Op.Resp)

end FleetOrchestrator.Submissions
