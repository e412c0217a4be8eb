import FleetOrchestrator.Interleaving.Program
import FleetOrchestrator.Projects.Projects

/-! The archive of a project, and the submissions and agent creations that look at the project
before they insert. -/

namespace FleetOrchestrator.Projects

open Core Tables Store Interleaving

inductive ProjectAdmissionError where
  | notFound (id : ProjectId)
  | notAccepting (name status what : String)
  deriving DecidableEq

def ProjectAdmissionError.message : ProjectAdmissionError → String
  | notFound id => "no such project: " ++ toString id.uuid
  | notAccepting name status what =>
    "project '" ++ name ++ "' is " ++ status ++ " and does not accept new " ++ what

def ensureProjectActive (id : ProjectId) (what : String) :
    Call (Except ProjectAdmissionError Project) := do
  match ← execute (.getProject id) with
  | none => return .error (.notFound id)
  | some project =>
    if !project.status.acceptsNewTasks then
      return .error (.notAccepting project.name project.status.asStr what)
    else
      return .ok project

def ensureProjectAcceptsNewTasks (id : ProjectId) : Call (Except ProjectAdmissionError Project) :=
  ensureProjectActive id "tasks"

def ensureProjectAcceptsNewAgents (id : ProjectId) :
    Call (Except ProjectAdmissionError Project) :=
  ensureProjectActive id "agents"

structure ArchiveBlockers where
  activeTasks : Bool
  liveAgents : Bool
  deriving DecidableEq

def ArchiveBlockers.any (x : ArchiveBlockers) : Bool := x.activeTasks || x.liveAgents

def ArchiveBlockers.labels (x : ArchiveBlockers) : List String :=
  (if x.activeTasks then ["tasks"] else []) ++ if x.liveAgents then ["agents"] else []

inductive ArchiveProgress where
  | draining (blockers : ArchiveBlockers)
  | archived
  | fenced
  deriving DecidableEq

/-- What holds the project back, or who was faster. -/
def whyClosed (id : ProjectId) : Call ArchiveProgress := do
  let activeTasks ← execute (.hasActiveTasks id)
  let liveAgents ← execute (.hasLiveAgents id)
  let blockers : ArchiveBlockers := { activeTasks, liveAgents }
  if blockers.any then
    return .draining blockers
  let current ← execute (.getProject id)
  if current.any fun p => p.status = .archived then
    return .archived
  else
    return .fenced

/-- The gate is tried first, and asked afterwards why it did not open. -/
def finishArchive (b : Backend) (id : ProjectId) (fence : Option ControlFence) :
    Call ArchiveProgress := do
  if ← archiveProjectIfDrained b id fence then
    execute (.onTransition id .archived)
    return .archived
  whyClosed id

/-- It goes by the status of the project as the caller read it. -/
def advanceProjectArchive (b : Backend) (project : Project) (fence : Option ControlFence) :
    Call ArchiveProgress := do
  match project.status with
  | .active =>
    if !(← updateProjectStatus b project.id .draining fence) then
      return .fenced
    execute (.onTransition project.id .draining)
    finishArchive b project.id fence
  | .draining => finishArchive b project.id fence
  | .archived => return .archived

def handleArchiveProject (b : Backend) (id : ProjectId) (fence : Option ControlFence) :
    Call (Option ArchiveProgress) := do
  match ← execute (.getProject id) with
  | none => return none
  | some project => some <$> advanceProjectArchive b project fence

inductive TaskPinError where
  | agentNotFound (id : AgentId)
  | conflictingPins
  | projectMismatch (taskProject agentProject : ProjectId)
  | project (e : ProjectAdmissionError)
  deriving DecidableEq

def TaskPinError.message : TaskPinError → String
  | agentNotFound id => "no such agent: " ++ toString id
  | conflictingPins =>
    "agent_id and server_hint cannot be given together — agent_id already implies a worker"
  | projectMismatch taskProject agentProject =>
    "task project " ++ toString taskProject.uuid ++ " does not match agent project " ++
      toString agentProject.uuid
  | project e => e.message

/-- The request is given as the task that it becomes. -/
def applyAgentPin (req : Task) : Call (Except TaskPinError Task) :=
  match req.agentId with
  | none => return .ok req
  | some agentId => do
    if req.serverHint.isSome then
      return .error .conflictingPins
    match ← execute (.getAgent agentId) with
    | none => return .error (.agentNotFound agentId)
    | some agent =>
      match req.projectId with
      | none =>
        match ← ensureProjectAcceptsNewTasks agent.projectId with
        | .error e => return .error (.project e)
        | .ok _ => return .ok { req with projectId := some agent.projectId }
      | some taskProject =>
        if taskProject ≠ agent.projectId then
          return .error (.projectMismatch taskProject agent.projectId)
        else
          return .ok req

def inheritFromParent (task parent : Task) : Task :=
  { task with
    parentTaskId := some parent.id
    threadId := parent.threadId
    serverHint := task.serverHint.or parent.serverHint
    cwd := task.cwd.or parent.cwd
    model := task.model.or parent.model
    projectId := task.projectId.or parent.projectId }

inductive Refusal where
  | project (e : ProjectAdmissionError)
  | pin (e : TaskPinError)
  | parentNotFound
  | store (e : StoreError)

def insertTask (b : Backend) (task : Task) : Call (Except StoreError IdempotentInsert) :=
  (match b with
    | .mem => Store.MemStore.serveInsert task
    | .pg => Store.PgStore.serveInsert task).embed .task fun _ r => r

def insertAgent (b : Backend) (agent : Agent) : Call (Except StoreError (Option WorkerId)) :=
  (match b with
    | .mem => Agents.MemStore.createAgent agent
    | .pg => Agents.PgStore.createAgent agent).embed .agent fun _ r => r

/-- The submission up to the insertion; what the dispatch does then are moves of the task's
status. -/
def submit (b : Backend) (task : Task) : Call (Except Refusal IdempotentInsert) := do
  match ← insertTask b task with
  | .error e => return .error (.store e)
  | .ok r => return .ok r

def submitPinned (b : Backend) (req : Task) : Call (Except Refusal IdempotentInsert) := do
  match ← applyAgentPin req with
  | .error e => return .error (.pin e)
  | .ok task => submit b task

def handleDispatchTask (b : Backend) (req : Task) : Call (Except Refusal IdempotentInsert) :=
  match req.projectId with
  | none => submitPinned b req
  | some id => do
    match ← ensureProjectAcceptsNewTasks id with
    | .error e => return .error (.project e)
    | .ok _ => submitPinned b req

/-- The project is looked at when the task has its final one. -/
def submitAdmitted (b : Backend) (task : Task) : Call (Except Refusal IdempotentInsert) :=
  match task.projectId with
  | none => submit b task
  | some id => do
    match ← ensureProjectAcceptsNewTasks id with
    | .error e => return .error (.project e)
    | .ok _ => submit b task

def submitTaskApi (b : Backend) (req : Task) : Option TaskId →
    Call (Except Refusal IdempotentInsert)
  | none => do
    match ← applyAgentPin req with
    | .error e => return .error (.pin e)
    | .ok task => submitAdmitted b task
  | some parentId => do
    match ← execute (.getTask parentId) with
    | none => return .error .parentNotFound
    | some parent =>
      match ← applyAgentPin req with
      | .error e => return .error (.pin e)
      | .ok task => submitAdmitted b (inheritFromParent task parent)

def placedBy (agent : Agent) : Option (WorkerId × ℤ) → Agent
  | none => agent
  | some (w, assignedAt) => { agent with workerId := some w, assignedAt := some assignedAt }

def handleCreateAgent (b : Backend) (agent : Agent) : Call (Except Refusal (Option WorkerId)) := do
  match ← ensureProjectAcceptsNewAgents agent.projectId with
  | .error e => return .error (.project e)
  | .ok _ =>
    let placement ← execute .placeOnCreate
    match ← insertAgent b (placedBy agent placement) with
    | .error e => return .error (.store e)
    | .ok placed => return .ok placed

inductive Activity where
  | archiveProject (id : ProjectId) (fence : Option ControlFence)
  | dispatchTask (req : Task)
  | submitTask (req : Task) (parentTaskId : Option TaskId)
  | createAgent (agent : Agent)

inductive Outcome where
  | archive (r : Option ArchiveProgress)
  | submitted (r : Except Refusal IdempotentInsert)
  | created (r : Except Refusal (Option WorkerId))

def program (b : Backend) : Activity → Call Outcome
  | .archiveProject id fence => Outcome.archive <$> handleArchiveProject b id fence
  | .dispatchTask req => Outcome.submitted <$> handleDispatchTask b req
  | .submitTask req parent => Outcome.submitted <$> submitTaskApi b req parent
  | .createAgent agent => Outcome.created <$> handleCreateAgent b agent

/-- A new task is pending and unplaced, a new agent ready and unplaced. -/
def Activity.isNew : Activity → Bool
  | .archiveProject _ _ => true
  | .dispatchTask req | .submitTask req _ => req.status = .pending
  | .createAgent agent => Agents.isNew agent && agent.workerId.isNone

inductive Disturbance where
  | others (s : StoreState)
  | createProject (p : Project)

/-- Nobody else gives a project a task or an agent, or brings one back to life. -/
def keepsIdle (s s' : StoreState) : Bool :=
  (s'.tasks.rows.all fun t => t.isTerminal || t.projectId.isNone ||
    (s.tasks.get t.id).any fun t₀ => t₀.projectId = t.projectId && !t₀.isTerminal) &&
  s'.agents.rows.all fun a => a.status = .stopped ||
    (s.agents.get a.id).any fun a₀ => a₀.projectId = a.projectId && a₀.status ≠ .stopped

def disturb : Disturbance → World → Option World
  | .others s, w => if keepsIdle w.store s then some { w with store := s } else none
  | .createProject p, w =>
    if p.status = .active && !w.projects.contains p.id &&
        !w.projects.rows.any fun q => q.name = p.name then
      some { w with projects := w.projects.put p }
    else none

/-- Any number of callers of one store, and everything else that happens in it. -/
def callers (b : Backend) :
    Machine Op Op.Resp Unit Activity Outcome World Choice Disturbance where
  program _ a := program b a
  exec ch _ op w := some (op.exec ch w)
  spawned _ _ := []
  accept _ a w := if a.isNew then some w else none
  disturb := disturb

abbrev ProjectConfig := Config Op Op.Resp Unit Activity Outcome World
abbrev ProjectAction := Action Unit Activity Choice Disturbance
abbrev History := List (Entry Op Op.Resp)

end FleetOrchestrator.Projects
