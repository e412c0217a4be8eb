import FleetOrchestrator.Agents.Calls
import FleetOrchestrator.Store.Submissions

/-! Projects, and what one step of a store call reads or writes of them. -/

namespace FleetOrchestrator.Projects

open Core Tables Store Interleaving

inductive ProjectStatus where
  | active
  | draining
  | archived
  deriving DecidableEq, Repr

namespace ProjectStatus

def asStr : ProjectStatus → String
  | active => "active"
  | draining => "draining"
  | archived => "archived"

def acceptsNewTasks : ProjectStatus → Bool
  | active => true
  | draining | archived => false

end ProjectStatus

structure Project where
  id : ProjectId
  name : String
  status : ProjectStatus := .active
  createdAt : ℤ
  updatedAt : ℤ
  deriving DecidableEq

def Project.withStatus (now : ℤ) (status : ProjectStatus) (p : Project) : Project :=
  { p with status, updatedAt := now }

@[simp] theorem Project.withStatus_id (now : ℤ) (status : ProjectStatus) (p : Project) :
    (p.withStatus now status).id = p.id := rfl

abbrev ProjectTable := Keyed ProjectId Project Project.id

structure World where
  store : StoreState
  projects : ProjectTable

/-- The task keeps its project from being archived, and the agent too. -/
def activeIn (id : ProjectId) (t : Task) : Bool := t.projectId = some id && !t.isTerminal

def liveIn (id : ProjectId) (a : Agent) : Bool := a.projectId = id && a.status ≠ .stopped

namespace World

def status (w : World) (id : ProjectId) : Option ProjectStatus :=
  (w.projects.get id).map Project.status

def hasActiveTasks (w : World) (id : ProjectId) : Bool := w.store.tasks.rows.any (activeIn id)

def hasLiveAgents (w : World) (id : ProjectId) : Bool := w.store.agents.rows.any (liveIn id)

def isDraining (w : World) (id : ProjectId) : Bool := w.status id = some .draining

/-- The condition of a query on the lease table. -/
def leaseHolds (w : World) (fence : Option ControlFence) : Bool := fence.all w.store.leaseExists

/-- The condition of the update that archives. -/
def mayArchive (w : World) (id : ProjectId) (fence : Option ControlFence) : Bool :=
  w.isDraining id && !w.hasActiveTasks id && !w.hasLiveAgents id && w.leaseHolds fence

def setStatus (w : World) (id : ProjectId) (status : ProjectStatus) : Bool × World :=
  let projects := w.projects.modify id (fun p => p.withStatus w.store.now status) fun p =>
    p.withStatus_id w.store.now status
  (w.projects.contains id, { w with projects })

/-- The tables as the foreign key of an agent's project sees them. -/
def referenced (w : World) : StoreState := { w.store with projects := w.projects.rows.map Project.id }

end World

/-- The steps of the store calls. A locked one is a step of the in-memory store, whose archive takes
one lock after the other. -/
inductive Op where
  | getProject (id : ProjectId)
  | getTask (id : TaskId)
  | getAgent (id : AgentId)
  | placeOnCreate
  | readFence (fence : Option ControlFence)
  | statusLocked (id : ProjectId) (status : ProjectStatus)
  | updateStatus (id : ProjectId) (status : ProjectStatus) (fence : Option ControlFence)
  | isDraining (id : ProjectId)
  | hasActiveTasks (id : ProjectId)
  | hasLiveAgents (id : ProjectId)
  | archiveLocked (id : ProjectId)
  | archiveDrained (id : ProjectId) (fence : Option ControlFence)
  /-- The callback that reports a change of the status. -/
  | onTransition (id : ProjectId) (status : ProjectStatus)
  | task (op : Store.Statement)
  | agent (op : Agents.Statement)

abbrev Op.Resp : Op → Type
  | .getProject _ => Option Project
  | .getTask _ => Option Task
  | .getAgent _ => Option Agent
  | .placeOnCreate => Option (WorkerId × ℤ)
  | .readFence _ => Bool
  | .statusLocked _ _ => Bool
  | .updateStatus _ _ _ => Bool
  | .isDraining _ => Bool
  | .hasActiveTasks _ => Bool
  | .hasLiveAgents _ => Bool
  | .archiveLocked _ => Bool
  | .archiveDrained _ _ => Bool
  | .onTransition _ _ => Unit
  | .task op => op.Resp
  | .agent op => op.Resp

abbrev Call (α : Type) := Prog Op Op.Resp α

def execute (op : Op) : Call op.Resp := Prog.perform op

/-- The orders in which the maps list their entries, and where the placement would put an agent. -/
structure Choice where
  taskRank : TaskId → ℕ := TaskId.uuid
  agentRank : AgentId → ℕ := AgentId.uuid
  placement : Option (WorkerId × ℤ) := none

def Op.exec (ch : Choice) : (op : Op) → World → op.Resp × World
  | .getProject id, w => (w.projects.get id, w)
  | .getTask id, w => (w.store.tasks.get id, w)
  | .getAgent id, w => (w.store.agents.get id, w)
  | .placeOnCreate, w => (ch.placement, w)
  | .readFence fence, w => (w.store.controlFenceHolds fence, w)
  | .statusLocked id status, w => w.setStatus id status
  | .updateStatus id status fence, w =>
    if w.leaseHolds fence then w.setStatus id status else (false, w)
  | .isDraining id, w => (w.isDraining id, w)
  | .hasActiveTasks id, w => (w.hasActiveTasks id, w)
  | .hasLiveAgents id, w => (w.hasLiveAgents id, w)
  | .archiveLocked id, w => if w.isDraining id then w.setStatus id .archived else (false, w)
  | .archiveDrained id fence, w =>
    if w.mayArchive id fence then w.setStatus id .archived else (false, w)
  | .onTransition _ _, w => ((), w)
  | .task op, w =>
    let r := op.exec ch.taskRank w.store
    (r.1, { w with store := r.2 })
  | .agent op, w =>
    let r := op.effect ch.agentRank w.referenced
    (r.1, { w with store := r.2 })

namespace MemStore

def updateProjectStatus (id : ProjectId) (status : ProjectStatus) (fence : Option ControlFence) :
    Call Bool := do
  if !(← execute (.readFence fence)) then
    return false
  execute (.statusLocked id status)

def archiveProjectIfDrained (id : ProjectId) (fence : Option ControlFence) : Call Bool := do
  if !(← execute (.readFence fence)) then
    return false
  if !(← execute (.isDraining id)) then
    return false
  if ← execute (.hasActiveTasks id) then
    return false
  if ← execute (.hasLiveAgents id) then
    return false
  execute (.archiveLocked id)

end MemStore

def updateProjectStatus (b : Backend) (id : ProjectId) (status : ProjectStatus)
    (fence : Option ControlFence) : Call Bool :=
  match b with
  | .mem => MemStore.updateProjectStatus id status fence
  | .pg => execute (.updateStatus id status fence)

def archiveProjectIfDrained (b : Backend) (id : ProjectId) (fence : Option ControlFence) :
    Call Bool :=
  match b with
  | .mem => MemStore.archiveProjectIfDrained id fence
  | .pg => execute (.archiveDrained id fence)

section Frames

variable {ch : Choice} {w : World} {id other : ProjectId} {status : ProjectStatus}

theorem status_setStatus :
    (w.setStatus id status).2.status other =
      if other = id then (w.status id).map fun _ => status else w.status other := by
  unfold World.status World.setStatus
  split_ifs with h
  · subst h
    rw [Keyed.get_modify_self, Option.map_map, Option.map_map]
    rfl
  · rw [Keyed.get_modify_ne h]

theorem setStatus_found : (w.setStatus id status).1 = (w.status id).isSome := by
  change w.projects.contains id = _
  rw [Keyed.contains_eq, World.status, Option.isSome_map]

theorem leaseHolds_eq (fence : Option ControlFence) :
    w.leaseHolds fence = w.store.controlFenceHolds fence := by
  cases fence with
  | none => rfl
  | some f => exact leaseExists_eq

/-- Run with nobody in between, the two archive operations are one. -/
theorem archive_agree (fence : Option ControlFence) :
    (archiveProjectIfDrained .mem id fence).alone (Op.exec ch) w =
      (archiveProjectIfDrained .pg id fence).alone (Op.exec ch) w := by
  simp only [archiveProjectIfDrained, MemStore.archiveProjectIfDrained, execute,
    Prog.perform_bind, Prog.alone, Op.exec]
  have hone : (Prog.perform (Op.archiveDrained id fence) : Call Bool).alone (Op.exec ch) w =
      Op.exec ch (.archiveDrained id fence) w := rfl
  rw [hone, Op.exec, World.mayArchive, leaseHolds_eq]
  by_cases hf : w.store.controlFenceHolds fence = true
  · by_cases hd : w.isDraining id = true
    · by_cases ht : w.hasActiveTasks id = true
      · simp [Prog.alone, Op.exec, hf, hd, ht]
      · by_cases ha : w.hasLiveAgents id = true
        · simp [Prog.alone, Op.exec, hf, hd, ht, ha]
        · simp [Prog.alone, Prog.perform, Op.exec, hf, hd, ht, ha]
    · simp [Prog.alone, Op.exec, hf, hd]
  · simp [Prog.alone, hf]

end Frames

end FleetOrchestrator.Projects
