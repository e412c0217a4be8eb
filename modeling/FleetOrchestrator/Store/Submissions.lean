import FleetOrchestrator.Store.Tasks
import FleetOrchestrator.Interleaving.Discipline

/-! Insertions and deletions of tasks statement by statement. What happens under one lock, or in
one SQL statement, is atomic; the statements of any number of clients interleave. -/

namespace FleetOrchestrator.Store

open Core Tables Interleaving

inductive Statement where
  | insertLocked (t : Task)
  | insertTaskRow (t : Task) (doNothing : Bool)
  | selectByKey (createdBy key : String)
  | selectDependents (id : TaskId)
  | removeLocked (id : TaskId)
  | removeOutputs (id : TaskId)
  | orphanChildren (id : TaskId)
  | deleteTerminal (id : TaskId)
  | selectPhase (id : TaskId)

abbrev Statement.Resp : Statement → Type
  | .insertLocked _ => Except StoreError IdempotentInsert
  | .insertTaskRow _ _ => Except StoreError ℕ
  | .selectByKey _ _ => Option Task
  | .selectDependents _ => List TaskId
  | .removeLocked _ => Except StoreError TaskDeleteOutcome
  | .removeOutputs _ => Unit
  | .orphanChildren _ => Unit
  | .deleteTerminal _ => ℕ
  | .selectPhase _ => Option TaskPhase

abbrev Client (α : Type) := Prog Statement Statement.Resp α

def execute (op : Statement) : Client op.Resp := Prog.perform op

/-- The row has the creator and the key of the task, which has one. -/
def sameScope (t other : Task) : Bool :=
  match t.idempotencyKey with
  | none => false
  | some key => sameKey t key other

def selectByKey (s : StoreState) (rank : TaskId → ℕ) (createdBy key : String) : Option Task :=
  (inOrder rank Task.id s.tasks.rows).find? fun other =>
    other.createdBy = createdBy && other.idempotencyKey = some key

namespace MemStore

def removeLocked (s : StoreState) (id : TaskId) :
    Except StoreError TaskDeleteOutcome × StoreState :=
  match s.tasks.get id with
  | none => (.error .notFound, s)
  | some t =>
    if !t.phase.isTerminal then (.ok (.notTerminal t.phase), s)
    else (.ok .deleted, { s with tasks := s.tasks.erase id })

def removeOutputs (s : StoreState) (id : TaskId) : StoreState :=
  { s with outputs := s.outputs.filter fun o => o.1 ≠ id }

def orphanChildren (s : StoreState) (id : TaskId) : StoreState :=
  { s with tasks := s.tasks.updateWhere (fun _ => true) (dropParent id) (dropParent_id id) }

def serveInsert (t : Task) : Client (Except StoreError IdempotentInsert) :=
  execute (.insertLocked t)

def serveDelete (id : TaskId) : Client (Except StoreError TaskDeleteOutcome) := do
  let dependentIds ← execute (.selectDependents id)
  if dependentIds ≠ [] then
    return .ok (.blockedByDependents dependentIds)
  match ← execute (.removeLocked id) with
  | .ok .deleted =>
    execute (.removeOutputs id)
    execute (.orphanChildren id)
    return .ok .deleted
  | other => return other

end MemStore

namespace PgStore

/-- The constraint `tasks_idempotency_pair_complete`. -/
def pairComplete (t : Task) : Bool :=
  t.idempotencyKey.isNone = t.idempotencyPayloadHash.isNone

/-- The foreign key of `parent_task_id`; a row may refer to itself. -/
def parentExists (s : StoreState) (t : Task) : Bool :=
  match t.parentTaskId with
  | none => true
  | some parent => parent = t.id || s.tasks.contains parent

def agentExists (s : StoreState) (t : Task) : Bool :=
  match t.agentId with
  | none => true
  | some agent => s.agents.contains agent

def refused (reason : String) : StoreError := .sqlx ("error returned from database: " ++ reason)

def pairIncomplete : StoreError :=
  refused "new row for relation \"tasks\" violates check constraint \"tasks_idempotency_pair_complete\""

def duplicateScope : StoreError :=
  refused "duplicate key value violates unique constraint \"idx_tasks_idempotency\""

def missingReference (constraint : String) : StoreError :=
  refused ("insert or update on table \"tasks\" violates foreign key constraint \"" ++ constraint ++
    "\"")

/-- A check constraint is looked at before a conflict with the index that `DO NOTHING` names, that
one before the other unique indexes, and the foreign keys last. -/
def insertTaskRow (s : StoreState) (t : Task) (doNothing : Bool) :
    Except StoreError ℕ × StoreState :=
  if !pairComplete t then (.error pairIncomplete, s)
  else if doNothing && s.tasks.rows.any (sameScope t) then (.ok 0, s)
  else if s.tasks.contains t.id then (.error duplicateKey, s)
  else if s.tasks.rows.any (sameScope t) then (.error duplicateScope, s)
  else if !parentExists s t then (.error (missingReference "tasks_parent_task_id_fkey"), s)
  else if !agentExists s t then (.error (missingReference "tasks_agent_id_fkey"), s)
  else (.ok 1, withTask s (insertedRow t))

def deleteTerminal (s : StoreState) (id : TaskId) : ℕ × StoreState :=
  match s.tasks.get id with
  | none => (0, s)
  | some t => if t.phase.isTerminal then (1, withoutTask s id) else (0, s)

def vanished (key createdBy : String) : StoreError :=
  .conflict ("idempotency key '" ++ key ++ "' for '" ++ createdBy ++
    "' vanished between insert and lookup")

def serveInsert (t : Task) : Client (Except StoreError IdempotentInsert) := do
  match t.idempotencyKey with
  | none =>
    match ← execute (.insertTaskRow t false) with
    | .error e => return .error e
    | .ok _ => return .ok .inserted
  | some key =>
    match ← execute (.insertTaskRow t true) with
    | .error e => return .error e
    | .ok inserted =>
      if 0 < inserted then
        return .ok .inserted
      match ← execute (.selectByKey t.createdBy key) with
      | none => return .error (vanished key t.createdBy)
      | some existing => return .ok (judgeExisting t existing)

def serveDelete (id : TaskId) : Client (Except StoreError TaskDeleteOutcome) := do
  let dependentIds ← execute (.selectDependents id)
  if dependentIds ≠ [] then
    return .ok (.blockedByDependents dependentIds)
  let deleted ← execute (.deleteTerminal id)
  if 0 < deleted then
    return .ok .deleted
  match ← execute (.selectPhase id) with
  | none => return .error .notFound
  | some current => return .ok (.notTerminal current)

end PgStore

namespace Statement

def exec (rank : TaskId → ℕ) : (op : Statement) → StoreState → op.Resp × StoreState
  | .insertLocked t, s => MemStore.insertTaskIdempotent s rank t
  | .insertTaskRow t doNothing, s => PgStore.insertTaskRow s t doNothing
  | .selectByKey createdBy key, s => (Store.selectByKey s rank createdBy key, s)
  | .selectDependents id, s => (pendingDependents s rank id, s)
  | .removeLocked id, s => MemStore.removeLocked s id
  | .removeOutputs id, s => ((), MemStore.removeOutputs s id)
  | .orphanChildren id, s => ((), MemStore.orphanChildren s id)
  | .deleteTerminal id, s => PgStore.deleteTerminal s id
  | .selectPhase id, s => ((s.tasks.get id).map Task.phase, s)

end Statement

inductive Request where
  | insert (t : Task)
  | delete (id : TaskId)

inductive Reply where
  | inserted (r : Except StoreError IdempotentInsert)
  | deleted (r : Except StoreError TaskDeleteOutcome)

def serve : Backend → Request → Client Reply
  | .mem, .insert t => Reply.inserted <$> MemStore.serveInsert t
  | .mem, .delete id => Reply.deleted <$> MemStore.serveDelete id
  | .pg, .insert t => Reply.inserted <$> PgStore.serveInsert t
  | .pg, .delete id => Reply.deleted <$> PgStore.serveDelete id

/-- What no other writer of the store changes in a task. -/
def stamp (t : Task) : TaskId × String × Option String × Option String :=
  (t.id, t.createdBy, t.idempotencyKey, t.idempotencyPayloadHash)

/-- The clients of one store. Any other writer may change it at any time, but inserts and deletes
no task and leaves the stamps of all tasks. -/
def clients (b : Backend) :
    Machine Statement Statement.Resp ℕ Request Reply StoreState (TaskId → ℕ) StoreState where
  program _ request := serve b request
  exec rank _ op s := some (op.exec rank s)
  spawned _ _ := []
  accept _ _ s := some s
  disturb s' s := if s'.tasks.rows.map stamp = s.tasks.rows.map stamp then some s' else none

abbrev ClientConfig := Config Statement Statement.Resp ℕ Request Reply StoreState

/-- At most one task for each creator and key. -/
def KeysUnique (s : StoreState) : Prop :=
  ∀ a ∈ s.tasks.rows, ∀ b ∈ s.tasks.rows, sameScope a b = true → a = b

structure Start (c : ClientConfig) : Prop where
  fresh : Machine.Fresh c
  unique : KeysUnique c.state

end FleetOrchestrator.Store
