import FleetOrchestrator.Agents.Statements
import FleetOrchestrator.Interleaving.System

/-! The rows of the workers, and the store's operations on them. -/

namespace FleetOrchestrator.Health

open Core Tables Store Interleaving

structure WorkerRow extends Core.Worker where
  endpoint : String := ""
  activeTasks : ℕ := 0
  workerVersion : Option String := none
  deriving DecidableEq, Repr

namespace WorkerRow

def key (w : WorkerRow) : WorkerId := w.id

def withStatus (status : WorkerStatus) (w : WorkerRow) : WorkerRow := { w with status }

def beaten (now : ℤ) (activeTasks : ℕ) (w : WorkerRow) : WorkerRow :=
  { w with lastSeen := some now, activeTasks }

def restarted (now : ℤ) (w : WorkerRow) : WorkerRow := { w with incarnationStartedAt := now }

@[simp] theorem key_beaten (now : ℤ) (n : ℕ) (w : WorkerRow) : (w.beaten now n).key = w.key := rfl

@[simp] theorem key_restarted (now : ℤ) (w : WorkerRow) : (w.restarted now).key = w.key := rfl

/-- Whatever else may be written to a row: neither its id nor its last heartbeat, and the status only
to have the worker drained. -/
def edited (f : WorkerRow → WorkerRow) (w : WorkerRow) : WorkerRow :=
  { f w with
    id := w.id
    lastSeen := w.lastSeen
    status := if (f w).status = .draining then .draining else w.status }

@[simp] theorem key_edited (f : WorkerRow → WorkerRow) (w : WorkerRow) : (w.edited f).key = w.key :=
  rfl

end WorkerRow

abbrev WorkerTable := Keyed WorkerId WorkerRow WorkerRow.key

structure World where
  workers : WorkerTable
  now : ℤ
  events : List FleetEvent := []

/-- What an upsert leaves of the row that it finds. -/
def replaced (b : Backend) (prev row : WorkerRow) : WorkerRow :=
  { row with
    registeredAt := prev.registeredAt
    incarnationStartedAt := prev.incarnationStartedAt
    lastActivityAt := match b with
      | .mem => row.lastActivityAt
      | .pg => prev.lastActivityAt }

def inserted (b : Backend) (row : WorkerRow) : WorkerRow :=
  match b with
  | .mem => row
  | .pg => { row with lastActivityAt := none }

def upserted (b : Backend) (w : World) (row : WorkerRow) : WorkerRow :=
  match w.workers.get row.key with
  | some prev => replaced b prev row
  | none => inserted b row

theorem key_upserted (b : Backend) (w : World) (row : WorkerRow) :
    (upserted b w row).key = row.key := by
  unfold upserted
  cases w.workers.get row.key with
  | some prev => rfl
  | none => cases b <;> rfl

/-- In SQL the name of a worker is unique. -/
def nameTaken (w : World) (row : WorkerRow) : Bool :=
  w.workers.rows.any fun r => r.name = row.name && r.key ≠ row.key

def duplicateName : StoreError := Agents.PgStore.refused (Agents.PgStore.duplicateKey "workers_name_key")

def listWorkers (b : Backend) (rank : WorkerId → ℕ) (filter : WorkerFilter) (w : World) :
    List WorkerRow :=
  let limit := match b with
    | .mem => filter.limit
    | .pg => min filter.limit 1000
  page filter.offset limit <| newestFirst (fun r => r.registeredAt) <|
    (inOrder rank WorkerRow.key w.workers.rows).filter fun r =>
      filter.status.all (fun s => r.status = s) &&
        filter.labels.all fun l => r.label l.1 = some l.2

inductive Op where
  | getWorker (id : WorkerId)
  | getWorkerByName (name : String)
  | listWorkers (filter : WorkerFilter)
  | updateWorkerHeartbeat (id : WorkerId) (activeTasks : ℕ)
  | upsertWorker (row : WorkerRow)
  | bumpWorkerIncarnation (id : WorkerId)
  | appendWorkerLeft (id : WorkerId) (reason : String)
  | utcNow

abbrev Op.Resp : Op → Type
  | .getWorker _ => Option WorkerRow
  | .getWorkerByName _ => Option WorkerRow
  | .listWorkers _ => List WorkerRow
  | .updateWorkerHeartbeat _ _ => Except StoreError Unit
  | .upsertWorker _ => Except StoreError Unit
  | .bumpWorkerIncarnation _ => Option ℤ
  | .appendWorkerLeft _ _ => Unit
  | .utcNow => ℤ

/-- The rows in the order in which the map lists them come from the rank. -/
def Op.effect (b : Backend) (rank : WorkerId → ℕ) : (op : Op) → World → op.Resp × World
  | .getWorker id, w => (w.workers.get id, w)
  | .getWorkerByName name, w =>
    ((inOrder rank WorkerRow.key w.workers.rows).find? fun r => r.name = name, w)
  | .listWorkers filter, w => (Health.listWorkers b rank filter w, w)
  | .updateWorkerHeartbeat id n, w =>
    if w.workers.contains id then
      let workers := w.workers.modify id (WorkerRow.beaten w.now n) (WorkerRow.key_beaten w.now n)
      (.ok (), { w with workers })
    else (.error .notFound, w)
  | .upsertWorker row, w =>
    if b = .pg && nameTaken w row then (.error duplicateName, w)
    else (.ok (), { w with workers := w.workers.put (upserted b w row) })
  | .bumpWorkerIncarnation id, w =>
    let workers := w.workers.modify id (WorkerRow.restarted w.now) (WorkerRow.key_restarted w.now)
    ((w.workers.get id).map fun _ => w.now, { w with workers })
  | .appendWorkerLeft id reason, w =>
    ((), { w with events := w.events ++ [.workerLeft id reason w.now] })
  | .utcNow, w => (w.now, w)

abbrev Call (α : Type) := Prog Op Op.Resp α

def execute (op : Op) : Call op.Resp := Prog.perform op

end FleetOrchestrator.Health
