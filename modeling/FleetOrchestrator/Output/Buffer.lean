import FleetOrchestrator.Core.Fleet
import FleetOrchestrator.Store.State
import FleetOrchestrator.Tables.Feed

/-! The event log and the output buffers of the tasks, as both backends keep them. -/

namespace FleetOrchestrator.Output

open Core Tables Store

structure EventEntry where
  seq : ℕ
  event : FleetEvent
  deriving DecidableEq

structure TaskOutputChunk where
  taskId : TaskId
  seq : ℕ
  chunk : String
  writtenAt : ℤ
  deriving DecidableEq

structure TaskOutput where
  taskId : TaskId
  chunks : List TaskOutputChunk
  nextOffset : ℕ
  deriving DecidableEq

/-- A row of `task_outputs`, less its number. -/
structure OutputRow where
  taskId : TaskId
  chunk : String
  writtenAt : ℤ
  deriving DecidableEq

namespace MemStore

def appendEvent (events : List EventEntry) (e : FleetEvent) : ℕ × List EventEntry :=
  (events.length + 1, events ++ [⟨events.length + 1, e⟩])

def listEvents (events : List EventEntry) (afterSeq limit : ℕ) : List EventEntry :=
  (events.filter fun e => afterSeq < e.seq).take limit

/-- The buffer of a task without an entry is the empty one. -/
def appendOutput (outputs : TaskId → List String) (id : TaskId) (chunk : String) :
    ℕ × (TaskId → List String) :=
  ((outputs id).length + 1, fun t => if t = id then outputs id ++ [chunk] else outputs t)

def getOutput (outputs : TaskId → List String) (now : ℤ) (id : TaskId) (afterSeq : ℕ) :
    TaskOutput :=
  let chunks := ((outputs id).drop afterSeq).mapIdx fun i chunk =>
    ⟨id, afterSeq + i, chunk, now⟩
  { taskId := id, chunks := chunks, nextOffset := afterSeq + chunks.length }

end MemStore

namespace PgStore

/-- The insert has drawn its number and answers with it once it is committed. -/
def insertEvent (events : Feed FleetEvent) (e : FleetEvent) : ℕ × Feed FleetEvent :=
  (events.drawn + 1, events.insert e)

def listEvents (events : Feed FleetEvent) (afterSeq limit : ℕ) : List EventEntry :=
  ((events.after (fun _ => true) afterSeq).take limit).map fun x => ⟨x.seq, x.row⟩

def insertOutput (outputs : Feed OutputRow) (now : ℤ) (id : TaskId) (chunk : String) :
    ℕ × Feed OutputRow :=
  (outputs.drawn + 1, outputs.insert ⟨id, chunk, now⟩)

/-- The append with nobody in between. -/
def appendOutput (outputs : Feed OutputRow) (now : ℤ) (id : TaskId) (chunk : String) :
    ℕ × Feed OutputRow :=
  let (seq, inserted) := insertOutput outputs now id chunk
  (seq, inserted.commit seq)

def outputChunk (x : Numbered OutputRow) : TaskOutputChunk :=
  ⟨x.row.taskId, x.seq, x.row.chunk, x.row.writtenAt⟩

def getOutput (outputs : Feed OutputRow) (id : TaskId) (afterSeq : ℕ) : TaskOutput :=
  let chunks := (outputs.after (fun row => row.taskId = id) afterSeq).map outputChunk
  { taskId := id, chunks := chunks,
    nextOffset := (chunks.getLast?.map TaskOutputChunk.seq).getD afterSeq }

theorem getOutput_next (outputs : Feed OutputRow) (id : TaskId) (afterSeq : ℕ) :
    (getOutput outputs id afterSeq).nextOffset =
      lastNumber afterSeq (outputs.after (fun row => row.taskId = id) afterSeq) := by
  simp only [getOutput, lastNumber, List.getLast?_map, Option.map_map]
  rfl

end PgStore

end FleetOrchestrator.Output
