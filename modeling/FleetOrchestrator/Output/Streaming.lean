import FleetOrchestrator.Interleaving.Surroundings
import FleetOrchestrator.Output.Buffer

/-! The tool that streams a task's output, polled again and again while chunks are appended. -/

namespace FleetOrchestrator.Output

open Core Tables Store Interleaving

inductive StreamOp where
  | getTask (id : TaskId)
  | getOutput (id : TaskId) (afterSeq : ℕ)

abbrev StreamOp.Reply : StreamOp → Type
  | .getTask _ => Except StoreError (Option Task)
  | .getOutput _ _ => Except StoreError TaskOutput

structure JsonRpcError where
  code : ℤ
  message : String
  deriving DecidableEq

def JsonRpcError.internal (msg : String) : JsonRpcError := ⟨-32603, msg⟩

structure StreamReport where
  taskId : TaskId
  phase : String
  output : String
  chunksSeen : ℕ
  nextOffset : ℕ
  pollsUsed : ℕ
  stoppedReason : String
  deriving DecidableEq

inductive ToolAnswer where
  | json (r : StreamReport)
  | toolError (msg : String)
  deriving DecidableEq

abbrev Handler (α : Type) := Prog StreamOp StreamOp.Reply (Except JsonRpcError α)

def storeError (e : StoreError) : JsonRpcError := .internal ("store error: " ++ e.message)

def getTask (id : TaskId) : Handler (Option Task) :=
  .call (.getTask id) fun
    | .error e => .ret (.error (storeError e))
    | .ok task => .ret (.ok task)

/-- What one run of the tool has collected. -/
structure Tail where
  offset : ℕ
  buffer : String := ""
  chunksSeen : ℕ := 0
  pollsUsed : ℕ := 0

def Tail.push (t : Tail) (output : TaskOutput) : Tail :=
  { t with
    offset := output.nextOffset,
    buffer := output.chunks.foldl (fun buffer c => buffer ++ c.chunk) t.buffer,
    chunksSeen := t.chunksSeen + output.chunks.length,
    pollsUsed := t.pollsUsed + 1 }

def readOutput (id : TaskId) (t : Tail) : Handler Tail :=
  .call (.getOutput id t.offset) fun
    | .error e => .ret (.error (storeError e))
    | .ok output => .ret (.ok (t.push output))

/-- The polls left, with the reason that the tool gives for stopping. -/
def pollLoop (id : TaskId) : ℕ → Tail → Handler (Tail × String)
  | 0, t => .ret (.ok (t, "max_polls_reached"))
  | left + 1, t =>
    (readOutput id t).andThen fun t =>
      (getTask id).andThen fun task =>
        if task.any Task.isTerminal then .ret (.ok (t, "terminal"))
        else pollLoop id left t

def handleStreamTaskOutput (id : TaskId) (fromOffset maxPolls : Option ℕ) : Handler ToolAnswer :=
  let offset := fromOffset.getD 0
  let maxPolls := min (max (maxPolls.getD 60) 1) 600
  (getTask id).andThen fun
    | none => .ret (.ok (.toolError ("task not found: " ++ toString id)))
    | some initialTask =>
      let tailed : Handler (Tail × String) :=
        if initialTask.isTerminal then
          (readOutput id { offset }).andThen fun t => .ret (.ok (t, "terminal"))
        else pollLoop id maxPolls { offset }
      tailed.andThen fun (t, stoppedReason) =>
        (getTask id).andThen fun finalTask =>
          .ret (.ok (.json
            { taskId := id, phase := (finalTask.map fun t => t.phase.asStr).getD "unknown",
              output := t.buffer, chunksSeen := t.chunksSeen, nextOffset := t.offset,
              pollsUsed := t.pollsUsed, stoppedReason }))

/-- A chunk of the streamed task, and what each backend answered to its append. -/
structure Appended where
  chunk : String
  seq : Backend → ℕ

/-- The buffers of both backends under the same appends. -/
structure Stores where
  mem : TaskId → List String := fun _ => []
  pg : Feed OutputRow := {}
  appended : List Appended := []

inductive Write where
  | append (id : TaskId) (chunk : String) (at_ : ℤ)
  /-- An insert that fails has drawn its number all the same. -/
  | failed (id : TaskId) (chunk : String) (at_ : ℤ)

def Stores.write (id : TaskId) (s : Stores) : Write → Stores
  | .append t chunk at_ =>
    let (memSeq, mem) := MemStore.appendOutput s.mem t chunk
    let (pgSeq, pg) := PgStore.appendOutput s.pg at_ t chunk
    let seq : Backend → ℕ
      | .mem => memSeq
      | .pg => pgSeq
    { mem, pg, appended := if t = id then s.appended ++ [⟨chunk, seq⟩] else s.appended }
  | .failed t chunk at_ =>
    let (seq, inserted) := PgStore.insertOutput s.pg at_ t chunk
    { s with pg := inserted.abort seq }

def Stores.getOutput (s : Stores) (now : ℤ) (id : TaskId) (afterSeq : ℕ) : Backend → TaskOutput
  | .mem => MemStore.getOutput s.mem now id afterSeq
  | .pg => PgStore.getOutput s.pg id afterSeq

/-- What happens before a call of the store, and what decides its answer. -/
structure Interim where
  writes : List Write
  task : Except StoreError (Option Task)
  fault : Option StoreError
  now : ℤ

/-- The stores, the pages that a run of the tool has read, and how many chunks had been appended
when it read the last of them. -/
structure View where
  stores : Stores := {}
  pages : List TaskOutput := []
  readTo : ℕ := 0

def execute (b : Backend) (id : TaskId) (i : Interim) : (op : StreamOp) → View → op.Reply × View
  | .getTask _, v => (i.task, { v with stores := i.writes.foldl (Stores.write id) v.stores })
  | .getOutput t afterSeq, v =>
    let stores := i.writes.foldl (Stores.write id) v.stores
    match i.fault with
    | some e => (.error e, { v with stores })
    | none =>
      let page := stores.getOutput i.now t afterSeq b
      (.ok page, ⟨stores, v.pages ++ [page], stores.appended.length⟩)

/-- A client of one backend that polls with the offset it was given last. -/
structure Session where
  env : ℕ → Interim
  stores : Stores := {}
  offset : ℕ := 0
  reports : List StreamReport := []
  pages : List TaskOutput := []
  /-- How many chunks had been appended when the last report read its last page. -/
  covered : ℕ := 0

/-- One call of the tool; only a report has a next offset. -/
def Session.poll (b : Backend) (id : TaskId) (s : Session) (maxPolls : Option ℕ) : Session :=
  let (answer, env, v) := (handleStreamTaskOutput id (some s.offset) maxPolls).amid
    (execute b id) s.env { stores := s.stores, readTo := s.covered }
  match answer with
  | .ok (.json r) =>
    { env, stores := v.stores, offset := r.nextOffset, reports := s.reports ++ [r],
      pages := s.pages ++ v.pages, covered := v.readTo }
  | _ => { s with env, stores := v.stores }

def session (b : Backend) (id : TaskId) (env : ℕ → Interim) (polls : List (Option ℕ)) : Session :=
  polls.foldl (Session.poll b id) { env }

def TaskOutput.numbered (o : TaskOutput) : List (ℕ × String) :=
  o.chunks.map fun c => (c.seq, c.chunk)

/-- What the appends answered, chunk by chunk. -/
def Appended.answer (b : Backend) (a : Appended) : ℕ × String := (a.seq b, a.chunk)

/-- The chunks returned are those appended so far, each once and in order, and each with the number
that its append returned. -/
def Streams (b : Backend) (s : Session) : Prop :=
  s.pages.flatMap TaskOutput.numbered = (s.stores.appended.take s.covered).map (Appended.answer b)

/-- The text of all reports is the text of the chunks appended so far. -/
def Tells (s : Session) : Prop :=
  String.join (s.reports.map StreamReport.output) =
    String.join ((s.stores.appended.take s.covered).map Appended.chunk)

end FleetOrchestrator.Output
