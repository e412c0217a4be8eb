import FleetOrchestrator.Output.Buffer

/-! Readers of the database that go on from the last number they have seen, while any number of
appends are between their insert and their commit. -/

namespace FleetOrchestrator.Output

open Core Tables Reading

/-- The stream of the event listener. -/
structure EventWatch where
  events : Feed FleetEvent := {}
  lastSeq : ℕ := 0
  yielded : List EventEntry := []

namespace EventWatch

def fetch (w : EventWatch) (limit : ℕ) : EventWatch :=
  let events := PgStore.listEvents w.events w.lastSeq limit
  { w with
    lastSeq := (events.getLast?.map EventEntry.seq).getD w.lastSeq,
    yielded := w.yielded ++ events }

/-- The listener asks for a hundred events at once; another reader names its limit. -/
def step (w : EventWatch) : Move FleetEvent → EventWatch
  | .insert e => { w with events := (PgStore.insertEvent w.events e).2 }
  | .commit n => { w with events := w.events.commit n }
  | .abort n => { w with events := w.events.abort n }
  | .read limit => w.fetch (limit.getD 100)

def run (w : EventWatch) (ms : List (Move FleetEvent)) : EventWatch := ms.foldl step w

/-- The events committed so far, in the order of their numbers. -/
def committed (w : EventWatch) : List EventEntry :=
  (w.events.rows fun _ => true).map fun x => ⟨x.seq, x.row⟩

/-- Further reads bring the reader to every committed event once, in order. -/
def SeesAll (w : EventWatch) : Prop :=
  ∃ limits : List (Option ℕ), (w.run (limits.map .read)).yielded = w.committed

/-- An append is committed after the reader has seen a larger number. -/
def Overtaken (w : EventWatch) : Move FleetEvent → Prop
  | .commit n => (w.events.written n).isSome ∧ n ≤ w.lastSeq
  | _ => False

def ofEntry (e : EventEntry) : Numbered FleetEvent := ⟨e.seq, e.event⟩

def reading (w : EventWatch) : Reading FleetEvent := ⟨w.events, ⟨w.lastSeq, w.yielded.map ofEntry⟩⟩

end EventWatch

/-- One reader of a task's output. -/
structure OutputWatch where
  outputs : Feed OutputRow := {}
  offset : ℕ := 0
  chunks : List TaskOutputChunk := []

namespace OutputWatch

def poll (w : OutputWatch) (id : TaskId) : OutputWatch :=
  let output := PgStore.getOutput w.outputs id w.offset
  { w with offset := output.nextOffset, chunks := w.chunks ++ output.chunks }

/-- A read of the output has no limit. -/
def step (id : TaskId) (w : OutputWatch) : Move OutputRow → OutputWatch
  | .insert row =>
    { w with outputs := (PgStore.insertOutput w.outputs row.writtenAt row.taskId row.chunk).2 }
  | .commit n => { w with outputs := w.outputs.commit n }
  | .abort n => { w with outputs := w.outputs.abort n }
  | .read _ => w.poll id

def run (id : TaskId) (w : OutputWatch) (ms : List (Move OutputRow)) : OutputWatch :=
  ms.foldl (step id) w

def committed (id : TaskId) (w : OutputWatch) : List TaskOutputChunk :=
  (w.outputs.rows fun row => row.taskId = id).map PgStore.outputChunk

def SeesAll (id : TaskId) (w : OutputWatch) : Prop :=
  ∃ limits : List (Option ℕ), (w.run id (limits.map .read)).chunks = w.committed id

/-- A chunk of the task is committed after the reader has seen a larger number. -/
def Overtaken (id : TaskId) (w : OutputWatch) : Move OutputRow → Prop
  | .commit n => (∃ x, w.outputs.written n = some x ∧ x.row.taskId = id) ∧ n ≤ w.offset
  | _ => False

def ofChunk (c : TaskOutputChunk) : Numbered OutputRow := ⟨c.seq, ⟨c.taskId, c.chunk, c.writtenAt⟩⟩

def reading (w : OutputWatch) : Reading OutputRow := ⟨w.outputs, ⟨w.offset, w.chunks.map ofChunk⟩⟩

end OutputWatch

namespace EventWatch

variable {w : EventWatch}

/-- The same move of the general reader. -/
def listened : Move FleetEvent → Move FleetEvent
  | .read limit => .read (some (limit.getD 100))
  | m => m

theorem map_ofEntry (l : List (Numbered FleetEvent)) :
    (l.map fun x => (⟨x.seq, x.row⟩ : EventEntry)).map ofEntry = l := by
  rw [List.map_map]
  exact List.map_id _

theorem fetch_reading (w : EventWatch) (limit : ℕ) :
    (w.fetch limit).reading = w.reading.move (fun _ => true) (.read (some limit)) := by
  have hpage : (PgStore.listEvents w.events w.lastSeq limit).map ofEntry =
      w.reading.page (fun _ => true) (some limit) := map_ofEntry _
  have hlast : (w.fetch limit).lastSeq =
      lastNumber w.lastSeq (w.reading.page (fun _ => true) (some limit)) := by
    rw [← hpage, lastNumber, List.getLast?_map, Option.map_map]
    rfl
  have hseen : (w.fetch limit).yielded.map ofEntry =
      w.reading.reader.seen ++ w.reading.page (fun _ => true) (some limit) := by
    rw [← hpage]
    exact List.map_append
  change Reading.mk w.events ⟨_, (w.fetch limit).yielded.map ofEntry⟩ = _
  rw [hseen, hlast]
  rfl

theorem step_reading (w : EventWatch) (m : Move FleetEvent) :
    (w.step m).reading = w.reading.move (fun _ => true) (listened m) := by
  cases m with
  | insert e => rfl
  | commit n => rfl
  | abort n => rfl
  | read limit => exact fetch_reading w _

theorem run_reading (w : EventWatch) (ms : List (Move FleetEvent)) :
    (w.run ms).reading = w.reading.moves (fun _ => true) (ms.map listened) := by
  induction ms generalizing w with
  | nil => rfl
  | cons m ms ih =>
    change ((w.step m).run ms).reading = _
    rw [ih, step_reading]
    rfl

theorem yielded_iff (w : EventWatch) (limits : List (Option ℕ)) :
    (w.run (limits.map .read)).yielded = w.committed ↔
      (w.reading.moves (fun _ => true)
        ((limits.map fun l => some (l.getD 100)).map .read)).reader.seen =
        w.reading.feed.rows fun _ => true := by
  have hmoves : (limits.map Move.read).map listened =
      (limits.map fun l => some (l.getD 100)).map .read := by simp [listened]
  have hinj : Function.Injective ofEntry := by
    rintro ⟨_, _⟩ ⟨_, _⟩ h
    cases h
    rfl
  rw [← hmoves, ← run_reading, ← (List.map_injective_iff.mpr hinj).eq_iff, committed, map_ofEntry]
  rfl

theorem seesAll_iff (h : w.reading.Sound fun _ => true) :
    w.SeesAll ↔ w.reading.SeesAll fun _ => true := by
  constructor
  · rintro ⟨limits, hl⟩
    exact Reading.seesAll_of_seen h ((yielded_iff w limits).mp hl)
  · intro hs
    let all := (w.events.after (fun _ => true) w.lastSeq).length
    refine ⟨[some all], (yielded_iff w [some all]).mpr ?_⟩
    apply Reading.seen_of_seesAll hs
    rintro n ⟨⟩
    exact le_rfl

theorem overtaken_iff (m : Move FleetEvent) :
    w.Overtaken m ↔ w.reading.Overtaken (fun _ => true) (listened m) := by
  cases m with
  | commit n => simp [Overtaken, Reading.Overtaken, listened, reading, Option.isSome_iff_exists]
  | insert e => rfl
  | abort n => rfl
  | read limit => rfl

end EventWatch

namespace OutputWatch

variable {id : TaskId} {w : OutputWatch}

/-- The same move of the general reader. -/
def polled : Move OutputRow → Move OutputRow
  | .read _ => .read none
  | m => m

theorem map_ofChunk (l : List (Numbered OutputRow)) :
    (l.map PgStore.outputChunk).map ofChunk = l := by
  rw [List.map_map]
  exact List.map_id _

theorem poll_reading (id : TaskId) (w : OutputWatch) :
    (w.poll id).reading = w.reading.move (fun row => row.taskId = id) (.read none) := by
  have hpage : (PgStore.getOutput w.outputs id w.offset).chunks.map ofChunk =
      w.reading.page (fun row => row.taskId = id) none := map_ofChunk _
  have hlast : (w.poll id).offset =
      lastNumber w.offset (w.reading.page (fun row => row.taskId = id) none) :=
    PgStore.getOutput_next w.outputs id w.offset
  have hseen : (w.poll id).chunks.map ofChunk =
      w.reading.reader.seen ++ w.reading.page (fun row => row.taskId = id) none := by
    rw [← hpage]
    exact List.map_append
  change Reading.mk w.outputs ⟨_, (w.poll id).chunks.map ofChunk⟩ = _
  rw [hseen, hlast]
  rfl

theorem step_reading (id : TaskId) (w : OutputWatch) (m : Move OutputRow) :
    (w.step id m).reading = w.reading.move (fun row => row.taskId = id) (polled m) := by
  cases m with
  | insert row => rfl
  | commit n => rfl
  | abort n => rfl
  | read limit => exact poll_reading id w

theorem run_reading (id : TaskId) (w : OutputWatch) (ms : List (Move OutputRow)) :
    (w.run id ms).reading =
      w.reading.moves (fun row => row.taskId = id) (ms.map polled) := by
  induction ms generalizing w with
  | nil => rfl
  | cons m ms ih =>
    change ((w.step id m).run id ms).reading = _
    rw [ih, step_reading]
    rfl

theorem chunks_iff (id : TaskId) (w : OutputWatch) (limits : List (Option ℕ)) :
    (w.run id (limits.map .read)).chunks = w.committed id ↔
      (w.reading.moves (fun row => row.taskId = id)
        ((limits.map fun _ => none).map .read)).reader.seen =
        w.reading.feed.rows fun row => row.taskId = id := by
  have hmoves : (limits.map Move.read).map polled =
      (limits.map fun _ => none).map .read := by
    rw [List.map_map, List.map_map]
    rfl
  have hinj : Function.Injective ofChunk := by
    rintro ⟨_, _, _, _⟩ ⟨_, _, _, _⟩ h
    cases h
    rfl
  rw [← hmoves, ← run_reading, ← (List.map_injective_iff.mpr hinj).eq_iff, committed, map_ofChunk]
  rfl

theorem seesAll_iff (h : w.reading.Sound fun row => row.taskId = id) :
    w.SeesAll id ↔ w.reading.SeesAll fun row => row.taskId = id := by
  constructor
  · rintro ⟨limits, hl⟩
    exact Reading.seesAll_of_seen h ((chunks_iff id w limits).mp hl)
  · intro hs
    refine ⟨[none], (chunks_iff id w [none]).mpr (Reading.seen_of_seesAll hs ?_)⟩
    rintro n ⟨⟩

theorem overtaken_iff (m : Move OutputRow) :
    w.Overtaken id m ↔ w.reading.Overtaken (fun row => row.taskId = id) (polled m) := by
  cases m with
  | commit n => simp [Overtaken, Reading.Overtaken, polled, reading]
  | insert row => rfl
  | abort n => rfl
  | read limit => rfl

end OutputWatch

/-- No step of the run commits a row that the reader has passed. -/
def EventWatch.Punctual (ms : List (Move FleetEvent)) : Prop :=
  ∀ ms₁ m ms₂, ms = ms₁ ++ m :: ms₂ → ¬ (EventWatch.run {} ms₁).Overtaken m

def OutputWatch.Punctual (id : TaskId) (ms : List (Move OutputRow)) : Prop :=
  ∀ ms₁ m ms₂, ms = ms₁ ++ m :: ms₂ → ¬ (OutputWatch.run id {} ms₁).Overtaken id m

/-- A run of a translation splits where the run does. -/
theorem splits_map {α β : Type} {f : α → β} {l : List α} {P : List β → β → Prop} :
    (∀ l₁ b l₂, l.map f = l₁ ++ b :: l₂ → P l₁ b) ↔
      ∀ l₁ a l₂, l = l₁ ++ a :: l₂ → P (l₁.map f) (f a) := by
  constructor
  · rintro h l₁ a l₂ rfl
    exact h _ _ _ (List.map_append.trans rfl)
  · intro h l₁ b l₂ he
    obtain ⟨l₁', l', rfl, rfl, hl'⟩ := List.map_eq_append_iff.mp he
    obtain ⟨a, l₂', rfl, rfl, rfl⟩ := List.map_eq_cons_iff.mp hl'
    exact h _ _ _ rfl

theorem events_seen_iff (ms : List (Move FleetEvent)) :
    (EventWatch.run {} ms).SeesAll ↔ EventWatch.Punctual ms := by
  have hstart : EventWatch.reading {} = {} := rfl
  have hsound : (EventWatch.run {} ms).reading.Sound fun _ => true := by
    rw [EventWatch.run_reading]
    exact sound_moves sound_start _
  rw [EventWatch.seesAll_iff hsound, EventWatch.run_reading, hstart, seesAll_moves sound_start,
    splits_map]
  simp only [EventWatch.Punctual, EventWatch.overtaken_iff, EventWatch.run_reading, hstart,
    seesAll_start, true_and]

theorem chunks_seen_iff (id : TaskId) (ms : List (Move OutputRow)) :
    (OutputWatch.run id {} ms).SeesAll id ↔ OutputWatch.Punctual id ms := by
  have hstart : OutputWatch.reading {} = {} := rfl
  have hsound : (OutputWatch.run id {} ms).reading.Sound fun row => row.taskId = id := by
    rw [OutputWatch.run_reading]
    exact sound_moves sound_start _
  rw [OutputWatch.seesAll_iff hsound, OutputWatch.run_reading, hstart, seesAll_moves sound_start,
    splits_map]
  simp only [OutputWatch.Punctual, OutputWatch.overtaken_iff, OutputWatch.run_reading, hstart,
    seesAll_start, true_and]

/-- A reader of events or of a task's chunks sees every committed row exactly once and in order, if
and only if no append commits after the reader has seen a larger number. -/
theorem cursor_sees_all_iff (events : List (Move FleetEvent)) (id : TaskId)
    (chunks : List (Move OutputRow)) :
    ((EventWatch.run {} events).SeesAll ↔ EventWatch.Punctual events) ∧
      ((OutputWatch.run id {} chunks).SeesAll id ↔ OutputWatch.Punctual id chunks) :=
  ⟨events_seen_iff events, chunks_seen_iff id chunks⟩

/-- Two writers: the one with the larger number commits first and is read before the other commits. -/
def passedCommit : List (Move FleetEvent) :=
  [.insert (.workerLeft ⟨1⟩ "first" 0), .insert (.workerLeft ⟨2⟩ "second" 0), .commit 2,
    .read none, .commit 1]

theorem passed_commit_skipped : ¬ (EventWatch.run {} passedCommit).SeesAll := by
  rw [events_seen_iff]
  intro h
  have hlate : (EventWatch.run {} (passedCommit.take 4)).Overtaken (.commit 1) := by
    constructor <;> decide
  exact h (passedCommit.take 4) (.commit 1) [] rfl hlate

end FleetOrchestrator.Output
