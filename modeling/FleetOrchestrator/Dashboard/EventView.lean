import FleetOrchestrator.Api.Routes
import FleetOrchestrator.Core.Errors
import FleetOrchestrator.Interleaving.Surroundings
import FleetOrchestrator.Output.Buffer

/-! What the dashboard shows of the event log and of the tasks: the outputs of tasks only to those
who may see them. -/

namespace FleetOrchestrator.Dashboard

open Core Output Tables Store Interleaving

structure AuthPrincipal where
  permissions : List Api.PermissionKind

def AuthPrincipal.has (p : AuthPrincipal) (perm : Api.PermissionKind) : Bool :=
  p.permissions.contains perm

def redacted : String := "[redacted: task:output permission required]"

def maySeeTaskOutput (p : AuthPrincipal) : Bool := p.has .taskOutput

def filterEvent (entry : EventEntry) (maySeeOutput : Bool) : EventEntry :=
  if maySeeOutput then entry
  else
    match entry with
    | ⟨seq, .taskProgress taskId workerId n _ at_⟩ => ⟨seq, .taskProgress taskId workerId n redacted at_⟩
    | ⟨seq, .taskCompleted taskId workerId result at_⟩ =>
      ⟨seq, .taskCompleted taskId workerId { result with output := redacted } at_⟩
    | entry => entry

def filterEvents (entries : List EventEntry) (maySeeOutput : Bool) : List EventEntry :=
  if maySeeOutput then entries else entries.map fun e => filterEvent e false

structure TokenStats where
  inputTokens : ℕ
  outputTokens : ℕ
  cacheReadTokens : ℕ
  totalTokens : ℕ
  deriving DecidableEq

def TokenStats.of (u : TokenUsage) : TokenStats :=
  ⟨u.inputTokens, u.outputTokens, u.cacheReadTokens, u.inputTokens + u.outputTokens⟩

structure TaskSummary where
  id : String
  phase : String
  prompt : String
  createdAt : ℤ
  createdBy : String
  workerId : Option String
  exitCode : Option ℤ
  durationSecs : Option ℕ
  model : Option String
  tokenUsage : Option TokenStats
  threadId : String
  parentTaskId : Option String
  projectId : Option ProjectId
  agentId : Option String
  deriving DecidableEq

def taskToSummary (t : Task) : TaskSummary :=
  let (phase, workerId, exitCode, durationSecs, tokenUsage) :
      String × Option String × Option ℤ × Option ℕ × Option TokenStats :=
    match t.status with
    | .pending => ("pending", none, none, none, none)
    | .dispatched workerId _ => ("dispatched", some (toString workerId), none, none, none)
    | .completed r => ("completed", some (toString r.workerId), some r.exitCode,
        some r.durationSecs, r.tokenUsage.map TokenStats.of)
    | .failed f => ("failed", f.workerId.map toString, none, none, none)
    | .cancelled _ _ => ("cancelled", none, none, none, none)
  { id := toString t.id, phase, prompt := t.prompt, createdAt := t.createdAt
    createdBy := t.createdBy, workerId, exitCode, durationSecs, model := t.model, tokenUsage
    threadId := toString t.threadId, parentTaskId := t.parentTaskId.map toString
    projectId := t.projectId, agentId := t.agentId.map toString }

/-- What wakes a listener of the event channel; a payload that is no number is none. -/
inductive Wake where
  | notified (payload : Option ℕ)
  | failed
  | timedOut

/-- The listener fetches for a number beyond the last, and when it has waited long enough. -/
def Wake.isDue (lastSeq : ℕ) : Wake → Bool
  | notified payload => payload.any fun seq => lastSeq < seq
  | failed => false
  | timedOut => true

inductive ReadOp where
  | listEvents (afterSeq limit : ℕ)
  | getTask (id : TaskId)
  | getOutput (id : TaskId) (afterSeq : ℕ)
  | receive

abbrev ReadOp.Resp : ReadOp → Type
  | .listEvents _ _ => Except StoreError (List EventEntry)
  | .getTask _ => Except StoreError (Option Task)
  | .getOutput _ _ => Except StoreError TaskOutput
  | .receive => Wake

abbrev Reading (α : Type) := Prog ReadOp ReadOp.Resp α

def execute (op : ReadOp) : Reading op.Resp := Prog.perform op

/-- What a store holds of tasks, events and outputs. -/
inductive Contents where
  | mem (tasks : TaskTable) (events : List EventEntry) (outputs : TaskId → List String)
  | pg (tasks : TaskTable) (events : Feed FleetEvent) (outputs : Feed OutputRow)

namespace Contents

def tasks : Contents → TaskTable
  | mem tasks _ _ | pg tasks _ _ => tasks

def listEvents (afterSeq limit : ℕ) : Contents → List EventEntry
  | mem _ events _ => MemStore.listEvents events afterSeq limit
  | pg _ events _ => PgStore.listEvents events afterSeq limit

def getOutput (now : ℤ) (id : TaskId) (afterSeq : ℕ) : Contents → TaskOutput
  | mem _ _ outputs => MemStore.getOutput outputs now id afterSeq
  | pg _ _ outputs => PgStore.getOutput outputs id afterSeq

end Contents

/-- A moment of a run: what is stored then, and what the outside world would answer. -/
structure Moment where
  contents : Contents
  fault : Option StoreError := none
  wake : Wake := .timedOut
  now : ℤ := 0

def attempt {α : Type} (m : Moment) (r : α) : Except StoreError α :=
  match m.fault with
  | some e => .error e
  | none => .ok r

def Moment.answer (m : Moment) : (op : ReadOp) → op.Resp
  | .listEvents afterSeq limit => attempt m (m.contents.listEvents afterSeq limit)
  | .getTask id => attempt m (m.contents.tasks.get id)
  | .getOutput id afterSeq => attempt m (m.contents.getOutput m.now id afterSeq)
  | .receive => m.wake

structure ListEventsQuery where
  afterSeq : ℕ := 0
  limit : ℕ := 100

/-- The stream is read up to some number of wake-ups; the task id is what its text parses to. -/
inductive Request where
  | listEvents (q : ListEventsQuery)
  | eventsStream (wakes : ℕ)
  | getTaskDetail (raw : String) (id : Option TaskId)

inductive Response where
  | events (count : ℕ) (events : List EventEntry)
  | stream (sent : List EventEntry)
  | detail (task : TaskSummary) (output : Option TaskOutput)
  | failed (e : ApiError)
  deriving DecidableEq

def listEvents (p : AuthPrincipal) (q : ListEventsQuery) : Reading Response :=
  if !p.has .eventsList then return .failed permissionDenied
  else do
    match ← execute (.listEvents q.afterSeq q.limit) with
    | .error e => return .failed (.ofStore e)
    | .ok events =>
      let events := filterEvents events (maySeeTaskOutput p)
      return .events events.length events

/-- The pages that the listener fetches, each after the last entry of the one before. -/
def listenEvents (maySeeOutput : Bool) : ℕ → ℕ → List EventEntry → Reading (List EventEntry)
  | 0, _, sent => return sent
  | wakes + 1, lastSeq, sent => do
    let wake ← execute .receive
    if !wake.isDue lastSeq then listenEvents maySeeOutput wakes lastSeq sent
    else
      match ← execute (.listEvents lastSeq 100) with
      | .error _ => listenEvents maySeeOutput wakes lastSeq sent
      | .ok events =>
        listenEvents maySeeOutput wakes ((events.getLast?.map EventEntry.seq).getD lastSeq)
          (sent ++ events.map fun e => filterEvent e maySeeOutput)

def eventsStream (p : AuthPrincipal) (wakes : ℕ) : Reading Response :=
  if !p.has .eventsList then return .failed permissionDenied
  else do
    let sent ← listenEvents (maySeeTaskOutput p) wakes 0 []
    return .stream sent

def getTaskDetailApi (p : AuthPrincipal) (raw : String) (id : Option TaskId) : Reading Response :=
  if !p.has .taskRead then return .failed permissionDenied
  else
    match id with
    | none => return .failed (.badRequest ("invalid task id: " ++ raw))
    | some taskId => do
      match ← execute (.getTask taskId) with
      | .error e => return .failed (.ofStore e)
      | .ok none => return .failed (.notFound ("task " ++ raw))
      | .ok (some task) =>
        let summary := taskToSummary task
        if p.has .taskOutput then do
          match ← execute (.getOutput taskId 0) with
          | .error _ => return .detail summary none
          | .ok output => return .detail summary (some output)
        else return .detail summary none

def Request.program (p : AuthPrincipal) : Request → Reading Response
  | .listEvents q => Dashboard.listEvents p q
  | .eventsStream wakes => Dashboard.eventsStream p wakes
  | .getTaskDetail raw id => getTaskDetailApi p raw id

/-- A request, with the moments of the run at which its calls are made. -/
structure Visit where
  request : Request
  moments : ℕ → ℕ

def respond (p : AuthPrincipal) (run : ℕ → Moment) (v : Visit) : Response :=
  ((v.request.program p).amid (fun m op (u : Unit) => (Moment.answer m op, u))
    (fun n => run (v.moments n)) ()).1

section WithoutOutputs

def eventWithoutOutput : FleetEvent → FleetEvent
  | .taskProgress taskId workerId n _ at_ => .taskProgress taskId workerId n "" at_
  | .taskCompleted taskId workerId result at_ =>
    .taskCompleted taskId workerId { result with output := "" } at_
  | e => e

def entryWithoutOutput (x : EventEntry) : EventEntry := ⟨x.seq, eventWithoutOutput x.event⟩

def rowWithoutOutput (x : Numbered FleetEvent) : Numbered FleetEvent :=
  ⟨x.seq, eventWithoutOutput x.row⟩

def statusWithoutOutput : TaskStatus → TaskStatus
  | .completed result => .completed { result with output := "" }
  | s => s

def taskWithoutOutput (t : Task) : Task :=
  { t with status := statusWithoutOutput t.status, partialOutput := none }

/-- The contents differ in nothing but outputs of tasks. -/
inductive Alike : Contents → Contents → Prop
  | mem {tasks tasks' : TaskTable} {events events' : List EventEntry}
      (outputs outputs' : TaskId → List String)
      (ht : tasks.rows.map taskWithoutOutput = tasks'.rows.map taskWithoutOutput)
      (he : events.map entryWithoutOutput = events'.map entryWithoutOutput) :
      Alike (.mem tasks events outputs) (.mem tasks' events' outputs')
  | pg {tasks tasks' : TaskTable} {events events' : Feed FleetEvent}
      (outputs outputs' : Feed OutputRow)
      (ht : tasks.rows.map taskWithoutOutput = tasks'.rows.map taskWithoutOutput)
      (he : events.committed.map rowWithoutOutput = events'.committed.map rowWithoutOutput) :
      Alike (.pg tasks events outputs) (.pg tasks' events' outputs')

structure Moment.Alike (m m' : Moment) : Prop where
  contents : Dashboard.Alike m.contents m'.contents
  fault : m.fault = m'.fault
  wake : m.wake = m'.wake

variable {c c' : Contents}

/-- The filter looks at nothing of an output. -/
theorem filterEvent_withoutOutput (x : EventEntry) :
    filterEvent (entryWithoutOutput x) false = filterEvent x false := by
  obtain ⟨seq, event⟩ := x
  cases event <;> rfl

theorem filtered_alike {xs ys : List EventEntry}
    (h : xs.map entryWithoutOutput = ys.map entryWithoutOutput) :
    (xs.map fun e => filterEvent e false) = ys.map fun e => filterEvent e false := by
  have erased (zs : List EventEntry) : (zs.map fun e => filterEvent e false) =
      (zs.map entryWithoutOutput).map fun e => filterEvent e false := by
    rw [List.map_map]
    apply List.map_congr_left
    intro x _
    exact (filterEvent_withoutOutput x).symm
  rw [erased xs, erased ys, h]

theorem listEvents_memWithoutOutput (events : List EventEntry) (afterSeq limit : ℕ) :
    (MemStore.listEvents events afterSeq limit).map entryWithoutOutput =
      MemStore.listEvents (events.map entryWithoutOutput) afterSeq limit := by
  simp only [MemStore.listEvents, List.map_take, List.filter_map]
  rfl

theorem listEvents_pgWithoutOutput (events : Feed FleetEvent) (afterSeq limit : ℕ) :
    (PgStore.listEvents events afterSeq limit).map entryWithoutOutput =
      PgStore.listEvents { events with committed := events.committed.map rowWithoutOutput }
        afterSeq limit := by
  simp only [PgStore.listEvents, Feed.after, List.map_map, List.filter_map]
  rw [← List.map_insertionSort (r := fun x y => x.seq ≤ y.seq) _ _ _ fun x _ y _ => Iff.rfl]
  simp only [List.map_take, List.map_map]
  rfl

theorem listEvents_alike (h : Alike c c') (afterSeq limit : ℕ) :
    (c.listEvents afterSeq limit).map entryWithoutOutput =
      (c'.listEvents afterSeq limit).map entryWithoutOutput := by
  cases h with
  | mem outputs outputs' ht he =>
    change (MemStore.listEvents _ _ _).map _ = (MemStore.listEvents _ _ _).map _
    rw [listEvents_memWithoutOutput, he, listEvents_memWithoutOutput]
  | pg outputs outputs' ht he =>
    change (PgStore.listEvents _ _ _).map _ = (PgStore.listEvents _ _ _).map _
    rw [listEvents_pgWithoutOutput, listEvents_pgWithoutOutput]
    simp only [PgStore.listEvents, Feed.after, he]

/-- The summary shows nothing of an output. -/
theorem taskToSummary_withoutOutput (t : Task) :
    taskToSummary (taskWithoutOutput t) = taskToSummary t := by
  obtain ⟨⟩ := t
  rename_i status _ _ _ _ _ _ _ _ _ _ _ _ _ _ _ _ _
  cases status <;> rfl

theorem getTask_alike (h : Alike c c') (id : TaskId) :
    (c.tasks.get id).map taskToSummary = (c'.tasks.get id).map taskToSummary := by
  have rows : c.tasks.rows.map taskWithoutOutput = c'.tasks.rows.map taskWithoutOutput := by
    cases h with
    | mem outputs outputs' ht he => exact ht
    | pg outputs outputs' ht he => exact ht
  have erased (tasks : TaskTable) : (tasks.get id).map taskToSummary =
      ((tasks.rows.map taskWithoutOutput).find? fun t => t.id = id).map taskToSummary := by
    rw [List.find?_map, Option.map_map]
    have hid : ((fun t : Task => decide (t.id = id)) ∘ taskWithoutOutput) =
        fun t : Task => decide (t.id = id) := rfl
    rw [hid]
    change Option.map _ (tasks.rows.find? _) = Option.map _ (tasks.rows.find? _)
    congr 1
    funext t
    exact (taskToSummary_withoutOutput t).symm
  rw [erased, erased, rows]

end WithoutOutputs

section Secrecy

/-- The answers that look the same to who may not see outputs. -/
def LooksAlike : (op : ReadOp) → op.Resp → op.Resp → Prop
  | .listEvents _ _, r, r' => r.map (List.map fun e => filterEvent e false) =
      r'.map (List.map fun e => filterEvent e false)
  | .getTask _, r, r' => r.map (Option.map taskToSummary) = r'.map (Option.map taskToSummary)
  | .getOutput _ _, _, _ => True
  | .receive, r, r' => r = r'

variable {p : AuthPrincipal}

theorem listed_cases {afterSeq limit : ℕ} {r r' : Except StoreError (List EventEntry)}
    (h : LooksAlike (.listEvents afterSeq limit) r r') :
    (∃ e, r = .error e ∧ r' = .error e) ∨ ∃ xs ys, r = .ok xs ∧ r' = .ok ys ∧
      (xs.map fun e => filterEvent e false) = ys.map fun e => filterEvent e false := by
  cases r with
  | error e =>
    cases r' with
    | error e' =>
      cases h
      exact .inl ⟨e, rfl, rfl⟩
    | ok ys => cases h
  | ok xs =>
    cases r' with
    | error e' => cases h
    | ok ys => exact .inr ⟨xs, ys, rfl, rfl, Except.ok.inj h⟩

theorem filterEvent_seq (x : EventEntry) (b : Bool) : (filterEvent x b).seq = x.seq := by
  obtain ⟨seq, event⟩ := x
  cases b <;> cases event <;> rfl

/-- Pages that look the same are as long and end at the same place. -/
theorem filtered_last {xs ys : List EventEntry}
    (h : (xs.map fun e => filterEvent e false) = ys.map fun e => filterEvent e false) :
    xs.getLast?.map EventEntry.seq = ys.getLast?.map EventEntry.seq := by
  have seqs (zs : List EventEntry) : zs.getLast?.map EventEntry.seq =
      (zs.map fun e => filterEvent e false).getLast?.map EventEntry.seq := by
    rw [List.getLast?_map, Option.map_map]
    congr 1
    funext x
    exact (filterEvent_seq x false).symm
  rw [seqs xs, seqs ys, h]

theorem listEvents_blind (hp : p.has .taskOutput = false) (q : ListEventsQuery) :
    Blind LooksAlike (listEvents p q) := by
  unfold listEvents
  split
  · exact blind_ret _
  · apply blind_step
    · intro r r' hr
      obtain ⟨e, rfl, rfl⟩ | ⟨xs, ys, rfl, rfl, hxy⟩ := listed_cases hr
      · rfl
      · simp only [maySeeTaskOutput, hp, filterEvents, Bool.false_eq_true, if_false, hxy]
    · intro r
      cases r <;> exact blind_ret _

theorem listenEvents_blind (wakes lastSeq : ℕ) (sent : List EventEntry) :
    Blind LooksAlike (listenEvents false wakes lastSeq sent) := by
  induction wakes generalizing lastSeq sent with
  | zero => exact blind_ret _
  | succ wakes ih =>
    apply blind_step
    · intro r r' hr
      cases hr
      rfl
    · intro wake
      split
      · exact ih lastSeq sent
      · apply blind_step
        · intro r r' hr
          obtain ⟨e, rfl, rfl⟩ | ⟨xs, ys, rfl, rfl, hxy⟩ := listed_cases hr
          · rfl
          · simp only [filtered_last hxy, hxy]
        · intro r
          cases r with
          | error e => exact ih lastSeq sent
          | ok events => exact ih _ _

theorem getTaskDetail_blind (hp : p.has .taskOutput = false) (raw : String) (id : Option TaskId) :
    Blind LooksAlike (getTaskDetailApi p raw id) := by
  unfold getTaskDetailApi
  split
  · exact blind_ret _
  · cases id with
    | none => exact blind_ret _
    | some taskId =>
      apply blind_step
      · intro r r' hr
        cases r with
        | error e =>
          cases r' with
          | error e' =>
            cases hr
            rfl
          | ok found => cases hr
        | ok found =>
          cases r' with
          | error e' => cases hr
          | ok found' =>
            have hsame : found.map taskToSummary = found'.map taskToSummary := Except.ok.inj hr
            cases found with
            | none =>
              cases found' with
              | none => rfl
              | some task' => cases hsame
            | some task =>
              cases found' with
              | none => cases hsame
              | some task' =>
                have hsummary : taskToSummary task = taskToSummary task' := Option.some.inj hsame
                simp only [hp, hsummary, Bool.false_eq_true, if_false]
      · intro r
        split
        · exact blind_ret _
        · exact blind_ret _
        · simp only [hp, Bool.false_eq_true, if_false]
          exact blind_ret _

theorem program_blind (hp : p.has .taskOutput = false) (q : Request) :
    Blind LooksAlike (q.program p) := by
  cases q with
  | listEvents q => exact listEvents_blind hp q
  | eventsStream wakes =>
    change Blind LooksAlike (eventsStream p wakes)
    unfold eventsStream
    split
    · exact blind_ret _
    · rw [maySeeTaskOutput, hp]
      exact blind_bind (listenEvents_blind wakes 0 []) fun _ => blind_ret _
  | getTaskDetail raw id => exact getTaskDetail_blind hp raw id

/-- Moments that differ in outputs answer what looks the same. -/
theorem answer_alike {m m' : Moment} (h : m.Alike m') (op : ReadOp) :
    LooksAlike op (m.answer op) (m'.answer op) := by
  have attempted {α β : Type} (g : α → β) {a a' : α} (ha : g a = g a') :
      (attempt m a).map g = (attempt m' a').map g := by
    unfold attempt
    rw [h.fault]
    cases m'.fault with
    | some e => rfl
    | none => exact congrArg Except.ok ha
  cases op with
  | listEvents afterSeq limit =>
    exact attempted _ (filtered_alike (listEvents_alike h.contents afterSeq limit))
  | getTask id => exact attempted _ (getTask_alike h.contents id)
  | getOutput id afterSeq => trivial
  | receive => exact h.wake

/-- In runs that differ in outputs, who may not see outputs gets the same responses. -/
theorem respond_alike (hp : p.has .taskOutput = false) {run run' : ℕ → Moment}
    (h : ∀ t, (run t).Alike (run' t)) (v : Visit) : respond p run v = respond p run' v := by
  refine amid_blind (program_blind hp v.request) (S := fun _ _ => True) ?_
    (fun n => h (v.moments n)) trivial
  intro m m' op _ _ hm _
  exact ⟨answer_alike hm op, trivial⟩

end Secrecy

section Delivery

/-- The entry is stored. -/
def Contents.Stores : Contents → EventEntry → Prop
  | mem _ events _, x => x ∈ events
  | pg _ events _, x => ⟨x.seq, x.event⟩ ∈ events.committed

theorem mem_listEvents {c : Contents} {afterSeq limit : ℕ} {x : EventEntry}
    (h : x ∈ c.listEvents afterSeq limit) : c.Stores x := by
  cases c with
  | mem tasks events outputs => exact (List.mem_filter.mp (List.mem_of_mem_take h)).1
  | pg tasks events outputs =>
    obtain ⟨y, hy, rfl⟩ := List.mem_map.mp h
    have hsorted := List.mem_of_mem_take hy
    rw [Feed.after, List.mem_insertionSort] at hsorted
    exact (List.mem_filter.mp hsorted).1

/-- A page as the store lists it. -/
def Listed (env : ℕ → Moment) (page : List EventEntry) : Prop :=
  ∃ n lastSeq, page = (env n).contents.listEvents lastSeq 100

/-- What is sent are the pages that were listed, one after the other. -/
theorem listened_pages (wakes lastSeq : ℕ) (sent : List EventEntry) (env : ℕ → Moment) :
    ∃ pages : List (List EventEntry), (∀ page ∈ pages, Listed env page) ∧
      ((listenEvents true wakes lastSeq sent).amid
        (fun m op (u : Unit) => (Moment.answer m op, u)) env ()).1 = sent ++ pages.flatten := by
  -- pages listed later were listed
  have later {env : ℕ → Moment} {k : ℕ} {page : List EventEntry}
      (h : Listed (fun n => env (n + k)) page) : Listed env page := by
    obtain ⟨n, last, rfl⟩ := h
    exact ⟨n + k, last, rfl⟩
  induction wakes generalizing lastSeq sent env with
  | zero => exact ⟨[], by simp, by simp [listenEvents, Prog.amid]⟩
  | succ wakes ih =>
    simp only [listenEvents, execute, Prog.perform_bind, Prog.amid, Moment.answer]
    split
    · obtain ⟨pages, hpages, he⟩ := ih lastSeq sent fun n => env (n + 1)
      exact ⟨pages, fun page hpage => later (hpages page hpage), he⟩
    · simp only [Prog.amid, attempt]
      cases (env 1).fault with
      | some e =>
        obtain ⟨pages, hpages, he⟩ := ih lastSeq sent fun n => env (n + 2)
        exact ⟨pages, fun page hpage => later (hpages page hpage), he⟩
      | none =>
        dsimp only
        obtain ⟨pages, hpages, he⟩ := ih _ _ fun n => env (n + 2)
        refine ⟨(env 1).contents.listEvents lastSeq 100 :: pages, ?_, he.trans ?_⟩
        · intro page hpage
          rcases List.mem_cons.mp hpage with rfl | hpage
          · exact ⟨1, lastSeq, rfl⟩
          · exact later (hpages page hpage)
        · have hsame : ((env 1).contents.listEvents lastSeq 100).map
              (fun e => filterEvent e true) = (env 1).contents.listEvents lastSeq 100 :=
            List.map_id _
          rw [hsame, List.flatten_cons, List.append_assoc]

end Delivery

section Viewers

def viewer : AuthPrincipal := ⟨[.eventsList, .taskRead]⟩

def operator : AuthPrincipal := ⟨[.eventsList, .taskRead, .taskOutput]⟩

def finished (output : String) : Task :=
  { id := ⟨1⟩, prompt := "run the tests", createdAt := 0, createdBy := "ann", threadId := ⟨1⟩
    status := .completed
      { output, exitCode := 0, durationSecs := 3, tokenUsage := none, workerId := ⟨2⟩
        finishedAt := 9 } }

/-- One task with its output in the log, in its row and in its buffer. -/
def told (output : String) (_ : ℕ) : Moment :=
  { contents := .mem ⟨[finished output], List.nodup_singleton _⟩
      [⟨1, .taskProgress ⟨1⟩ ⟨2⟩ 1 output 5⟩] fun _ => [output] }

def visits : List Visit :=
  [⟨.listEvents {}, id⟩, ⟨.eventsStream 1, id⟩, ⟨.getTaskDetail "1" (some ⟨1⟩), id⟩]

theorem told_alike (output output' : String) (t : ℕ) : (told output t).Alike (told output' t) :=
  ⟨.mem _ _ rfl rfl, rfl, rfl⟩

end Viewers

end FleetOrchestrator.Dashboard
