import FleetOrchestrator.Store.Lease
import Mathlib.Data.List.Sort

/-! The other reads and writes of the store. Where a backend leaves the order of its answer open,
a ranking of the rows settles it. -/

namespace FleetOrchestrator.Store

open Core Tables

section Rows

def inOrder {κ : Type} (rank : κ → ℕ) {ρ : Type} (key : ρ → κ) (rows : List ρ) : List ρ :=
  rows.insertionSort fun a b => rank (key a) ≤ rank (key b)

def newestFirst {ρ : Type} (at_ : ρ → ℤ) (rows : List ρ) : List ρ :=
  rows.insertionSort fun a b => at_ b ≤ at_ a

def oldestFirst {ρ : Type} (at_ : ρ → ℤ) (rows : List ρ) : List ρ :=
  rows.insertionSort fun a b => at_ a ≤ at_ b

def page {ρ : Type} (offset limit : ℕ) (rows : List ρ) : List ρ := (rows.drop offset).take limit

theorem mem_inOrder {κ ρ : Type} {rank : κ → ℕ} {key : ρ → κ} {rows : List ρ} {r : ρ} :
    r ∈ inOrder rank key rows ↔ r ∈ rows := List.mem_insertionSort _

theorem mem_newestFirst {ρ : Type} {at_ : ρ → ℤ} {rows : List ρ} {r : ρ} :
    r ∈ newestFirst at_ rows ↔ r ∈ rows := List.mem_insertionSort _

theorem mem_oldestFirst {ρ : Type} {at_ : ρ → ℤ} {rows : List ρ} {r : ρ} :
    r ∈ oldestFirst at_ rows ↔ r ∈ rows := List.mem_insertionSort _

theorem mem_of_mem_page {ρ : Type} {offset limit : ℕ} {rows : List ρ} {r : ρ}
    (h : r ∈ page offset limit rows) : r ∈ rows :=
  List.mem_of_mem_drop (List.mem_of_mem_take h)

end Rows

def createdByMatches (filter : TaskFilter) (t : Task) : Bool :=
  match filter.createdBy with
  | some createdBy => t.createdBy = createdBy
  | none => true

def workerMatches (filter : TaskFilter) (t : Task) : Bool :=
  match filter.workerId with
  | some w => t.status.workerId? = some w
  | none => true

def statusMatches (filter : TaskFilter) (t : Task) : Bool :=
  match filter.status with
  | some f => f.admits t
  | none => true

def taskAlreadyExists (id : TaskId) : StoreError :=
  .conflict ("task already exists: " ++ toString id)

def sameKey (t : Task) (key : String) (other : Task) : Bool :=
  other.createdBy = t.createdBy && other.idempotencyKey = some key

def judgeExisting (t existing : Task) : IdempotentInsert :=
  if existing.idempotencyPayloadHash = t.idempotencyPayloadHash then .duplicate existing
  else .conflict existing.id

def withTask (s : StoreState) (t : Task) : StoreState := { s with tasks := s.tasks.put t }

def setSession (sessionId : SessionId) (t : Task) : Task := { t with acpSessionId := some sessionId }

def setSkills (snapshot : List SkillSnapshotEntry) (t : Task) : Task :=
  { t with skillSnapshot := some snapshot }

def bumpRetry (t : Task) : Task := { t with retryCount := t.retryCount + 1 }

def dropParent (parent : TaskId) (t : Task) : Task :=
  if t.parentTaskId = some parent then { t with parentTaskId := none } else t

theorem setSession_id (sessionId : SessionId) (t : Task) : (setSession sessionId t).id = t.id := rfl

theorem setSkills_id (snapshot : List SkillSnapshotEntry) (t : Task) :
    (setSkills snapshot t).id = t.id := rfl

theorem bumpRetry_id (t : Task) : (bumpRetry t).id = t.id := rfl

theorem dropParent_id (parent : TaskId) (t : Task) : (dropParent parent t).id = t.id := by
  unfold dropParent
  split <;> rfl

/-- The removal of a row, and what refers to it. -/
def withoutTask (s : StoreState) (id : TaskId) : StoreState :=
  { s with
    tasks := (s.tasks.erase id).updateWhere (fun _ => true) (dropParent id) (dropParent_id id)
    outputs := s.outputs.filter fun o => o.1 ≠ id }

namespace MemStore

def insertTaskIdempotent (s : StoreState) (rank : TaskId → ℕ) (t : Task) :
    Except StoreError IdempotentInsert × StoreState :=
  if s.tasks.contains t.id then (.error (taskAlreadyExists t.id), s)
  else
    match t.idempotencyKey with
    | none => (.ok .inserted, withTask s t)
    | some key =>
      match (inOrder rank Task.id s.tasks.rows).find? (sameKey t key) with
      | none => (.ok .inserted, withTask s t)
      | some existing => (.ok (judgeExisting t existing), s)

def listTasks (s : StoreState) (rank : TaskId → ℕ) (filter : TaskFilter) : List Task :=
  let out := ((inOrder rank Task.id s.tasks.rows).filter (createdByMatches filter)
    |>.filter (workerMatches filter)).filter (statusMatches filter)
  page filter.offset filter.limit (newestFirst Task.createdAt out)

def listThreadTasks (s : StoreState) (rank : TaskId → ℕ) (threadId : TaskId) : List Task :=
  oldestFirst Task.createdAt
    ((listTasks s rank { limit := 10000 }).filter fun t => t.threadId = threadId)

/-- A column written once. -/
def recordOnce (s : StoreState) (id : TaskId) (fence : Option ControlFence) (isSet : Task → Bool)
    (set : Task → Task) (hset : ∀ t, (set t).id = t.id) : Bool × StoreState :=
  if !s.controlFenceHolds fence then (false, s)
  else
    match s.tasks.get id with
    | none => (false, s)
    | some t =>
      if isSet t then (false, s) else (true, { s with tasks := s.tasks.modify id set hset })

def removeTerminal (s : StoreState) (id : TaskId) :
    Except StoreError TaskDeleteOutcome × StoreState :=
  match s.tasks.get id with
  | none => (.error .notFound, s)
  | some t =>
    if !t.phase.isTerminal then (.ok (.notTerminal t.phase), s)
    else (.ok .deleted, withoutTask s id)

end MemStore

namespace PgStore

def duplicateKey : StoreError :=
  .sqlx "error returned from database: duplicate key value violates unique constraint \"tasks_pkey\""

/-- The columns the insertion leaves out take their defaults. -/
def insertedRow (t : Task) : Task :=
  { t with
    retryCount := 0, dispatchControlEpoch := none, acpSessionId := none, skillSnapshot := none }

/-- The insertion and the lookup of the winner, which only a delete could come between. -/
def insertTaskIdempotent (s : StoreState) (rank : TaskId → ℕ) (t : Task) :
    Except StoreError IdempotentInsert × StoreState :=
  match t.idempotencyKey with
  | none =>
    if s.tasks.contains t.id then (.error duplicateKey, s)
    else (.ok .inserted, withTask s (insertedRow t))
  | some key =>
    match (inOrder rank Task.id s.tasks.rows).find? (sameKey t key) with
    | some existing => (.ok (judgeExisting t existing), s)
    | none =>
      if s.tasks.contains t.id then (.error duplicateKey, s)
      else (.ok .inserted, withTask s (insertedRow t))

/-- The page is cut before the status filter, and never longer than a thousand rows. -/
def listTasks (s : StoreState) (rank : TaskId → ℕ) (filter : TaskFilter) : List Task :=
  let rows := ((inOrder rank Task.id s.tasks.rows).filter (createdByMatches filter)).filter
    (workerMatches filter)
  (page filter.offset (min filter.limit 1000) (newestFirst Task.createdAt rows)).filter
    (statusMatches filter)

def listThreadTasks (s : StoreState) (rank : TaskId → ℕ) (threadId : TaskId) : List Task :=
  oldestFirst Task.createdAt
    ((inOrder rank Task.id s.tasks.rows).filter fun t => t.threadId = threadId)

def recordMatches (s : StoreState) (id : TaskId) (fence : Option ControlFence)
    (isSet : Task → Bool) (t : Task) : Bool :=
  t.id = id && !isSet t &&
    match fence with
    | none => true
    | some f => s.leaseExists f

def recordOnce (s : StoreState) (id : TaskId) (fence : Option ControlFence) (isSet : Task → Bool)
    (set : Task → Task) (hset : ∀ t, (set t).id = t.id) : Bool × StoreState :=
  let p := recordMatches s id fence isSet
  if 0 < s.tasks.rowsAffected p then
    (true, { s with tasks := s.tasks.updateWhere p set hset })
  else (false, s)

end PgStore

namespace Backend

def insertTaskIdempotent : Backend → StoreState → (TaskId → ℕ) → Task →
    Except StoreError IdempotentInsert × StoreState
  | .mem => MemStore.insertTaskIdempotent
  | .pg => PgStore.insertTaskIdempotent

def insertedRow : Backend → Task → Task
  | .mem => id
  | .pg => PgStore.insertedRow

def listTasks : Backend → StoreState → (TaskId → ℕ) → TaskFilter → List Task
  | .mem => MemStore.listTasks
  | .pg => PgStore.listTasks

def listThreadTasks : Backend → StoreState → (TaskId → ℕ) → TaskId → List Task
  | .mem => MemStore.listThreadTasks
  | .pg => PgStore.listThreadTasks

def recordOnce : Backend → StoreState → TaskId → Option ControlFence → (Task → Bool) →
    (set : Task → Task) → (∀ t, (set t).id = t.id) → Bool × StoreState
  | .mem => MemStore.recordOnce
  | .pg => PgStore.recordOnce

def recordTaskAcpSession (b : Backend) (s : StoreState) (id : TaskId) (sessionId : SessionId)
    (fence : Option ControlFence) : Bool × StoreState :=
  b.recordOnce s id fence (fun t => t.acpSessionId.isSome) (setSession sessionId)
    (setSession_id sessionId)

def recordTaskSkillSnapshot (b : Backend) (s : StoreState) (id : TaskId)
    (snapshot : List SkillSnapshotEntry) (fence : Option ControlFence) : Bool × StoreState :=
  b.recordOnce s id fence (fun t => t.skillSnapshot.isSome) (setSkills snapshot)
    (setSkills_id snapshot)

end Backend

def incrementTaskRetryCount (s : StoreState) (id : TaskId) : Except StoreError ℕ × StoreState :=
  match s.tasks.get id with
  | none => (.error .notFound, s)
  | some t => (.ok (t.retryCount + 1), { s with tasks := s.tasks.modify id bumpRetry bumpRetry_id })

def findTaskByAcpSession (s : StoreState) (rank : TaskId → ℕ) (sessionId : SessionId) :
    Option Task :=
  (inOrder rank Task.id s.tasks.rows).find? fun t => t.acpSessionId = some sessionId

def countDispatchedTasksByWorker (s : StoreState) (w : WorkerId) : ℕ :=
  s.tasks.rows.countP fun t =>
    match t.status with
    | .dispatched worker _ => worker = w
    | _ => false

def pendingDependents (s : StoreState) (rank : TaskId → ℕ) (id : TaskId) : List TaskId :=
  ((inOrder rank Task.id s.tasks.rows).filter fun t =>
    t.phase = .pending && t.dependencyIds.contains id).map Task.id

def listWorkers (s : StoreState) (rank : WorkerId → ℕ) (filter : WorkerFilter) : List Worker :=
  page filter.offset filter.limit <| newestFirst Worker.registeredAt <|
    (inOrder rank Worker.id s.workers.rows).filter fun w =>
      (match filter.status with
        | some st => w.status = st
        | none => true) &&
      filter.labels.all fun l => w.label l.1 = some l.2

def getWorkerByName (s : StoreState) (name : String) : Option Worker :=
  s.workers.rows.find? fun w => w.name = name

def stampActivity (now : ℤ) (w : Worker) : Worker := { w with lastActivityAt := some now }

def setCircuit (st : CircuitState) (w : Worker) : Worker := { w with circuitState := st }

theorem stampActivity_id (now : ℤ) (w : Worker) : (stampActivity now w).id = w.id := rfl

theorem setCircuit_id (st : CircuitState) (w : Worker) : (setCircuit st w).id = w.id := rfl

def recordWorkerActivity (s : StoreState) (w : WorkerId) : Bool × StoreState :=
  (s.workers.contains w,
    { s with workers := s.workers.modify w (stampActivity s.now) (stampActivity_id s.now) })

def updateWorkerCircuitState (s : StoreState) (w : WorkerId) (st : CircuitState) :
    Except StoreError Unit × StoreState :=
  if s.workers.contains w then
    (.ok (), { s with workers := s.workers.modify w (setCircuit st) (setCircuit_id st) })
  else (.error .notFound, s)

def hasWorkerCredential (s : StoreState) (workerName model : String) : Bool :=
  s.credentials.contains (workerName, model)

def listAgents (s : StoreState) (rank : AgentId → ℕ) (limit : ℕ) : List Agent :=
  (newestFirst Agent.createdAt (inOrder rank Agent.id s.agents.rows)).take (max limit 1)

section Reads

variable {b : Backend} {s : StoreState} {rank : TaskId → ℕ} {filter : TaskFilter} {t : Task}

/-- Whatever the backend cuts off, what it lists are rows, and the ones asked for. -/
theorem mem_listTasks (h : t ∈ b.listTasks s rank filter) :
    s.tasks.get t.id = some t ∧ workerMatches filter t = true ∧ statusMatches filter t = true := by
  suffices t ∈ s.tasks.rows ∧ workerMatches filter t = true ∧ statusMatches filter t = true from
    ⟨Keyed.get_of_mem this.1, this.2⟩
  cases b with
  | mem =>
    have hm := mem_newestFirst.mp (mem_of_mem_page h)
    simp only [List.mem_filter, mem_inOrder] at hm
    exact ⟨hm.1.1.1, hm.1.2, hm.2⟩
  | pg =>
    obtain ⟨hp, hs⟩ := List.mem_filter.mp h
    have hm := mem_newestFirst.mp (mem_of_mem_page hp)
    simp only [List.mem_filter, mem_inOrder] at hm
    exact ⟨hm.1.1, hm.2, hs⟩

theorem find_session {sessionId : SessionId}
    (h : findTaskByAcpSession s rank sessionId = some t) :
    s.tasks.get t.id = some t ∧ t.acpSessionId = some sessionId := by
  have hm := mem_inOrder.mp (List.mem_of_find?_eq_some h)
  have hs := List.find?_some h
  exact ⟨Keyed.get_of_mem hm, by simpa using hs⟩

end Reads

section Writes

variable {b : Backend} {s : StoreState} {rank : TaskId → ℕ} {t : Task} {id : TaskId}

theorem insertedRow_id : (b.insertedRow t).id = t.id := by
  cases b <;> rfl

theorem insert_cases (b : Backend) (s : StoreState) (rank : TaskId → ℕ) (t : Task) :
    (b.insertTaskIdempotent s rank t = (.ok .inserted, withTask s (b.insertedRow t)) ∧
      s.tasks.get t.id = none) ∨
    ∃ r, b.insertTaskIdempotent s rank t = (r, s) ∧ r ≠ .ok .inserted := by
  have judged (existing : Task) :
      (Except.ok (judgeExisting t existing) : Except StoreError IdempotentInsert) ≠
        .ok .inserted := by
    unfold judgeExisting
    split <;> simp
  have free (hc : ¬ s.tasks.contains t.id = true) : s.tasks.get t.id = none := by
    rw [Keyed.contains_eq] at hc
    simpa using hc
  cases b with
  | mem =>
    simp only [Backend.insertTaskIdempotent, MemStore.insertTaskIdempotent]
    by_cases hc : s.tasks.contains t.id = true
    · exact .inr ⟨_, if_pos hc, by simp⟩
    · rw [if_neg hc]
      cases t.idempotencyKey with
      | none => exact .inl ⟨rfl, free hc⟩
      | some key =>
        dsimp only
        split
        · exact .inl ⟨rfl, free hc⟩
        · exact .inr ⟨_, rfl, judged _⟩
  | pg =>
    simp only [Backend.insertTaskIdempotent, PgStore.insertTaskIdempotent]
    cases t.idempotencyKey with
    | none =>
      by_cases hc : s.tasks.contains t.id = true
      · exact .inr ⟨_, if_pos hc, by simp⟩
      · exact .inl ⟨if_neg hc, free hc⟩
    | some key =>
      dsimp only
      split
      · exact .inr ⟨_, rfl, judged _⟩
      · by_cases hc : s.tasks.contains t.id = true
        · exact .inr ⟨_, if_pos hc, by simp⟩
        · exact .inl ⟨if_neg hc, free hc⟩

theorem recordOnce_cases (b : Backend) (s : StoreState) (id : TaskId) (fence : Option ControlFence)
    (isSet : Task → Bool) (set : Task → Task) (hset : ∀ t, (set t).id = t.id) :
    (∃ t, s.tasks.get id = some t ∧ isSet t = false ∧ s.controlFenceHolds fence = true ∧
      b.recordOnce s id fence isSet set hset =
        (true, { s with tasks := s.tasks.modify id set hset })) ∨
    b.recordOnce s id fence isSet set hset = (false, s) := by
  have matched {t : Task} : PgStore.recordMatches s id fence isSet t = true ↔
      t.id = id ∧ isSet t = false ∧ s.controlFenceHolds fence = true := by
    cases fence with
    | none => simp [PgStore.recordMatches, StoreState.controlFenceHolds]
    | some f => simp [PgStore.recordMatches, leaseExists_eq, and_assoc]
  by_cases h : ∃ t, s.tasks.get id = some t ∧ isSet t = false ∧ s.controlFenceHolds fence = true
  · obtain ⟨t, ht, hi, hf⟩ := h
    refine .inl ⟨t, ht, hi, hf, ?_⟩
    cases b with
    | mem => simp [Backend.recordOnce, MemStore.recordOnce, hf, ht, hi]
    | pg =>
      have only (x : Task) (hx : x ∈ s.tasks.rows) :
          PgStore.recordMatches s id fence isSet x = true ↔ x.id = id := by
        rw [matched]
        refine ⟨fun hm => hm.1, fun hk => ?_⟩
        have hg := Keyed.get_of_mem hx
        rw [hk, ht] at hg
        cases hg
        exact ⟨hk, hi, hf⟩
      have hp : 0 < s.tasks.rowsAffected (PgStore.recordMatches s id fence isSet) :=
        Keyed.rowsAffected_pos.mpr ⟨t, (Keyed.get_eq_some.mp ht).1,
          matched.mpr ⟨Keyed.get_key ht, hi, hf⟩⟩
      have hu := Keyed.updateWhere_eq_modify (hset) only
      simp only [Backend.recordOnce, PgStore.recordOnce, if_pos hp]
      rw [hu]
  · refine .inr ?_
    cases b with
    | mem =>
      simp only [Backend.recordOnce, MemStore.recordOnce]
      by_cases hf : s.controlFenceHolds fence = true
      · cases ht : s.tasks.get id with
        | none => simp
        | some t =>
          have hi : isSet t = true := by
            by_contra hi
            exact h ⟨t, ht, by simpa using hi, hf⟩
          simp [hi]
      · simp [hf]
    | pg =>
      have hp : ¬ 0 < s.tasks.rowsAffected (PgStore.recordMatches s id fence isSet) := by
        rw [Keyed.rowsAffected_pos]
        rintro ⟨x, hx, hm⟩
        obtain ⟨hk, hi, hf⟩ := matched.mp hm
        exact h ⟨x, hk ▸ Keyed.get_of_mem hx, hi, hf⟩
      simp only [Backend.recordOnce, PgStore.recordOnce, if_neg hp]

theorem get_withTask :
    (withTask s t).tasks.get id = if id = t.id then some t else s.tasks.get id := by
  unfold withTask
  split
  · next hi =>
    subst hi
    exact Keyed.get_put_self
  · next hi => exact Keyed.get_put_ne hi

theorem get_withoutTask {i : TaskId} :
    (withoutTask s id).tasks.get i =
      if i = id then none else (s.tasks.get i).map (dropParent id) := by
  unfold withoutTask
  rw [Keyed.get_updateWhere]
  by_cases hi : i = id
  · subst hi
    rw [Keyed.get_erase_self, if_pos rfl]
    rfl
  · rw [Keyed.get_erase_ne hi, if_neg hi]
    simp

end Writes

end FleetOrchestrator.Store
