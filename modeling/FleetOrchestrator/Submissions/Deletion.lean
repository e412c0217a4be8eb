import FleetOrchestrator.Issues.Issue
import FleetOrchestrator.Store.SubmissionRuns

/-! The deletion of a task with everything that refers to it: what the one backend removes by hand
and the other leaves to its foreign keys. -/

namespace FleetOrchestrator.Submissions

open Core Tables Store Interleaving
open Issues (IssueId)

structure IssueTaskLink where
  issueId : IssueId
  taskId : Option TaskId
  taskLabel : String
  linkedBy : String
  linkedAt : ℤ
  deriving DecidableEq, Repr

structure EventRow where
  seq : ℕ
  taskId : Option TaskId
  deriving DecidableEq, Repr

structure TelemetryRow where
  id : ℕ
  taskId : TaskId
  deriving DecidableEq, Repr

/-- The column of the event rows and the table of telemetry are the database's alone. -/
structure TaskRelations where
  store : StoreState
  issueTaskLinks : List IssueTaskLink
  eventRows : List EventRow
  taskTelemetry : List TelemetryRow

def IssueTaskLink.unlink (id : TaskId) (l : IssueTaskLink) : IssueTaskLink :=
  if l.taskId = some id then { l with taskId := none } else l

def EventRow.unlink (id : TaskId) (e : EventRow) : EventRow :=
  if e.taskId = some id then { e with taskId := none } else e

namespace MemStore

def deleteTask (rank : TaskId → ℕ) (s : TaskRelations) (id : TaskId) :
    Except StoreError TaskDeleteOutcome × TaskRelations :=
  let dependentIds := pendingDependents s.store rank id
  if dependentIds ≠ [] then (.ok (.blockedByDependents dependentIds), s)
  else
    match MemStore.removeLocked s.store id with
    | (.ok .deleted, removed) =>
      (.ok .deleted, { s with
        store := MemStore.orphanChildren (MemStore.removeOutputs removed id) id
        issueTaskLinks := s.issueTaskLinks.map (IssueTaskLink.unlink id) })
    | (refused, _) => (refused, s)

end MemStore

namespace PgStore

/-- `DELETE FROM tasks`: what refers to the row goes with it (`ON DELETE CASCADE`), or its
reference does (`ON DELETE SET NULL`). -/
def deleteRow (s : TaskRelations) (id : TaskId) : TaskRelations where
  store := withoutTask s.store id
  issueTaskLinks := s.issueTaskLinks.map (IssueTaskLink.unlink id)
  eventRows := s.eventRows.map (EventRow.unlink id)
  taskTelemetry := s.taskTelemetry.filter fun r => r.taskId ≠ id

def deleteTerminal (s : TaskRelations) (id : TaskId) : ℕ × TaskRelations :=
  match s.store.tasks.get id with
  | none => (0, s)
  | some t => if t.phase.isTerminal then (1, deleteRow s id) else (0, s)

def deleteTask (rank : TaskId → ℕ) (s : TaskRelations) (id : TaskId) :
    Except StoreError TaskDeleteOutcome × TaskRelations :=
  let dependentIds := pendingDependents s.store rank id
  if dependentIds ≠ [] then (.ok (.blockedByDependents dependentIds), s)
  else
    let deleted := deleteTerminal s id
    if 0 < deleted.1 then (.ok .deleted, deleted.2)
    else
      match s.store.tasks.get id with
      | none => (.error .notFound, s)
      | some t => (.ok (.notTerminal t.phase), s)

end PgStore

def deleteTask : Backend → (TaskId → ℕ) → TaskRelations → TaskId →
    Except StoreError TaskDeleteOutcome × TaskRelations
  | .mem => MemStore.deleteTask
  | .pg => PgStore.deleteTask

/-- The pending tasks that wait for it, each once. -/
def Dependents (s : StoreState) (id : TaskId) (ids : List TaskId) : Prop :=
  ids.Nodup ∧ ∀ i, i ∈ ids ↔ ∃ t, s.tasks.get i = some t ∧ t.phase = .pending ∧
    id ∈ t.dependencyIds

/-- What each answer to a deletion says of the store, one after the other. -/
def DeleteTruth (s : StoreState) (id : TaskId) : Except StoreError TaskDeleteOutcome → Prop
  | .ok (.blockedByDependents ids) => ids ≠ [] ∧ Dependents s id ids
  | .error e => Dependents s id [] ∧ s.tasks.get id = none ∧ e = .notFound
  | .ok (.notTerminal current) => Dependents s id [] ∧
      ∃ t, s.tasks.get id = some t ∧ t.phase = current ∧ current.isTerminal = false
  | .ok .deleted => Dependents s id [] ∧
      ∃ t, s.tasks.get id = some t ∧ t.phase.isTerminal = true

/-- The store without the task. Only what referred to it by a key of the schema is touched. -/
structure Removes (b : Backend) (id : TaskId) (s s' : TaskRelations) : Prop where
  tasks : ∀ i, s'.store.tasks.get i =
    if i = id then none
    else (s.store.tasks.get i).map fun t =>
      { t with parentTaskId := if t.parentTaskId = some id then none else t.parentTaskId }
  outputs : s'.store.outputs = s.store.outputs.filter fun o => o.1 ≠ id
  rest : s'.store = { s.store with tasks := s'.store.tasks, outputs := s'.store.outputs }
  links : s'.issueTaskLinks = s.issueTaskLinks.map fun l =>
    { l with taskId := if l.taskId = some id then none else l.taskId }
  events : s'.eventRows =
    match b with
    | .mem => s.eventRows
    | .pg => s.eventRows.map fun e =>
      { e with taskId := if e.taskId = some id then none else e.taskId }
  telemetry : s'.taskTelemetry =
    match b with
    | .mem => s.taskTelemetry
    | .pg => s.taskTelemetry.filter fun r => r.taskId ≠ id

section Calls

variable {b : Backend} {rank : TaskId → ℕ} {s : TaskRelations} {id : TaskId} {t : Task}

theorem dropParent_eq (id : TaskId) (t : Task) : dropParent id t =
    { t with parentTaskId := if t.parentTaskId = some id then none else t.parentTaskId } := by
  unfold dropParent
  split <;> rfl

theorem linkUnlink_eq (id : TaskId) (l : IssueTaskLink) : l.unlink id =
    { l with taskId := if l.taskId = some id then none else l.taskId } := by
  unfold IssueTaskLink.unlink
  split <;> rfl

theorem eventUnlink_eq (id : TaskId) (e : EventRow) : e.unlink id =
    { e with taskId := if e.taskId = some id then none else e.taskId } := by
  unfold EventRow.unlink
  split <;> rfl

theorem dependents_pending (s : StoreState) (rank : TaskId → ℕ) (id : TaskId) :
    Dependents s id (pendingDependents s rank id) := by
  constructor
  · have hperm := List.perm_insertionSort (fun a b => rank (Task.id a) ≤ rank (Task.id b))
      s.tasks.rows
    have hnodup : ((inOrder rank Task.id s.tasks.rows).map Task.id).Nodup :=
      (hperm.map Task.id).nodup_iff.mpr s.tasks.nodup
    exact (List.filter_sublist.map Task.id).nodup hnodup
  · intro i
    simp only [pendingDependents, List.mem_map, List.mem_filter, mem_inOrder, Bool.and_eq_true,
      decide_eq_true_eq, List.contains_iff_mem]
    constructor
    · rintro ⟨t, ⟨ht, hp, hd⟩, rfl⟩
      exact ⟨t, Keyed.get_of_mem ht, hp, hd⟩
    · rintro ⟨t, ht, hp, hd⟩
      exact ⟨t, ⟨(Keyed.get_eq_some.mp ht).1, hp, hd⟩, Keyed.get_key ht⟩

theorem tasks_withoutTask (s : StoreState) (id i : TaskId) :
    (withoutTask s id).tasks.get i = if i = id then none else (s.tasks.get i).map fun t =>
      { t with parentTaskId := if t.parentTaskId = some id then none else t.parentTaskId } := by
  rw [get_withoutTask]
  split
  · rfl
  · exact congrArg (fun f => Option.map f (s.tasks.get i)) (funext (dropParent_eq id))

theorem deleteRow_removes (s : TaskRelations) (id : TaskId) :
    Removes .pg id s (PgStore.deleteRow s id) where
  tasks := tasks_withoutTask s.store id
  outputs := rfl
  rest := rfl
  links := List.map_congr_left fun l _ => linkUnlink_eq id l
  events := List.map_congr_left fun e _ => eventUnlink_eq id e
  telemetry := rfl

/-- By hand the same rows go, as far as the backend has them. -/
def MemStore.removed (s : TaskRelations) (id : TaskId) : TaskRelations :=
  { s with
    store := withoutTask s.store id
    issueTaskLinks := s.issueTaskLinks.map (IssueTaskLink.unlink id) }

theorem removed_removes (s : TaskRelations) (id : TaskId) :
    Removes .mem id s (MemStore.removed s id) where
  tasks := tasks_withoutTask s.store id
  outputs := rfl
  rest := rfl
  links := List.map_congr_left fun l _ => linkUnlink_eq id l
  events := rfl
  telemetry := rfl

/-- A task whose removal leaves nobody waiting for it. -/
theorem removes_dependents {s' : TaskRelations} (h : Removes b id s s')
    (hd : Dependents s.store id []) : Dependents s'.store id [] := by
  refine ⟨List.nodup_nil, ?_⟩
  intro i
  constructor
  · intro hi
    cases hi
  · rintro ⟨t', ht', hp, hdep⟩
    rw [h.tasks] at ht'
    split at ht'
    · cases ht'
    · obtain ⟨t, ht, rfl⟩ := Option.map_eq_some_iff.mp ht'
      exact (hd.2 i).mpr ⟨t, ht, hp, hdep⟩

/-- What a call does in the store, case by case. -/
inductive Outcome (b : Backend) (s : TaskRelations) (id : TaskId) :
    Except StoreError TaskDeleteOutcome × TaskRelations → Prop
  | blocked (ids : List TaskId) (hne : ids ≠ []) (hd : Dependents s.store id ids) :
    Outcome b s id (.ok (.blockedByDependents ids), s)
  | missing (hd : Dependents s.store id []) (h : s.store.tasks.get id = none) :
    Outcome b s id (.error .notFound, s)
  | refused (hd : Dependents s.store id []) (t : Task) (h : s.store.tasks.get id = some t)
    (hp : t.phase.isTerminal = false) : Outcome b s id (.ok (.notTerminal t.phase), s)
  | deleted (hd : Dependents s.store id []) (t : Task) (h : s.store.tasks.get id = some t)
    (hp : t.phase.isTerminal = true) (s' : TaskRelations) (hr : Removes b id s s') :
    Outcome b s id (.ok .deleted, s')

theorem mem_outcome : Outcome .mem s id (MemStore.deleteTask rank s id) := by
  have hd := dependents_pending s.store rank id
  unfold MemStore.deleteTask
  by_cases hne : pendingDependents s.store rank id = []
  · rw [hne] at hd
    rw [if_neg (not_not.mpr hne)]
    cases h : s.store.tasks.get id with
    | none =>
      have hlocked : MemStore.removeLocked s.store id = (.error .notFound, s.store) := by
        simp only [MemStore.removeLocked, h]
      rw [hlocked]
      exact .missing hd h
    | some t =>
      cases hp : t.phase.isTerminal with
      | false =>
        have hlocked : MemStore.removeLocked s.store id =
            (.ok (.notTerminal t.phase), s.store) := by
          simp [MemStore.removeLocked, h, hp]
        rw [hlocked]
        exact .refused hd t h hp
      | true =>
        have hlocked : MemStore.removeLocked s.store id =
            (.ok .deleted, { s.store with tasks := s.store.tasks.erase id }) := by
          simp [MemStore.removeLocked, h, hp]
        rw [hlocked]
        exact .deleted hd t h hp _ (removed_removes s id)
  · rw [if_pos hne]
    exact .blocked _ hne hd

theorem pg_outcome : Outcome .pg s id (PgStore.deleteTask rank s id) := by
  have hd := dependents_pending s.store rank id
  unfold PgStore.deleteTask
  by_cases hne : pendingDependents s.store rank id = []
  · rw [hne] at hd
    rw [if_neg (not_not.mpr hne)]
    cases h : s.store.tasks.get id with
    | none =>
      have hrow : PgStore.deleteTerminal s id = (0, s) := by simp only [PgStore.deleteTerminal, h]
      rw [hrow]
      exact .missing hd h
    | some t =>
      cases hp : t.phase.isTerminal with
      | false =>
        have hrow : PgStore.deleteTerminal s id = (0, s) := by
          simp [PgStore.deleteTerminal, h, hp]
        rw [hrow]
        exact .refused hd t h hp
      | true =>
        have hrow : PgStore.deleteTerminal s id = (1, PgStore.deleteRow s id) := by
          simp [PgStore.deleteTerminal, h, hp]
        rw [hrow]
        exact .deleted hd t h hp _ (deleteRow_removes s id)
  · rw [if_pos hne]
    exact .blocked _ hne hd

theorem deleteTask_outcome (b : Backend) : Outcome b s id (deleteTask b rank s id) := by
  cases b with
  | mem => exact mem_outcome
  | pg => exact pg_outcome

theorem outcome_truth {r : Except StoreError TaskDeleteOutcome × TaskRelations}
    (h : Outcome b s id r) : DeleteTruth s.store id r.1 := by
  cases h with
  | blocked ids hne hd => exact ⟨hne, hd⟩
  | missing hd h => exact ⟨hd, h, rfl⟩
  | refused hd t h hp => exact ⟨hd, t, h, rfl, hp⟩
  | deleted hd t h hp => exact ⟨hd, t, h, hp⟩

theorem outcome_effect {r : Except StoreError TaskDeleteOutcome × TaskRelations}
    (h : Outcome b s id r) :
    (r.1 ≠ .ok .deleted → r.2 = s) ∧
      (r.1 = .ok .deleted → Removes b id s r.2 ∧ Dependents r.2.store id []) := by
  cases h with
  | deleted hd t h hp s' hr => exact ⟨fun hne => absurd rfl hne, fun _ => ⟨hr, removes_dependents hr hd⟩⟩
  | _ => exact ⟨fun _ => rfl, nofun⟩

/-- Both backends answer alike, and alike change the tables that both have. -/
theorem deleteTask_agree :
    (deleteTask .pg rank s id).1 = (deleteTask .mem rank s id).1 ∧
      (deleteTask .pg rank s id).2.store = (deleteTask .mem rank s id).2.store ∧
      (deleteTask .pg rank s id).2.issueTaskLinks =
        (deleteTask .mem rank s id).2.issueTaskLinks := by
  simp only [deleteTask, MemStore.deleteTask, PgStore.deleteTask]
  by_cases hne : pendingDependents s.store rank id = []
  · rcases Option.eq_none_or_eq_some (s.store.tasks.get id) with h | ⟨t, h⟩
    · simp [hne, MemStore.removeLocked, PgStore.deleteTerminal, h]
    · cases hp : t.phase.isTerminal with
      | false => simp [hne, MemStore.removeLocked, PgStore.deleteTerminal, h, hp]
      | true =>
        simp [hne, MemStore.removeLocked, PgStore.deleteTerminal, h, hp, PgStore.deleteRow,
          withoutTask, MemStore.orphanChildren, MemStore.removeOutputs]
  · rw [if_pos hne, if_pos hne]
    exact ⟨rfl, rfl, rfl⟩

theorem serveDelete_alone :
    (MemStore.serveDelete id).alone (Statement.exec rank) s.store =
      ((MemStore.deleteTask rank s id).1, (MemStore.deleteTask rank s id).2.store) := by
  unfold MemStore.serveDelete MemStore.deleteTask
  by_cases hne : pendingDependents s.store rank id = []
  · cases h : s.store.tasks.get id with
    | none => simp [execute, Prog.alone, Statement.exec, hne, h, MemStore.removeLocked]
    | some t =>
      cases hp : t.phase.isTerminal <;>
        simp [execute, Prog.alone, Statement.exec, hne, h, hp, MemStore.removeLocked]
  · simp [execute, Prog.alone, Statement.exec, hne]

/-- The call is the run of its statements with nobody in between. -/
theorem deleteTask_alone (b : Backend) :
    (Store.serve b (.delete id)).alone (Statement.exec rank) s.store =
      (.deleted (deleteTask b rank s id).1, (deleteTask b rank s id).2.store) := by
  cases b with
  | mem =>
    change (Reply.deleted <$> MemStore.serveDelete id).alone _ _ = _
    rw [Prog.alone_map, serveDelete_alone]
    rfl
  | pg =>
    change (Reply.deleted <$> PgStore.serveDelete id).alone _ _ = _
    obtain ⟨hreply, hstore, -⟩ := @deleteTask_agree rank s id
    rw [Prog.alone_map, serveDelete_agree, serveDelete_alone, hreply, hstore]
    rfl

/-- The precedence of the answers, their truth, and what a deletion takes along. -/
theorem deleteTask_exact (b : Backend) (rank : TaskId → ℕ) (s : TaskRelations) (id : TaskId) :
    DeleteTruth s.store id (deleteTask b rank s id).1 ∧
      ((deleteTask b rank s id).1 ≠ .ok .deleted → (deleteTask b rank s id).2 = s) ∧
      ((deleteTask b rank s id).1 = .ok .deleted →
        Removes b id s (deleteTask b rank s id).2 ∧
          Dependents (deleteTask b rank s id).2.store id []) ∧
      (deleteTask .pg rank s id).1 = (deleteTask .mem rank s id).1 ∧
      (deleteTask .pg rank s id).2.store = (deleteTask .mem rank s id).2.store ∧
      (deleteTask .pg rank s id).2.issueTaskLinks =
        (deleteTask .mem rank s id).2.issueTaskLinks :=
  ⟨outcome_truth (deleteTask_outcome b), (outcome_effect (deleteTask_outcome b)).1,
    (outcome_effect (deleteTask_outcome b)).2, deleteTask_agree⟩

end Calls

def finished : Task where
  id := ⟨1⟩
  prompt := ""
  createdAt := 0
  createdBy := ""
  status := .cancelled "" 0
  threadId := ⟨1⟩

/-- One finished task, with a row of telemetry and an event. -/
def traced : TaskRelations where
  store := { StoreState.empty with tasks := Keyed.empty.put finished }
  issueTaskLinks := []
  eventRows := [⟨1, some ⟨1⟩⟩]
  taskTelemetry := [⟨1, ⟨1⟩⟩]

theorem deleteTask_traced :
    (deleteTask .pg (fun id => id.uuid) traced ⟨1⟩).1 = .ok .deleted ∧
      (deleteTask .pg (fun id => id.uuid) traced ⟨1⟩).2.eventRows ≠ traced.eventRows ∧
      (deleteTask .pg (fun id => id.uuid) traced ⟨1⟩).2.taskTelemetry ≠ traced.taskTelemetry := by
  decide

end FleetOrchestrator.Submissions
