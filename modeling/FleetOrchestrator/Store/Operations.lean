import FleetOrchestrator.Store.LeaseRuns
import FleetOrchestrator.Store.Tasks

/-! One call of the store as one atomic step, and all it can do to a task row. -/

namespace FleetOrchestrator.Store

open Core Tables

inductive StoreOp where
  | insertTaskIdempotent (t : Task)
  | getTask (id : TaskId)
  | compareAndSetTaskStatus (id : TaskId) (expected : List TaskPhase) (new : TaskStatus)
      (fence : Option ControlFence) (origin : TransitionOrigin)
  | incrementTaskRetryCount (id : TaskId)
  | recordTaskAcpSession (id : TaskId) (sessionId : SessionId) (fence : Option ControlFence)
  | recordTaskSkillSnapshot (id : TaskId) (snapshot : List SkillSnapshotEntry)
      (fence : Option ControlFence)
  | findTaskByAcpSession (sessionId : SessionId)
  | countDispatchedTasksByWorker
  | listTasks (filter : TaskFilter)
  | listThreadTasks (threadId : TaskId)
  | pendingDependents (id : TaskId)
  | removeTerminal (id : TaskId)
  | getWorker (id : WorkerId)
  | getWorkerByName (name : String)
  | listWorkers (filter : WorkerFilter)
  | recordWorkerActivity (id : WorkerId)
  | updateWorkerCircuitState (id : WorkerId) (st : CircuitState)
  | getWorkerCredential (workerName model : String)
  | getAgent (id : AgentId)
  | listAgents (limit : ℕ)
  | getAgentTemplateRevision (revision : ℕ)
  | appendEvent (e : FleetEvent)
  | appendOutput (id : TaskId) (chunk : String)
  | recordAuditEvent (e : AuditEvent)
  | acquireControlLease (clusterId instanceId : String) (ttl : ℕ) (binaryVersion : Option String)
  | renewControlLease (clusterId instanceId : String) (epoch : ℤ) (ttl : ℕ)
  | releaseControlLease (clusterId instanceId : String) (epoch : ℤ)
  deriving DecidableEq

namespace StoreOp

@[reducible] def Answer : StoreOp → Type
  | insertTaskIdempotent _ => IdempotentInsert
  | getTask _ => Option Task
  | compareAndSetTaskStatus .. => TransitionOutcome
  | incrementTaskRetryCount _ => ℕ
  | recordTaskAcpSession .. => Bool
  | recordTaskSkillSnapshot .. => Bool
  | findTaskByAcpSession _ => Option Task
  | countDispatchedTasksByWorker => WorkerId → ℕ
  | listTasks _ => List Task
  | listThreadTasks _ => List Task
  | pendingDependents _ => List TaskId
  | removeTerminal _ => TaskDeleteOutcome
  | getWorker _ => Option Worker
  | getWorkerByName _ => Option Worker
  | listWorkers _ => List Worker
  | recordWorkerActivity _ => Bool
  | updateWorkerCircuitState .. => Unit
  | getWorkerCredential .. => Bool
  | getAgent _ => Option Agent
  | listAgents _ => List Agent
  | getAgentTemplateRevision _ => Option (List String)
  | appendEvent _ => Unit
  | appendOutput .. => Unit
  | recordAuditEvent _ => Unit
  | acquireControlLease .. => ControlLease
  | renewControlLease .. => ControlLease
  | releaseControlLease .. => Bool

abbrev Reply (op : StoreOp) : Type := Except StoreError op.Answer

end StoreOp

/-- How the rows happen to lie, which settles the order a query leaves open. -/
structure RowOrder where
  tasks : TaskId → ℕ := fun id => id.uuid
  workers : WorkerId → ℕ := fun id => id.uuid
  agents : AgentId → ℕ := fun id => id.uuid

def Backend.perform (b : Backend) (o : RowOrder) (s : StoreState) :
    (op : StoreOp) → op.Reply × StoreState
  | .insertTaskIdempotent t => b.insertTaskIdempotent s o.tasks t
  | .getTask id => (.ok (s.tasks.get id), s)
  | .compareAndSetTaskStatus id expected new fence origin =>
    b.compareAndSetTaskStatus s id expected new fence origin
  | .incrementTaskRetryCount id => Store.incrementTaskRetryCount s id
  | .recordTaskAcpSession id sessionId fence =>
    let r := b.recordTaskAcpSession s id sessionId fence
    (.ok r.1, r.2)
  | .recordTaskSkillSnapshot id snapshot fence =>
    let r := b.recordTaskSkillSnapshot s id snapshot fence
    (.ok r.1, r.2)
  | .findTaskByAcpSession sessionId => (.ok (Store.findTaskByAcpSession s o.tasks sessionId), s)
  | .countDispatchedTasksByWorker => (.ok (Store.countDispatchedTasksByWorker s), s)
  | .listTasks filter => (.ok (b.listTasks s o.tasks filter), s)
  | .listThreadTasks threadId => (.ok (b.listThreadTasks s o.tasks threadId), s)
  | .pendingDependents id => (.ok (Store.pendingDependents s o.tasks id), s)
  | .removeTerminal id => MemStore.removeTerminal s id
  | .getWorker id => (.ok (s.workers.get id), s)
  | .getWorkerByName name => (.ok (Store.getWorkerByName s name), s)
  | .listWorkers filter => (.ok (Store.listWorkers s o.workers filter), s)
  | .recordWorkerActivity id =>
    let r := Store.recordWorkerActivity s id
    (.ok r.1, r.2)
  | .updateWorkerCircuitState id st => Store.updateWorkerCircuitState s id st
  | .getWorkerCredential workerName model => (.ok (hasWorkerCredential s workerName model), s)
  | .getAgent id => (.ok (s.agents.get id), s)
  | .listAgents limit => (.ok (Store.listAgents s o.agents limit), s)
  | .getAgentTemplateRevision revision => (.ok (s.templateTools.lookup revision), s)
  | .appendEvent e => (.ok (), { s with events := s.events ++ [e] })
  | .appendOutput id chunk => (.ok (), { s with outputs := s.outputs ++ [(id, chunk)] })
  | .recordAuditEvent e => (.ok (), { s with audit := s.audit ++ [e] })
  | .acquireControlLease c i ttl v => b.acquireControlLease s c i ttl v
  | .renewControlLease c i e ttl => b.renewControlLease s c i e ttl
  | .releaseControlLease c i e => b.releaseControlLease s c i e

/-- A call that fails on the way to the store has done nothing there. -/
def Backend.answer (b : Backend) (fault : Option StoreError) (o : RowOrder) (s : StoreState)
    (op : StoreOp) : op.Reply × StoreState :=
  match fault with
  | some e => (.error e, s)
  | none => b.perform o s op

/-- What a call does to the row of `id`. -/
inductive RowEffect (b : Backend) (s : StoreState) (id : TaskId) :
    (op : StoreOp) → op.Reply → Option Task → Option Task → Prop
  | same (op : StoreOp) (r : op.Reply) (row : Option Task) : RowEffect b s id op r row row
  | inserted (t : Task) (hi : t.id = id) :
      RowEffect b s id (.insertTaskIdempotent t) (.ok .inserted) none (some (b.insertedRow t))
  | transition (t : Task) (expected : List TaskPhase) (new : TaskStatus)
      (fence : Option ControlFence) (origin : TransitionOrigin) (hp : t.phase ∈ expected)
      (hf : s.controlFenceHolds fence = true) :
      RowEffect b s id (.compareAndSetTaskStatus id expected new fence origin) (.ok .applied)
        (some t) (some (transition new fence s.now t))
  | retried (t : Task) (n : ℕ) :
      RowEffect b s id (.incrementTaskRetryCount id) (.ok n) (some t) (some (bumpRetry t))
  | session (t : Task) (sessionId : SessionId) (fence : Option ControlFence)
      (hn : t.acpSessionId = none) (hf : s.controlFenceHolds fence = true) :
      RowEffect b s id (.recordTaskAcpSession id sessionId fence) (.ok true) (some t)
        (some (setSession sessionId t))
  | skills (t : Task) (snapshot : List SkillSnapshotEntry) (fence : Option ControlFence)
      (hn : t.skillSnapshot = none) (hf : s.controlFenceHolds fence = true) :
      RowEffect b s id (.recordTaskSkillSnapshot id snapshot fence) (.ok true) (some t)
        (some (setSkills snapshot t))
  | removed (t : Task) (ht : t.phase.isTerminal = true) :
      RowEffect b s id (.removeTerminal id) (.ok .deleted) (some t) none
  | orphaned (t : Task) (other : TaskId) (hi : id ≠ other) :
      RowEffect b s id (.removeTerminal other) (.ok .deleted) (some t)
        (some (dropParent other t))

section Effects

variable {b : Backend} {o : RowOrder} {s : StoreState} {id : TaskId}

theorem insert_effect (t : Task) :
    RowEffect b s id (.insertTaskIdempotent t) (b.insertTaskIdempotent s o.tasks t).1
      (s.tasks.get id) ((b.insertTaskIdempotent s o.tasks t).2.tasks.get id) := by
  rcases insert_cases b s o.tasks t with ⟨hr, hg⟩ | ⟨r, hr, -⟩
  · rw [hr]
    dsimp only
    rw [get_withTask, insertedRow_id]
    split
    · next hi =>
      subst hi
      rw [hg]
      exact .inserted t rfl
    · exact .same _ _ _
  · rw [hr]
    exact .same _ _ _

theorem cas_effect (i : TaskId) (expected : List TaskPhase) (new : TaskStatus)
    (fence : Option ControlFence) (origin : TransitionOrigin) :
    RowEffect b s id (.compareAndSetTaskStatus i expected new fence origin)
      (b.compareAndSetTaskStatus s i expected new fence origin).1 (s.tasks.get id)
      ((b.compareAndSetTaskStatus s i expected new fence origin).2.tasks.get id) := by
  rw [backend_cas]
  have hc := memStore_meets_contract s i expected new fence origin
  by_cases ha : (MemStore.compareAndSetTaskStatus s i expected new fence origin).1 = .ok .applied
  · obtain ⟨hf, t, ht, -, hp⟩ := hc.applied.mp ha
    by_cases hi : id = i
    · subst hi
      rw [ha, hc.written ha t ht, ht, ← transition_eq]
      exact .transition t expected new fence origin hp hf
    · rw [hc.others id hi]
      exact .same _ _ _
  · rw [hc.unchanged ha]
    exact .same _ _ _

theorem session_effect (i : TaskId) (sessionId : SessionId) (fence : Option ControlFence) :
    RowEffect b s id (.recordTaskAcpSession i sessionId fence)
      (.ok (b.recordTaskAcpSession s i sessionId fence).1) (s.tasks.get id)
      ((b.recordTaskAcpSession s i sessionId fence).2.tasks.get id) := by
  unfold Backend.recordTaskAcpSession
  rcases recordOnce_cases b s i fence (fun t => t.acpSessionId.isSome) _
      (setSession_id sessionId) with
    ⟨t, ht, hn, hf, hr⟩ | hr
  · rw [hr]
    by_cases hi : id = i
    · subst hi
      rw [Keyed.get_modify_self, ht]
      exact .session t sessionId fence (by simpa using hn) hf
    · rw [Keyed.get_modify_ne hi]
      exact .same _ _ _
  · rw [hr]
    exact .same _ _ _

theorem skills_effect (i : TaskId) (snapshot : List SkillSnapshotEntry)
    (fence : Option ControlFence) :
    RowEffect b s id (.recordTaskSkillSnapshot i snapshot fence)
      (.ok (b.recordTaskSkillSnapshot s i snapshot fence).1) (s.tasks.get id)
      ((b.recordTaskSkillSnapshot s i snapshot fence).2.tasks.get id) := by
  unfold Backend.recordTaskSkillSnapshot
  rcases recordOnce_cases b s i fence (fun t => t.skillSnapshot.isSome) _
      (setSkills_id snapshot) with
    ⟨t, ht, hn, hf, hr⟩ | hr
  · rw [hr]
    by_cases hi : id = i
    · subst hi
      rw [Keyed.get_modify_self, ht]
      exact .skills t snapshot fence (by simpa using hn) hf
    · rw [Keyed.get_modify_ne hi]
      exact .same _ _ _
  · rw [hr]
    exact .same _ _ _

theorem retry_effect (i : TaskId) :
    RowEffect b s id (.incrementTaskRetryCount i) (incrementTaskRetryCount s i).1 (s.tasks.get id)
      ((incrementTaskRetryCount s i).2.tasks.get id) := by
  unfold incrementTaskRetryCount
  cases ht : s.tasks.get i with
  | none => exact .same _ _ _
  | some t =>
    dsimp only
    by_cases hi : id = i
    · subst hi
      rw [Keyed.get_modify_self, ht]
      exact .retried t _
    · rw [Keyed.get_modify_ne hi]
      exact .same _ _ _

theorem removal_effect (i : TaskId) :
    RowEffect b s id (.removeTerminal i) (MemStore.removeTerminal s i).1 (s.tasks.get id)
      ((MemStore.removeTerminal s i).2.tasks.get id) := by
  unfold MemStore.removeTerminal
  cases ht : s.tasks.get i with
  | none => exact .same _ _ _
  | some t =>
    dsimp only
    by_cases hp : t.phase.isTerminal = true
    · simp only [hp, Bool.not_true, Bool.false_eq_true, if_false]
      rw [get_withoutTask]
      by_cases hi : id = i
      · subst hi
        rw [if_pos rfl, ht]
        exact .removed t hp
      · rw [if_neg hi]
        cases hg : s.tasks.get id with
        | none => exact .same _ _ _
        | some t' => exact .orphaned t' i hi
    · simp only [Bool.not_eq_true] at hp
      simp only [hp, Bool.not_false, if_true]
      exact .same _ _ _

/-- Nothing but a task call writes task rows. -/
theorem perform_effect (op : StoreOp) :
    RowEffect b s id op (b.perform o s op).1 (s.tasks.get id)
      ((b.perform o s op).2.tasks.get id) := by
  cases op with
  | insertTaskIdempotent t => exact insert_effect t
  | compareAndSetTaskStatus i expected new fence origin =>
    exact cas_effect i expected new fence origin
  | incrementTaskRetryCount i => exact retry_effect i
  | recordTaskAcpSession i sessionId fence => exact session_effect i sessionId fence
  | recordTaskSkillSnapshot i snapshot fence => exact skills_effect i snapshot fence
  | removeTerminal i => exact removal_effect i
  | updateWorkerCircuitState w st =>
    have h : (updateWorkerCircuitState s w st).2.tasks = s.tasks := by
      unfold updateWorkerCircuitState
      split <;> rfl
    simp only [Backend.perform, h]
    exact .same _ _ _
  | acquireControlLease c i ttl v =>
    have h : (b.acquireControlLease s c i ttl v).2.tasks = s.tasks := by
      rcases acquire_cases b s c i ttl v with ⟨l, hr, -⟩ | ⟨e, hr⟩ <;> rw [hr]
    simp only [Backend.perform, h]
    exact .same _ _ _
  | renewControlLease c i e ttl =>
    have h : (b.renewControlLease s c i e ttl).2.tasks = s.tasks := by
      rcases renew_cases b s c i e ttl with ⟨l, -, -, -, -, hr⟩ | ⟨-, hr⟩ <;> rw [hr]
    simp only [Backend.perform, h]
    exact .same _ _ _
  | releaseControlLease c i e =>
    have h : (b.releaseControlLease s c i e).2.tasks = s.tasks := by
      rcases release_cases b s c i e with
        ⟨l, -, -, -, hr⟩ | ⟨-, hr⟩ <;> rw [hr]
    simp only [Backend.perform, h]
    exact .same _ _ _
  | getTask | findTaskByAcpSession | countDispatchedTasksByWorker | listTasks | listThreadTasks
  | pendingDependents | getWorker | getWorkerByName | listWorkers | recordWorkerActivity
  | getWorkerCredential | getAgent | listAgents | getAgentTemplateRevision | appendEvent
  | appendOutput | recordAuditEvent => exact .same _ _ _

theorem answer_effect (fault : Option StoreError) (op : StoreOp) :
    RowEffect b s id op (b.answer fault o s op).1 (s.tasks.get id)
      ((b.answer fault o s op).2.tasks.get id) := by
  cases fault with
  | none => exact perform_effect op
  | some e => exact .same _ _ _

/-- And nothing but a lease call writes lease rows. -/
theorem perform_lease (k : String) (op : StoreOp) :
    RowStep s.now (s.controlLeases.get k) ((b.perform o s op).2.controlLeases.get k) ∧
      (b.perform o s op).2.now = s.now := by
  have kept {s' : StoreState} (hl : s'.controlLeases = s.controlLeases) (hn : s'.now = s.now) :
      RowStep s.now (s.controlLeases.get k) (s'.controlLeases.get k) ∧ s'.now = s.now := by
    rw [hl]
    exact ⟨.same _, hn⟩
  cases op with
  | acquireControlLease c i ttl v => exact ⟨acquire_row, acquire_now⟩
  | renewControlLease c i e ttl => exact ⟨renew_row, renew_now⟩
  | releaseControlLease c i e => exact ⟨release_row, release_now⟩
  | compareAndSetTaskStatus i expected new fence origin =>
    have h := cas_frame (b := b) s i expected new fence origin
    exact kept h.1 h.2
  | insertTaskIdempotent t =>
    simp only [Backend.perform]
    rcases insert_cases b s o.tasks t with ⟨hr, -⟩ | ⟨r, hr, -⟩ <;>
      rw [hr] <;> exact kept rfl rfl
  | incrementTaskRetryCount i =>
    simp only [Backend.perform, incrementTaskRetryCount]
    split <;> exact kept rfl rfl
  | recordTaskAcpSession i sessionId fence =>
    simp only [Backend.perform, Backend.recordTaskAcpSession]
    rcases recordOnce_cases b s i fence (fun t => t.acpSessionId.isSome) _
      (setSession_id sessionId) with
      ⟨t, -, -, -, hr⟩ | hr <;> rw [hr] <;> exact kept rfl rfl
  | recordTaskSkillSnapshot i snapshot fence =>
    simp only [Backend.perform, Backend.recordTaskSkillSnapshot]
    rcases recordOnce_cases b s i fence (fun t => t.skillSnapshot.isSome) _
      (setSkills_id snapshot) with
      ⟨t, -, -, -, hr⟩ | hr <;> rw [hr] <;> exact kept rfl rfl
  | removeTerminal i =>
    simp only [Backend.perform, MemStore.removeTerminal]
    split
    · exact kept rfl rfl
    · split <;> exact kept rfl rfl
  | updateWorkerCircuitState w st =>
    simp only [Backend.perform, updateWorkerCircuitState]
    split <;> exact kept rfl rfl
  | getTask | findTaskByAcpSession | countDispatchedTasksByWorker | listTasks | listThreadTasks
  | pendingDependents | getWorker | getWorkerByName | listWorkers | recordWorkerActivity
  | getWorkerCredential | getAgent | listAgents | getAgentTemplateRevision | appendEvent
  | appendOutput | recordAuditEvent => exact kept rfl rfl

theorem answer_lease (fault : Option StoreError) (k : String) (op : StoreOp) :
    RowStep s.now (s.controlLeases.get k) ((b.answer fault o s op).2.controlLeases.get k) ∧
      (b.answer fault o s op).2.now = s.now := by
  cases fault with
  | none => exact perform_lease k op
  | some e => exact ⟨.same _, rfl⟩

/-- Which tables a call writes. -/
inductive Written (s : StoreState) : StoreOp → StoreState → Prop
  | nothing (op : StoreOp) : Written s op s
  | tasks (op : StoreOp) (tasks : TaskTable) : Written s op { s with tasks }
  | removed (id : TaskId) : Written s (.removeTerminal id) (withoutTask s id)
  | leases (op : StoreOp) (controlLeases : LeaseTable) : Written s op { s with controlLeases }
  | activity (w : WorkerId) : Written s (.recordWorkerActivity w) (recordWorkerActivity s w).2
  | circuit (w : WorkerId) (st : CircuitState) :
      Written s (.updateWorkerCircuitState w st) (updateWorkerCircuitState s w st).2
  | event (e : FleetEvent) : Written s (.appendEvent e) { s with events := s.events ++ [e] }
  | output (id : TaskId) (chunk : String) :
      Written s (.appendOutput id chunk) { s with outputs := s.outputs ++ [(id, chunk)] }
  | audit (e : AuditEvent) : Written s (.recordAuditEvent e) { s with audit := s.audit ++ [e] }

theorem perform_written (op : StoreOp) : Written s op (b.perform o s op).2 := by
  cases op with
  | acquireControlLease c i ttl v =>
    simp only [Backend.perform]
    rcases acquire_cases b s c i ttl v with ⟨l, hr, -⟩ | ⟨e, hr⟩ <;> rw [hr]
    · exact .leases _ _
    · exact .nothing _
  | renewControlLease c i e ttl =>
    simp only [Backend.perform]
    rcases renew_cases b s c i e ttl with ⟨l, -, -, -, -, hr⟩ | ⟨-, hr⟩ <;> rw [hr]
    · exact .leases _ _
    · exact .nothing _
  | releaseControlLease c i e =>
    simp only [Backend.perform]
    rcases release_cases b s c i e with ⟨l, -, -, -, hr⟩ | ⟨-, hr⟩ <;> rw [hr]
    · exact .leases _ _
    · exact .nothing _
  | compareAndSetTaskStatus i expected new fence origin =>
    have h := (memStore_meets_contract s i expected new fence origin).rest
    simp only [Backend.perform]
    rw [backend_cas, h]
    exact .tasks _ _
  | insertTaskIdempotent t =>
    simp only [Backend.perform]
    rcases insert_cases b s o.tasks t with ⟨hr, -⟩ | ⟨r, hr, -⟩ <;> rw [hr]
    · exact .tasks _ _
    · exact .nothing _
  | incrementTaskRetryCount i =>
    simp only [Backend.perform, incrementTaskRetryCount]
    split
    · exact .nothing _
    · exact .tasks _ _
  | recordTaskAcpSession i sessionId fence =>
    simp only [Backend.perform, Backend.recordTaskAcpSession]
    rcases recordOnce_cases b s i fence (fun t => t.acpSessionId.isSome) _
      (setSession_id sessionId) with ⟨t, -, -, -, hr⟩ | hr <;> rw [hr]
    · exact .tasks _ _
    · exact .nothing _
  | recordTaskSkillSnapshot i snapshot fence =>
    simp only [Backend.perform, Backend.recordTaskSkillSnapshot]
    rcases recordOnce_cases b s i fence (fun t => t.skillSnapshot.isSome) _
      (setSkills_id snapshot) with ⟨t, -, -, -, hr⟩ | hr <;> rw [hr]
    · exact .tasks _ _
    · exact .nothing _
  | removeTerminal i =>
    simp only [Backend.perform, MemStore.removeTerminal]
    split
    · exact .nothing _
    · split
      · exact .nothing _
      · exact .removed i
  | recordWorkerActivity w => exact .activity w
  | updateWorkerCircuitState w st => exact .circuit w st
  | appendEvent e => exact .event e
  | appendOutput id chunk => exact .output id chunk
  | recordAuditEvent e => exact .audit e
  | getTask | findTaskByAcpSession | countDispatchedTasksByWorker | listTasks | listThreadTasks
  | pendingDependents | getWorker | getWorkerByName | listWorkers | getWorkerCredential | getAgent
  | listAgents | getAgentTemplateRevision => exact .nothing _

/-- Only an appended event changes the events. -/
theorem perform_events (op : StoreOp) (hn : ∀ e, op ≠ .appendEvent e) :
    (b.perform o s op).2.events = s.events := by
  have h := @perform_written b o s op
  generalize (b.perform o s op).2 = s' at h
  cases h with
  | event e => exact absurd rfl (hn e)
  | circuit w st =>
    unfold updateWorkerCircuitState
    split <;> rfl
  | nothing | tasks | removed | leases | activity | output | audit => rfl

/-- An answered call that reports success did what it reports. -/
theorem answer_applied {fault : Option StoreError} {expected : List TaskPhase} {new : TaskStatus}
    {fence : Option ControlFence} {origin : TransitionOrigin}
    (h : (b.answer fault o s (.compareAndSetTaskStatus id expected new fence origin)).1 =
      .ok .applied) :
    s.controlFenceHolds fence = true ∧ ∃ t, s.tasks.get id = some t ∧ t.phase ∈ expected ∧
      (b.answer fault o s (.compareAndSetTaskStatus id expected new fence origin)).2.tasks.get id =
        some (transition new fence s.now t) := by
  cases fault with
  | some e => cases h
  | none =>
    simp only [Backend.answer, Backend.perform] at h ⊢
    rw [backend_cas] at h ⊢
    have hc := memStore_meets_contract s id expected new fence origin
    obtain ⟨hf, t, ht, -, hp⟩ := hc.applied.mp h
    refine ⟨hf, t, ht, hp, ?_⟩
    rw [hc.written h t ht, transition_eq]

end Effects

end FleetOrchestrator.Store
