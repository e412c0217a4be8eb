import FleetOrchestrator.Scheduler.System

/-! When an activity issues an operation that decides something, given all it did before. -/

namespace FleetOrchestrator.Scheduler

open Core Store Transport Interleaving

namespace Op

/-- Operations that decide nothing, whoever issues them. -/
def quiet : Op → Bool
  | .store (.compareAndSetTaskStatus ..) | .store (.insertTaskIdempotent _)
  | .store (.recordTaskAcpSession ..) | .store (.listWorkers _) => false
  | .process (.breakerCheck _) | .process (.setLeaseStatus _) => false
  | .acp (.dispatchEntry _) | .acp (.spawnPrompt ..) | .acp (.insertSession ..)
  | .acp (.broadcast _) | .acp (.failDrained ..) | .acp (.removeSession ..)
  | .acp (.awaitFlush _) => false
  | _ => true

/-- Operations whose number or order is accounted for: what decides a task and is told of it, what
a breaker admits and records, the gauge, the recovery ledger, the permits, the barrier of a
session's output, and the requests that reach a worker. -/
def accounted : Op → Bool
  | .store (.compareAndSetTaskStatus ..) => true
  | .store (.appendEvent e) => e.isDecision
  | .process (.breakerCheck _) | .process (.breakerRecord ..) | .process (.ledgerContains ..)
  | .process (.ledgerInsert _) | .process .incRunning | .process .decRunning => true
  | .acp (.dispatchEntry _) | .acp (.spawnPrompt ..) | .acp (.sendCancel ..)
  | .acp (.tryAcquirePermit _) | .acp (.releasePermit _) | .acp (.sendFlush _) => true
  | _ => false

/-- Operations that decide nothing and are not accounted for. -/
def mere (op : Op) : Bool := op.quiet && !op.accounted

/-- Operations that neither begin a selection nor hand a task over. -/
def minor : Op → Bool
  | .store (.listWorkers _) | .store (.insertTaskIdempotent _) | .acp (.dispatchEntry _)
  | .acp (.spawnPrompt ..) => false
  | _ => true

theorem minor_of_quiet {op : Op} (h : op.quiet = true) : op.minor = true := by
  cases op with
  | store o => cases o <;> first | rfl | cases h
  | process o => rfl
  | acp o => cases o <;> first | rfl | cases h
  | readSkill file => rfl

end Op

def Quiet (op : Op) : Prop := op.quiet = true

def Mere (op : Op) : Prop := op.mere = true

/-- Operations that are not accounted for. -/
def Plain (op : Op) : Prop := op.accounted = false

theorem quiet_of_mere {α : Type} {x : M α} (h : Uses Mere x) : Uses Quiet x :=
  uses_mono h fun _ hm => (Bool.and_eq_true_iff.mp hm).1

theorem plain_of_mere {α : Type} {x : M α} (h : Uses Mere x) : Uses Plain x := by
  apply uses_mono h
  intro op hm
  simpa [Plain] using (Bool.and_eq_true_iff.mp hm).2

def Minor (op : Op) : Prop := op.minor = true

/-- The fence a write carries is the one read just before it. -/
def FenceRead (fence : Option ControlFence) (h : History) : Prop :=
  ∃ h₀, h = ⟨.process .controlFence, fence⟩ :: h₀

/-- The circuit filter of the running selection found the breaker of `w` not open. -/
def Passed (w : WorkerId) (h : History) : Prop :=
  ∃ h₀ st, BreakerState.isOpen st = false ∧
    Grew Minor (⟨.process (.breakerStateOf w), st⟩ :: h₀) h

def Claimed (id : TaskId) (w : WorkerId) (e : Entry Op Resp) : Prop :=
  ∃ expected startedAt fence origin,
    e = ⟨.store (.compareAndSetTaskStatus id expected (.dispatched w startedAt) fence origin),
      .ok .applied⟩

def OwnClaim (id : TaskId) (w : WorkerId) (h : History) : Prop :=
  ∃ h₀ e, Claimed id w e ∧ Grew Minor (e :: h₀) h

def HandedOver (link : ℕ) (req : DispatchRequest) (cwd : String) (h : History) : Prop :=
  ∃ h₀, Grew Minor (⟨.acp (.dispatchEntry req), .ok (link, cwd)⟩ :: h₀) h

def Listed (task : Task) (h : History) : Prop :=
  ∃ filter tasks, (⟨.store (.listTasks filter), .ok tasks⟩ : Entry Op Resp) ∈ h ∧ task ∈ tasks

def Fetched (id : TaskId) (task : Task) (h : History) : Prop :=
  (⟨.store (.getTask id), .ok (some task)⟩ : Entry Op Resp) ∈ h

def Inserted (task : Task) (h : History) : Prop :=
  (⟨.store (.insertTaskIdempotent task), .ok .inserted⟩ : Entry Op Resp) ∈ h

/-- Every dependency of the task, as this activity knows the task, was read as completed. -/
def DependenciesRead (id : TaskId) (h : History) : Prop :=
  ∃ task, (Listed task h ∨ Inserted task h) ∧ task.id = id ∧
    ∀ d ∈ task.dependencyIds, ∃ t, Fetched d t h ∧ t.phase = .completed

/-- A list of the tasks dispatched to `w`. -/
def ListsWorker (w : WorkerId) (filter : TaskFilter) : Prop :=
  filter.status = some .dispatched ∧ filter.workerId = some w

def SeenOn (id : TaskId) (w : WorkerId) (h : History) : Prop :=
  (∃ task startedAt, Fetched id task h ∧ task.status = .dispatched w startedAt) ∨
  (∃ task startedAt, Listed task h ∧ task.id = id ∧ task.status = .dispatched w startedAt) ∨
  (∃ filter tasks task, (⟨.store (.listTasks filter), .ok tasks⟩ : Entry Op Resp) ∈ h ∧
    ListsWorker w filter ∧ task ∈ tasks ∧ task.id = id) ∨
  ∃ e ∈ h, Claimed id w e

/-- Recovery asks the worker first and lists its tasks right afterwards. -/
def MissedByRecovery (id : TaskId) (w : WorkerId) (sessionId : SessionId) (h : History) : Prop :=
  ∃ h₀ connection live filter tasks task,
    ⟨.store (.listTasks filter), .ok tasks⟩ ::
      ⟨.acp (.askSessions w connection), .listed live false⟩ :: h₀ <:+ h ∧
    ListsWorker w filter ∧ task ∈ tasks ∧ task.id = id ∧ task.acpSessionId = some sessionId ∧
    sessionId ∉ live

/-- The sweep lists the tasks first and asks their workers afterwards. -/
def MissedBySweep (id : TaskId) (w : WorkerId) (sessionId : SessionId) (h : History) : Prop :=
  ∃ h₀ connection live task startedAt,
    ⟨.acp (.askSessions w connection), .listed live false⟩ :: h₀ <:+ h ∧
    Listed task h₀ ∧ task.id = id ∧ task.status = .dispatched w startedAt ∧
    task.acpSessionId = some sessionId ∧ sessionId ∉ live

def Missed (id : TaskId) (failure : TaskFailure) (h : History) : Prop :=
  ∃ w sessionId, failure = Dispatcher.vanishedSessionFailure w sessionId ∧
    (MissedByRecovery id w sessionId h ∨ MissedBySweep id w sessionId h)

/-- On what grounds an activity moves a task to a status. -/
def Grounds (a : Activity) (h : History) (id : TaskId) (expected : List TaskPhase) :
    TaskStatus → Prop
  | .pending => False
  | .dispatched w _ => expected = [.pending] ∧ DependenciesRead id h ∧ Passed w h
  | .completed result => expected = [.dispatched] ∧ a = .workerEvent (.completed id result)
  | .failed failure =>
    expected = [.pending] ∧ failure.kind ≠ .executionVanished ∨
    expected = [.dispatched] ∧ (∀ w, failure.workerId = some w → SeenOn id w h) ∧
      (failure.kind = .executionVanished → Missed id failure h)
  | .cancelled reason _ => expected = [.pending, .dispatched] ∧ a = .cancel id reason

/-- The lease call whose success made this process active. -/
def Granted (identity : LeaseIdentity) (lease : ControlLease) (h : History) : Prop :=
  ∃ h₀, (∃ ttl version, h = ⟨.store (.acquireControlLease identity.clusterId identity.instanceId
      ttl version), .ok lease⟩ :: h₀) ∨
    ∃ epoch ttl, h = ⟨.store (.renewControlLease identity.clusterId identity.instanceId epoch
      ttl), .ok lease⟩ :: h₀

section Prompts

/-- How the parts of a prompt's history went, newest entry first. -/
def openedIn : History → Option SessionId
  | [] => none
  | ⟨.acp (.newSession ..), .opened sessionId⟩ :: _ => some sessionId
  | _ :: h => openedIn h

def insertedIn : History → Option SessionId
  | [] => none
  | ⟨.acp (.insertSession _ sessionId ..), _⟩ :: _ => some sessionId
  | _ :: h => insertedIn h

def replyIn : History → Option PromptReply
  | [] => none
  | ⟨.acp (.awaitPrompt ..), reply⟩ :: _ => some reply
  | _ :: h => replyIn h

def removedIn : History → Option Bool
  | [] => none
  | ⟨.acp (.removeSession ..), removed⟩ :: _ => some removed
  | _ :: h => removedIn h

def reportedIn : History → ℕ
  | [] => 0
  | ⟨.acp (.broadcast e), _⟩ :: h => reportedIn h + if e.isTerminal then 1 else 0
  | _ :: h => reportedIn h

/-- A prompt's end is reported once; an end that is not an answer only by who removed the
session. -/
def MayReport (h : History) : Prop :=
  reportedIn h = 0 ∧ (insertedIn h = none ∨ ∃ reply removed, replyIn h = some reply ∧
    removedIn h = some removed ∧ (reply.isFinished = true ∨ removed = true))

def MayBroadcast (req : DispatchRequest) (h : History) : WorkerEvent → Prop
  | .sessionOpened id sessionId => id = req.taskId ∧ insertedIn h = some sessionId
  | .completed id result => id = req.taskId ∧ result.workerId = req.workerId ∧ MayReport h
  | .failed id .. => id = req.taskId ∧ MayReport h
  | .output .. | .toolCall .. => False

end Prompts

/-- The discipline every activity keeps. -/
def Licensed (D : Deployment) (p : ℕ) (a : Activity) (h : History) : Op → Prop
  | .store (.compareAndSetTaskStatus id expected new fence _) =>
    FenceRead fence h ∧ (∀ q ∈ expected, q.transitionAllowed new.phase = true) ∧
      Grounds a h id expected new
  | .store (.insertTaskIdempotent task) =>
    h = [] ∧ ∃ t, a = .submit t ∧ task = Dispatcher.routed D t
  | .store (.recordTaskAcpSession id sessionId _) => a = .workerEvent (.sessionOpened id sessionId)
  | .process (.breakerCheck w) => Passed w h
  | .process (.setLeaseStatus (.active epoch)) =>
    ∃ identity lease, (D.process p).lease = some identity ∧ Granted identity lease h ∧
      lease.epoch = epoch
  | .acp (.dispatchEntry req) =>
    OwnClaim req.taskId req.workerId h ∧ Passed req.workerId h
  | .acp (.spawnPrompt link _ req cwd) => HandedOver link req cwd h
  | .acp (.insertSession link sessionId taskId w) =>
    ∃ connection req cwd, a = .prompt link connection req cwd ∧ taskId = req.taskId ∧
      w = req.workerId ∧ openedIn h = some sessionId ∧ insertedIn h = none
  | .acp (.removeSession link sessionId) =>
    ∃ connection req cwd, a = .prompt link connection req cwd ∧ insertedIn h = some sessionId ∧
      removedIn h = none
  | .acp (.broadcast e) =>
    ∃ link connection req cwd, a = .prompt link connection req cwd ∧ MayBroadcast req h e
  | .acp (.failDrained link drained _) =>
    a = .connectionEnded link ∧ ∃ h₀, h = ⟨.acp (.snapshotSessions link), drained⟩ :: h₀
  | .acp (.awaitFlush queue) => ∃ h₀, h = ⟨.acp (.sendFlush queue), ()⟩ :: h₀
  | _ => True

theorem licensed_quiet {D : Deployment} {p : ℕ} {a : Activity} {h : History} {op : Op}
    (hq : Quiet op) : Licensed D p a h op := by
  cases op with
  | store o => cases o <;> trivial
  | process o => cases o <;> trivial
  | acp o => cases o <;> trivial
  | readSkill file => trivial

section Growth

variable {h h' : History} {id : TaskId} {w : WorkerId} {task : Task} {sessionId : SessionId}

theorem Passed.grew (hp : Passed w h) (hg : Grew Minor h h') : Passed w h' := by
  obtain ⟨h₀, st, hst, hp⟩ := hp
  exact ⟨h₀, st, hst, hp.trans hg⟩

theorem OwnClaim.grew (ho : OwnClaim id w h) (hg : Grew Minor h h') : OwnClaim id w h' := by
  obtain ⟨h₀, e, he, ho⟩ := ho
  exact ⟨h₀, e, he, ho.trans hg⟩

theorem OwnClaim.seen (ho : OwnClaim id w h) : SeenOn id w h := by
  obtain ⟨h₀, e, he, ho⟩ := ho
  exact .inr (.inr (.inr ⟨e, ho.mem List.mem_cons_self, he⟩))

theorem Listed.mono (hl : Listed task h) (hs : h ⊆ h') : Listed task h' := by
  obtain ⟨filter, tasks, hm, ht⟩ := hl
  exact ⟨filter, tasks, hs hm, ht⟩

theorem DependenciesRead.mono (hd : DependenciesRead id h) (hs : h ⊆ h') :
    DependenciesRead id h' := by
  obtain ⟨task, hk, hi, hd⟩ := hd
  refine ⟨task, hk.imp (fun hl => hl.mono hs) (fun hm => hs hm), hi, ?_⟩
  intro d hm
  obtain ⟨t, ht, hp⟩ := hd d hm
  exact ⟨t, hs ht, hp⟩

theorem SeenOn.mono (hw : SeenOn id w h) (hs : h ⊆ h') : SeenOn id w h' := by
  rcases hw with ⟨t, at_, hf, ht⟩ | ⟨t, at_, hl, hi, ht⟩ | ⟨filter, tasks, t, hm, hf, ht, hi⟩ |
    ⟨e, he, hc⟩
  · exact .inl ⟨t, at_, hs hf, ht⟩
  · exact .inr (.inl ⟨t, at_, hl.mono hs, hi, ht⟩)
  · exact .inr (.inr (.inl ⟨filter, tasks, t, hs hm, hf, ht, hi⟩))
  · exact .inr (.inr (.inr ⟨e, hs he, hc⟩))

theorem MissedByRecovery.mono (hm : MissedByRecovery id w sessionId h) (hs : h <:+ h') :
    MissedByRecovery id w sessionId h' := by
  obtain ⟨h₀, connection, live, filter, tasks, task, hh, hr⟩ := hm
  exact ⟨h₀, connection, live, filter, tasks, task, hh.trans hs, hr⟩

theorem MissedBySweep.mono (hm : MissedBySweep id w sessionId h) (hs : h <:+ h') :
    MissedBySweep id w sessionId h' := by
  obtain ⟨h₀, connection, live, task, at_, hh, hr⟩ := hm
  exact ⟨h₀, connection, live, task, at_, hh.trans hs, hr⟩

end Growth

end FleetOrchestrator.Scheduler
