import FleetOrchestrator.Scheduler.QuietParts
import FleetOrchestrator.Scheduler.System

/-! What the few parts that are accounted for keep to, all activities keep to. -/

namespace FleetOrchestrator.Scheduler

open Core Store Transport Interleaving

section Plain

theorem plain_step {α : Type} {op : Op} {f : Resp op → M α} (hp : op.accounted = false)
    (hf : ∀ r, Uses Plain (f r)) : Uses Plain (call op >>= f) :=
  uses_bind (uses_perform hp) hf

theorem selectAmong_plain (task : Task) (candidates : List Worker) :
    Uses Plain (Selector.selectAmong task candidates) := by
  refine uses_bind (plain_of_mere (circuitClosed_mere candidates)) fun closed => ?_
  refine plain_step rfl fun load => ?_
  cases load with
  | error e => exact uses_ret _
  | ok load => exact plain_of_mere (choose_mere task closed load)

theorem select_plain (task : Task) : Uses Plain (Selector.select task) := by
  refine plain_step rfl fun listed => ?_
  cases listed with
  | error e => exact uses_ret _
  | ok online =>
    dsimp only
    split
    · exact uses_ret _
    · split
      · exact uses_ret _
      · split
        · exact selectAmong_plain task _
        · split
          · exact uses_ret _
          · refine uses_bind (plain_of_mere (withCredential_mere _ _)) fun held => ?_
            split
            · exact uses_ret _
            · exact selectAmong_plain task _

theorem deleteTask_plain (id : TaskId) : Uses Plain (deleteTask id) := by
  refine plain_step rfl fun dependents => ?_
  rcases dependents with e | ds
  · exact uses_ret _
  · cases ds with
    | nil => exact uses_perform rfl
    | cons d ds => exact uses_ret _

theorem tryAcquire_plain (identity : LeaseIdentity) :
    Uses Plain (LeaseManager.tryAcquire identity) := by
  refine plain_step rfl fun result => ?_
  cases result with
  | ok lease => exact plain_step rfl fun _ => uses_ret _
  | error e => exact plain_step rfl fun _ => uses_ret _

theorem tryRenew_plain (identity : LeaseIdentity) (epoch : ℤ) :
    Uses Plain (LeaseManager.tryRenew identity epoch) := by
  refine plain_step rfl fun result => ?_
  cases result with
  | ok lease => exact plain_step rfl fun _ => uses_ret _
  | error e => exact plain_step rfl fun _ => uses_ret _

theorem release_plain (identity : LeaseIdentity) : Uses Plain (LeaseManager.release identity) := by
  refine plain_step rfl fun epoch => plain_step rfl fun stopped => ?_
  cases epoch with
  | none => exact uses_ret _
  | some e => exact uses_perform rfl

theorem connectionEnded_plain (link : ℕ) : Uses Plain (AcpTransport.connectionEnded link) := by
  refine plain_step rfl fun dropped => plain_step rfl fun marked => ?_
  refine uses_bind (plain_step rfl fun drained => ?_) fun failed => uses_perform rfl
  cases drained with
  | nil => exact uses_ret _
  | cons d ds => exact uses_perform rfl

theorem handleSessionOpened_plain (id : TaskId) (sessionId : SessionId) :
    Uses Plain (Dispatcher.handleSessionOpened id sessionId) :=
  plain_step rfl fun _ => plain_step rfl fun _ => uses_ret _

end Plain

/-- What is not accounted for has the property, and so do the parts of a dispatch. -/
structure Parts (D : Deployment) (P : {α : Type} → M α → Prop) : Prop
    extends Composes Plain P where
  markFailed : ∀ id expected failure,
    P (Dispatcher.markFailed id expected failure .controlDecision)
  dispatchTo : ∀ cfg task flag w, P (Dispatcher.dispatchTo D cfg task flag w)

section Dispatching

open Dispatcher

variable {D : Deployment} {P : {α : Type} → M α → Prop}

theorem failPending_composed (hP : Composes Plain P)
    (hm : ∀ id expected failure, P (markFailed id expected failure .controlDecision))
    (flag : Bool) (id : TaskId) (failure : TaskFailure) :
    P (failPending flag id failure) := by
  unfold failPending
  split
  · exact hP.bind (hm _ _ _) fun _ => hP.ret _
  · exact hP.ret _

theorem reapVanished_composed (hP : Composes Plain P)
    (hm : ∀ id expected failure, P (markFailed id expected failure .controlDecision))
    (w : WorkerId) (live : List SessionId) (tasks : List Task) :
    P (reapVanished w live tasks) := by
  induction tasks with
  | nil => exact hP.ret _
  | cons task tasks ih =>
    unfold reapVanished
    cases task.acpSessionId with
    | none => exact ih
    | some sessionId =>
      dsimp only
      split
      · exact ih
      · exact hP.bind (hm _ _ _) fun _ => ih

theorem reapReported_composed (hP : Composes Plain P)
    (hm : ∀ id expected failure, P (markFailed id expected failure .controlDecision))
    (w : WorkerId) (inventory : SessionInventory) : P (reapReported w inventory) := by
  cases inventory with
  | undeclared => exact hP.ret _
  | refused message => exact hP.ret _
  | reported live =>
    refine hP.call rfl fun listed => ?_
    cases listed with
    | error e => exact hP.ret _
    | ok tasks => exact reapVanished_composed hP hm w live tasks

theorem dispatchExisting_composed (hP : Parts D P) (cfg : ProcessConfig) (task : Task)
    (flag : Bool) : P (dispatchExisting D cfg task flag) := by
  refine hP.call rfl fun allowed => ?_
  cases allowed with
  | false =>
    refine hP.call rfl fun label => ?_
    refine hP.bind (hP.uses (plain_of_mere (auditControl_mere _ _ _ _)))
      fun _ => hP.ret _
  | true =>
    refine hP.bind (hP.uses (select_plain task)) fun selected => ?_
    cases selected with
    | error e =>
      exact hP.bind (failPending_composed hP.toComposes hP.markFailed _ _ _) fun _ => hP.ret _
    | ok w => exact hP.dispatchTo cfg task flag w

theorem submit_composed (hP : Parts D P) (cfg : ProcessConfig) (task : Task) :
    P (submit D cfg task) := by
  have attempted (t : Task) : P (firstAttempt D cfg t) := by
    refine hP.bind (dispatchExisting_composed hP cfg t _) fun attempt => ?_
    cases attempt with
    | ok u => exact hP.ret _
    | error e =>
      dsimp only
      split
      · exact hP.call rfl fun _ => hP.ret _
      · exact hP.ret _
  unfold submit
  cases validateWorkspaceCwd task.cwd with
  | error e => exact hP.ret _
  | ok cwd =>
    refine hP.call rfl fun outcome => ?_
    rcases outcome with e | existing | existing | _
    · exact hP.ret _
    · refine hP.bind (hP.uses
        (plain_of_mere (appendEvent_mere fun _ => rfl))) fun _ => ?_
      refine hP.bind (hP.uses
        (plain_of_mere (hasUnresolvedDependencies_mere _))) fun unresolved => ?_
      split
      · exact hP.ret _
      · exact attempted _
    · exact hP.ret _
    · exact hP.ret _

theorem dispatchReadyTasks_composed (hP : Parts D P) (cfg : ProcessConfig) :
    P (dispatchReadyTasks D cfg) := by
  have each (tasks : List Task) : P (dispatchReady D cfg tasks) := by
    induction tasks with
    | nil => exact hP.ret _
    | cons task tasks ih =>
      refine hP.bind (hP.uses
        (plain_of_mere (hasUnresolvedDependencies_mere _))) fun unresolved => ?_
      split
      · exact ih
      · exact hP.bind (dispatchExisting_composed hP cfg task false) fun _ => ih
  refine hP.call rfl fun listed => ?_
  cases listed with
  | error e => exact hP.ret _
  | ok tasks => exact each tasks

end Dispatching

section Reconciling

open Reconciler

variable {D : Deployment} {P : {α : Type} → M α → Prop}

theorem sweepPending_composed (hP : Parts D P) (cfg : ProcessConfig) (now : ℤ) (tasks : List Task)
    (summary : ReconcileSummary) : P (sweepPending D cfg now tasks summary) := by
  have retried (task : Task) (summary : ReconcileSummary) :
      P (retryOrBury D cfg task summary) := by
    unfold retryOrBury
    split
    · refine hP.bind (hP.uses (select_plain task)) fun selected => ?_
      refine hP.bind (hP.markFailed _ _ _) fun failed => ?_
      exact hP.ret _
    · refine hP.bind (dispatchExisting_composed hP cfg task false) fun attempt => ?_
      cases attempt with
      | ok u => exact hP.ret _
      | error e =>
        dsimp only
        split
        · exact hP.bind (hP.uses (plain_of_mere (noteRetry_mere _ _)))
            fun _ => hP.ret _
        · exact hP.ret _
  induction tasks generalizing summary with
  | nil => exact hP.ret _
  | cons task tasks ih =>
    unfold sweepPending
    split
    · exact ih _
    · refine hP.bind (hP.uses
        (plain_of_mere (hasUnresolvedDependencies_mere _))) fun unresolved => ?_
      split
      · exact ih _
      · exact hP.bind (retried _ _) fun _ => ih _

theorem reap_composed (hP : Composes Plain P)
    (hm : ∀ id expected failure, P (Dispatcher.markFailed id expected failure .controlDecision))
    (id : TaskId) (failure : TaskFailure) (found failed : ReconcileSummary → ReconcileSummary)
    (s : Sweep) : P (reap id failure found failed s) :=
  hP.bind (hm _ _ _) fun _ => hP.ret _

theorem judgeDispatched_composed (hP : Composes Plain P)
    (hm : ∀ id expected failure, P (Dispatcher.markFailed id expected failure .controlDecision))
    (cfg : ProcessConfig) (now : ℤ) (task : Task) (s : Sweep) :
    P (judgeDispatched cfg now task s) := by
  have vanished (w : WorkerId) : P (reapVanished cfg task w s) := by
    unfold reapVanished
    cases task.acpSessionId with
    | none => exact hP.ret _
    | some sessionId =>
      refine hP.bind (hP.uses (plain_of_mere (inventoryOf_mere cfg w s)))
        fun asked => ?_
      rcases asked with ⟨live | _ | message, s⟩
      · dsimp only
        split
        · exact hP.ret _
        · exact reap_composed hP hm _ _ _ _ _
      · exact hP.ret _
      · exact hP.ret _
  unfold judgeDispatched
  cases task.status with
  | dispatched w startedAt =>
    dsimp only
    split
    · exact hP.ret _
    · refine hP.call rfl fun found => ?_
      unfold judgeOnWorker reapOrphaned reapRestarted
      rcases found with e | _ | worker
      · exact hP.ret _
      · exact reap_composed hP hm _ _ _ _ _
      · dsimp only
        split
        · exact reap_composed hP hm _ _ _ _ _
        · split
          · unfold reapOffline
            split
            · exact reap_composed hP hm _ _ _ _ _
            · exact hP.ret _
          · exact vanished w
  | _ => exact hP.ret _

theorem reapStaleDispatched_composed (hP : Composes Plain P)
    (hm : ∀ id expected failure, P (Dispatcher.markFailed id expected failure .controlDecision))
    (cfg : ProcessConfig) (summary : ReconcileSummary) :
    P (reapStaleDispatched cfg summary) := by
  have each (now : ℤ) (tasks : List Task) (s : Sweep) : P (judgeEach cfg now tasks s) := by
    induction tasks generalizing s with
    | nil => exact hP.ret _
    | cons task tasks ih =>
      exact hP.bind (judgeDispatched_composed hP hm cfg now task s) fun s => ih s
  refine hP.call rfl fun listed => ?_
  cases listed with
  | error e => exact hP.ret _
  | ok dispatched =>
    refine hP.bind (hP.uses (plain_of_mere utcNow_mere)) fun now => ?_
    exact each now dispatched _

theorem reapOrphanSessions_composed (hP : Composes Plain P)
    (hj : ∀ cfg w sessionId summary, P (judgeSession cfg w sessionId summary))
    (cfg : ProcessConfig) (inventories : Inventories) (summary : ReconcileSummary) :
    P (reapOrphanSessions cfg inventories summary) := by
  have judged (w : WorkerId) (sessions : List SessionId) (summary : ReconcileSummary) :
      P (judgeSessions cfg w sessions summary) := by
    induction sessions generalizing summary with
    | nil => exact hP.ret _
    | cons sessionId sessions ih => exact hP.bind (hj _ _ _ _) fun summary => ih summary
  have swept (workers : List Worker) (summary : ReconcileSummary) :
      P (sweepWorkers cfg inventories workers summary) := by
    induction workers generalizing summary with
    | nil => exact hP.ret _
    | cons worker workers ih =>
      refine hP.bind (hP.uses (plain_of_mere (heldBy_mere _ _ _))) fun inventory => ?_
      rcases inventory with e | live | _ | message
      · exact ih _
      · exact hP.bind (judged _ _ _) fun summary => ih summary
      · exact ih _
      · exact ih _
  unfold reapOrphanSessions
  split
  · refine hP.call rfl fun listed => ?_
    cases listed with
    | error e => exact hP.ret _
    | ok workers => exact swept workers summary
  · exact hP.ret _

theorem reconcileOnce_composed (hP : Parts D P)
    (hj : ∀ cfg w sessionId summary, P (judgeSession cfg w sessionId summary))
    (cfg : ProcessConfig) : P (reconcileOnce D cfg) := by
  refine hP.call rfl fun allowed => ?_
  split
  · refine hP.call rfl fun listed => ?_
    cases listed with
    | error e => exact hP.ret _
    | ok pending =>
      refine hP.bind (hP.uses (plain_of_mere utcNow_mere)) fun now => ?_
      refine hP.bind (sweepPending_composed hP cfg now pending _) fun summary => ?_
      refine hP.bind (reapStaleDispatched_composed hP.toComposes hP.markFailed cfg summary)
        fun swept => ?_
      refine hP.bind (reapOrphanSessions_composed hP.toComposes hj cfg _ _) fun summary => ?_
      exact hP.uses (plain_of_mere (reportUnackedCommands_mere cfg summary))
  · exact hP.ret _

end Reconciling

section Activities

open Dispatcher

variable {D : Deployment} {P : {α : Type} → M α → Prop}

/-- The end of a task, as its worker tells it, up to the tasks that wait for it. -/
def reportCompleted (id : TaskId) (result : TaskResult) : M Unit := do
  recordOnBreaker result.workerId .success
  markCompleted id result
  call (.process .decRunning)

theorem handleCompleted_eq (D : Deployment) (cfg : ProcessConfig) (id : TaskId)
    (result : TaskResult) : handleCompleted D cfg id result =
      (reportCompleted id result >>= fun _ => dispatchReadyTasks D cfg) := by
  simp only [handleCompleted, reportCompleted, Prog.bind_assoc]

/-- And so do the parts of the other calls. -/
structure Calls (D : Deployment) (P : {α : Type} → M α → Prop) : Prop extends Parts D P where
  completed : ∀ id result, P (reportCompleted id result)
  failed : ∀ id error observation, P (handleFailed id error observation)
  cancel : ∀ cfg id reason, P (Dispatcher.cancel cfg id reason)
  judgeSession : ∀ cfg w sessionId summary,
    P (Reconciler.judgeSession cfg w sessionId summary)

/-- And so do the prompts. -/
structure Wholes (D : Deployment) (P : {α : Type} → M α → Prop) : Prop extends Calls D P where
  prompt : ∀ link connection req cwd,
    P (AcpTransport.promptTask link connection req cwd)

theorem handleWorkerEvent_composed (hP : Calls D P) (cfg : ProcessConfig) (event : WorkerEvent) :
    P (handleWorkerEvent D cfg event) := by
  have abandoned (id : TaskId) : P (abandonOutcome cfg id) :=
    hP.uses (plain_of_mere (abandonOutcome_mere cfg id))
  cases event with
  | completed id result =>
    refine hP.call rfl fun allowed => ?_
    split
    · rw [handleCompleted_eq]
      exact hP.bind (hP.completed id result) fun _ =>
        dispatchReadyTasks_composed hP.toParts cfg
    · exact abandoned id
  | failed id error observation =>
    refine hP.call rfl fun allowed => ?_
    split
    · exact hP.failed id error observation
    · exact abandoned id
  | sessionOpened id sessionId =>
    exact hP.uses (handleSessionOpened_plain id sessionId)
  | output id seq chunk => exact hP.call rfl fun _ => hP.ret _
  | toolCall id w invocation =>
    exact hP.uses (plain_of_mere (handleToolCall_mere _ _ _ _))

theorem call_composed (hP : Calls D P) (p : ℕ) {a : Activity}
    (ha : ∀ link connection req cwd, a ≠ .prompt link connection req cwd) : P (program D p a) := by
  have leased {α : Type} {f : LeaseIdentity → M α} (hf : ∀ identity, Uses Plain (f identity)) :
      P (withIdentity (D.process p) f) := by
    unfold withIdentity
    cases (D.process p).lease with
    | none => exact hP.ret _
    | some identity =>
      exact hP.bind (hP.uses (hf identity)) fun _ => hP.ret _
  cases a with
  | submit task => exact hP.bind (submit_composed hP.toParts _ task) fun _ => hP.ret _
  | cancel id reason => exact hP.bind (hP.cancel _ id reason) fun _ => hP.ret _
  | workerEvent e =>
    exact hP.bind (handleWorkerEvent_composed hP _ e) fun _ => hP.ret _
  | reconcile =>
    exact hP.bind (reconcileOnce_composed hP.toParts hP.judgeSession _) fun _ => hP.ret _
  | deleteTask id =>
    exact hP.bind (hP.uses (deleteTask_plain id)) fun _ => hP.ret _
  | acquireLease => exact leased tryAcquire_plain
  | renewLease epoch => exact leased fun identity => tryRenew_plain identity epoch
  | releaseLease => exact leased release_plain
  | prompt link connection req cwd => exact absurd rfl (ha link connection req cwd)
  | connectionEnded link =>
    exact hP.bind (hP.uses (connectionEnded_plain link)) fun _ => hP.ret _
  | unregister w =>
    exact hP.bind (hP.uses (plain_of_mere (unregister_mere w)))
      fun _ => hP.ret _

theorem program_composed (hP : Wholes D P) (p : ℕ) (a : Activity) : P (program D p a) := by
  cases a with
  | prompt link connection req cwd =>
    exact hP.bind (hP.prompt link connection req cwd) fun _ => hP.ret _
  | _ => exact call_composed hP.toCalls p (by rintro _ _ _ _ ⟨⟩)

end Activities

end FleetOrchestrator.Scheduler
