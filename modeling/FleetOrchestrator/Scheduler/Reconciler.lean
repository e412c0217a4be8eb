import FleetOrchestrator.Scheduler.Dispatcher

namespace FleetOrchestrator.Scheduler

open Core Store Transport

structure ReconcileSummary where
  staleFound : ℕ := 0
  redispatched : ℕ := 0
  orphanedFound : ℕ := 0
  orphanedFailed : ℕ := 0
  restartedWorkerFound : ℕ := 0
  restartedWorkerFailed : ℕ := 0
  offlineWorkerFound : ℕ := 0
  offlineWorkerFailed : ℕ := 0
  deadLettered : ℕ := 0
  vanishedSessionFound : ℕ := 0
  vanishedSessionFailed : ℕ := 0
  orphanSessionsCancelled : ℕ := 0
  unclaimedSessionsFound : ℕ := 0
  unackedCommandsFound : ℕ := 0
  deriving DecidableEq, Repr

namespace Reconciler

def maxPendingScan : ℕ := 1000

/-- `chrono::Duration::from_std`, which holds at most `i64::MAX` milliseconds. -/
def fromStd (d fallback : ℕ) : ℕ := if d < 2 ^ 63 then d else fallback

def noteRetry (cfg : ProcessConfig) (id : TaskId) : M Unit :=
  if 0 < cfg.reconcile.maxDispatchRetries then do
    let _ ← call (.store (.incrementTaskRetryCount id))
    return ()
  else return ()

def redispatch (D : Deployment) (cfg : ProcessConfig) (task : Task)
    (summary : ReconcileSummary) : M ReconcileSummary := do
  let attempt ← Dispatcher.dispatchExisting D cfg task false
  match attempt with
  | .ok () => return { summary with redispatched := summary.redispatched + 1 }
  | .error e =>
    if Dispatcher.isTransient e then
      noteRetry cfg task.id
      return summary
    else return summary

def exhausted (task : Task) (selected : Except SelectionError WorkerId) : TaskFailure where
  error := "dispatch retries exhausted (" ++ toString task.retryCount ++ " attempts)"
  kind := match selected with
    | .error (.noWorkerForCredential _) => .credentialMissing
    | _ => .workerUnavailable
  workerId := none
  attempts := task.retryCount

def deadLetter (task : Task) (summary : ReconcileSummary) : M ReconcileSummary := do
  let selected ← Selector.select task
  let failed ← Dispatcher.markFailed task.id [.pending] (exhausted task selected) .controlDecision
  return if failed then { summary with deadLettered := summary.deadLettered + 1 } else summary

def retryOrBury (D : Deployment) (cfg : ProcessConfig) (task : Task)
    (summary : ReconcileSummary) : M ReconcileSummary :=
  if 0 < cfg.reconcile.maxDispatchRetries ∧ cfg.reconcile.maxDispatchRetries ≤ task.retryCount then
    deadLetter task summary
  else redispatch D cfg task summary

def sweepPending (D : Deployment) (cfg : ProcessConfig) (now : ℤ) :
    List Task → ReconcileSummary → M ReconcileSummary
  | [], summary => return summary
  | task :: tasks, summary =>
    if now - task.createdAt < fromStd cfg.reconcile.staleAfter (secs 60) then
      sweepPending D cfg now tasks summary
    else do
      let unresolved ← Dispatcher.hasUnresolvedDependencies task.dependencyIds
      if unresolved then sweepPending D cfg now tasks summary
      else
        let summary ← retryOrBury D cfg task
          { summary with staleFound := summary.staleFound + 1 }
        sweepPending D cfg now tasks summary

/-- The answers of the workers asked so far: each is asked once in a sweep. -/
abbrev Inventories := List (WorkerId × SessionInventory)

structure Sweep where
  summary : ReconcileSummary
  inventories : Inventories := []

/-- A judgement on a dispatched task: counted when made, and again when its write is applied. -/
def reap (id : TaskId) (failure : TaskFailure) (found failed : ReconcileSummary → ReconcileSummary)
    (s : Sweep) : M Sweep := do
  let applied ← Dispatcher.markFailed id [.dispatched] failure .controlDecision
  return if applied then { s with summary := failed (found s.summary) }
    else { s with summary := found s.summary }

def reapOrphaned (id : TaskId) (w : WorkerId) (s : Sweep) : M Sweep :=
  reap id
    ⟨"assigned worker " ++ toString w ++
        " no longer registered (row deleted or rejoined under a new name)",
      .workerUnavailable, some w, 0⟩
    (fun x => { x with orphanedFound := x.orphanedFound + 1 })
    (fun x => { x with orphanedFailed := x.orphanedFailed + 1 }) s

def reapRestarted (id : TaskId) (w : WorkerId) (restartedAt dispatchedAt : ℤ) (s : Sweep) :
    M Sweep :=
  reap id
    ⟨"assigned worker " ++ toString w ++ " restarted at " ++ toString restartedAt ++
        " after this task was dispatched at " ++ toString dispatchedAt ++
        " — the process running it is gone",
      .workerUnavailable, some w, 0⟩
    (fun x => { x with restartedWorkerFound := x.restartedWorkerFound + 1 })
    (fun x => { x with restartedWorkerFailed := x.restartedWorkerFailed + 1 }) s

def offlineFor (now : ℤ) : Option ℤ → String
  | some seen => toString ((now - seen).tdiv 1000) ++ "s"
  | none => "never (no heartbeat ever received)"

def pastGrace (cfg : ProcessConfig) (now : ℤ) : Option ℤ → Bool
  | some seen => fromStd cfg.reconcile.offlineWorkerGrace (secs 300) ≤ now - seen
  | none => true

def reapOffline (cfg : ProcessConfig) (now : ℤ) (id : TaskId) (w : WorkerId)
    (lastSeen : Option ℤ) (s : Sweep) : M Sweep :=
  if pastGrace cfg now lastSeen then
    reap id
      ⟨"assigned worker " ++ toString w ++ " has been offline for " ++ offlineFor now lastSeen ++
          " (no heartbeat) — assuming the task is lost",
        .workerUnavailable, some w, 0⟩
      (fun x => { x with offlineWorkerFound := x.offlineWorkerFound + 1 })
      (fun x => { x with offlineWorkerFailed := x.offlineWorkerFailed + 1 }) s
  else return s

/-- A worker that could not be asked says nothing about its sessions. -/
def inventoryOf (cfg : ProcessConfig) (w : WorkerId) (s : Sweep) : M (SessionInventory × Sweep) :=
  match s.inventories.lookup w with
  | some cached => return (cached, s)
  | none => do
    let listed ← AcpTransport.listSessions w cfg.reconcile.sessionListTimeoutSecs
    match listed with
    | .ok inventory => return (inventory, { s with inventories := (w, inventory) :: s.inventories })
    | .error _ => return (.undeclared, { s with inventories := (w, .undeclared) :: s.inventories })

def reapVanished (cfg : ProcessConfig) (task : Task) (w : WorkerId) (s : Sweep) : M Sweep :=
  match task.acpSessionId with
  | none => return s
  | some sessionId => do
    let (inventory, s) ← inventoryOf cfg w s
    match inventory with
    | .undeclared | .refused _ => return s
    | .reported live =>
      if live.contains sessionId then return s
      else
        reap task.id (Dispatcher.vanishedSessionFailure w sessionId)
          (fun x => { x with vanishedSessionFound := x.vanishedSessionFound + 1 })
          (fun x => { x with vanishedSessionFailed := x.vanishedSessionFailed + 1 }) s

def judgeOnWorker (cfg : ProcessConfig) (now : ℤ) (task : Task) (w : WorkerId) (startedAt : ℤ)
    (s : Sweep) : Except StoreError (Option Worker) → M Sweep
  | .error _ => return s
  | .ok none => reapOrphaned task.id w s
  | .ok (some worker) =>
    let dispatchedAt := task.dispatchedAt.getD startedAt
    if dispatchedAt < worker.incarnationStartedAt then
      reapRestarted task.id w worker.incarnationStartedAt dispatchedAt s
    else if worker.status = .offline then reapOffline cfg now task.id w worker.lastSeen s
    else reapVanished cfg task w s

def judgeDispatched (cfg : ProcessConfig) (now : ℤ) (task : Task) (s : Sweep) : M Sweep :=
  match task.status with
  | .dispatched w startedAt =>
    if now - startedAt < fromStd cfg.reconcile.dispatchedWorkerCheckAfter (secs 30) then return s
    else do
      let worker ← call (.store (.getWorker w))
      judgeOnWorker cfg now task w startedAt s worker
  | _ => return s

def judgeEach (cfg : ProcessConfig) (now : ℤ) : List Task → Sweep → M Sweep
  | [], s => return s
  | task :: tasks, s => do
    let s ← judgeDispatched cfg now task s
    judgeEach cfg now tasks s

def reapStaleDispatched (cfg : ProcessConfig) (summary : ReconcileSummary) : M Sweep := do
  let listed ← call (.store (.listTasks { status := some .dispatched, limit := maxPendingScan }))
  match listed with
  | .error _ => return { summary }
  | .ok dispatched =>
    let now ← utcNow
    judgeEach cfg now dispatched { summary }

def cancelOrphan (cfg : ProcessConfig) (w : WorkerId) (task : Task) (sessionId : SessionId)
    (summary : ReconcileSummary) : M ReconcileSummary := do
  let delivery ← AcpTransport.cancel ⟨task.id, some sessionId, some w⟩
  match delivery with
  | .ok .sent =>
    auditDecision cfg AuditAction.controlOrphanSessionCancelled ("task", toString task.id)
      [("worker_id", .text (toString w)), ("session_id", .text sessionId),
        ("task_phase", .text task.phase.asStr)]
    return { summary with orphanSessionsCancelled := summary.orphanSessionsCancelled + 1 }
  | .ok .noSession | .ok .unreachable | .error _ => return summary

def judgeSession (cfg : ProcessConfig) (w : WorkerId) (sessionId : SessionId)
    (summary : ReconcileSummary) : M ReconcileSummary := do
  let owner ← call (.store (.findTaskByAcpSession sessionId))
  match owner with
  | .error _ => return summary
  | .ok none =>
    auditDecision cfg AuditAction.controlUnclaimedSession ("worker", toString w)
      [("session_id", .text sessionId)]
    return { summary with unclaimedSessionsFound := summary.unclaimedSessionsFound + 1 }
  | .ok (some task) =>
    if task.isTerminal then cancelOrphan cfg w task sessionId summary else return summary

def judgeSessions (cfg : ProcessConfig) (w : WorkerId) :
    List SessionId → ReconcileSummary → M ReconcileSummary
  | [], summary => return summary
  | sessionId :: sessions, summary => do
    let summary ← judgeSession cfg w sessionId summary
    judgeSessions cfg w sessions summary

def heldBy (cfg : ProcessConfig) (inventories : Inventories) (w : WorkerId) :
    M (Except TransportError SessionInventory) :=
  match inventories.lookup w with
  | some cached => return .ok cached
  | none => AcpTransport.listSessions w cfg.reconcile.sessionListTimeoutSecs

def sweepWorkers (cfg : ProcessConfig) (inventories : Inventories) :
    List Worker → ReconcileSummary → M ReconcileSummary
  | [], summary => return summary
  | worker :: workers, summary => do
    let inventory ← heldBy cfg inventories worker.id
    match inventory with
    | .ok (.reported sessions) =>
      let summary ← judgeSessions cfg worker.id sessions summary
      sweepWorkers cfg inventories workers summary
    | .ok .undeclared | .ok (.refused _) | .error _ =>
      sweepWorkers cfg inventories workers summary

def reapOrphanSessions (cfg : ProcessConfig) (inventories : Inventories)
    (summary : ReconcileSummary) : M ReconcileSummary :=
  if cfg.reconcile.reapOrphanSessions then do
    let listed ← call (.store (.listWorkers { limit := maxPendingScan }))
    match listed with
    | .error _ => return summary
    | .ok workers => sweepWorkers cfg inventories workers summary
  else return summary

def reportUnacked (cfg : ProcessConfig) (agent : Agent) (w : WorkerId) (unackedFor : ℤ)
    (summary : ReconcileSummary) : M ReconcileSummary := do
  let first ← call (.process (.reportUnacked agent.id agent.commandGeneration))
  if first then
    auditDecision cfg AuditAction.agentCommandUnacked ("agent", toString agent.id)
      [("worker_id", .text (toString w)),
        ("command_generation", .number agent.commandGeneration),
        ("last_acked_generation", .number agent.lastAckedGeneration),
        ("unacked_for_secs", .number (unackedFor.tdiv 1000)),
        ("desired_status", .text agent.desiredStatus.asStr)]
    return { summary with unackedCommandsFound := summary.unackedCommandsFound + 1 }
  else return summary

def judgeAgent (cfg : ProcessConfig) (now : ℤ) (agent : Agent) (summary : ReconcileSummary) :
    M ReconcileSummary :=
  match agent.workerId, agent.commandUnackedFor now with
  | some w, some unackedFor =>
    if unackedFor < fromStd cfg.reconcile.commandAckTimeout (secs 300) then return summary
    else reportUnacked cfg agent w unackedFor summary
  | _, _ => return summary

def judgeAgents (cfg : ProcessConfig) (now : ℤ) :
    List Agent → ReconcileSummary → M ReconcileSummary
  | [], summary => return summary
  | agent :: agents, summary => do
    let summary ← judgeAgent cfg now agent summary
    judgeAgents cfg now agents summary

def reportUnackedCommands (cfg : ProcessConfig) (summary : ReconcileSummary) :
    M ReconcileSummary := do
  let listed ← call (.store (.listAgents maxPendingScan))
  match listed with
  | .error _ => return summary
  | .ok agents =>
    let now ← utcNow
    judgeAgents cfg now agents summary

def sweep (D : Deployment) (cfg : ProcessConfig) (pending : List Task) : M ReconcileSummary := do
  let now ← utcNow
  let summary ← sweepPending D cfg now pending {}
  let swept ← reapStaleDispatched cfg summary
  let summary ← reapOrphanSessions cfg swept.inventories swept.summary
  reportUnackedCommands cfg summary

def reconcileOnce (D : Deployment) (cfg : ProcessConfig) : M ReconcileSummary := do
  let allowed ← call (.process .leaseAllowsControl)
  if allowed then
    let listed ← call (.store (.listTasks { status := some .pending, limit := maxPendingScan }))
    match listed with
    | .error _ => return {}
    | .ok pending => sweep D cfg pending
  else return {}

end Reconciler

end FleetOrchestrator.Scheduler
