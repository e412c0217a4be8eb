import FleetOrchestrator.Scheduler.Walk

/-! What each accounted operation asks for, the parts that issue it ask for. -/

namespace FleetOrchestrator.Scheduler

open Core Store Transport Interleaving

section Breakers

open Dispatcher

variable {P : {α : Type} → M α → Prop}

/-- The licences say nothing of what the breakers admit and record. -/
structure Lenient (P : {α : Type} → M α → Prop) : Prop extends Composes Plain P where
  check : ∀ w, P (call (.process (.breakerCheck w)))
  record : ∀ w outcome, P (call (.process (.breakerRecord w outcome)))

theorem recordOutcome_composed (hP : Lenient P) (w : WorkerId) (outcome : Outcome) :
    P (recordOutcome w outcome) := by
  refine hP.call rfl fun old => ?_
  apply hP.bind (hP.record w outcome)
  intro recorded
  refine hP.call rfl fun new => ?_
  exact hP.uses (plain_of_mere (persistBreakerTransition_mere w old new))

theorem recordOnBreaker_composed (hP : Lenient P) (w : WorkerId) (outcome : Outcome) :
    P (recordOnBreaker w outcome) := by
  apply hP.bind (hP.uses (plain_of_mere (getWorkerCircuitState_mere w)))
  intro initial
  refine hP.call rfl fun got => ?_
  exact recordOutcome_composed hP w outcome

theorem recordFailureOf_composed (hP : Lenient P) (worker : Option WorkerId) :
    P (recordFailureOf worker) := by
  cases worker with
  | none => exact hP.ret _
  | some w => exact recordOnBreaker_composed hP w .failure

theorem blameWorker_composed (hP : Lenient P) (w : WorkerId) (e : TransportError) :
    P (blameWorker w e) := by
  unfold blameWorker
  split
  · refine hP.call rfl fun old => ?_
    refine hP.call rfl fun new => ?_
    exact hP.uses (plain_of_mere (persistBreakerTransition_mere w old new))
  · exact recordOutcome_composed hP w .failure

end Breakers

section Dispatching

open Dispatcher

variable {D : Deployment} {P : {α : Type} → M α → Prop}

theorem checkBreaker_composed (hP : Lenient P)
    (hm : ∀ id expected failure, P (markFailed id expected failure .controlDecision))
    (task : Task) (flag : Bool) (w : WorkerId) : P (checkBreaker task flag w) := by
  apply hP.bind (hP.uses (plain_of_mere (getWorkerCircuitState_mere w)))
  intro initial
  refine hP.call rfl fun got => ?_
  refine hP.call rfl fun old => ?_
  apply hP.bind (hP.check w)
  intro checked
  refine hP.call rfl fun new => ?_
  apply hP.bind
    (hP.uses (plain_of_mere (persistBreakerTransition_mere w old new)))
  intro persisted
  cases checked with
  | ok u => exact hP.ret _
  | error remaining =>
    apply hP.bind (failPending_composed hP.toComposes hm _ _ _)
    intro failed
    exact hP.ret _

theorem ensureWorkerRecovered_composed (hP : Composes Plain P)
    (hm : ∀ id expected failure, P (markFailed id expected failure .controlDecision))
    (hk : ∀ generation w, P (call (.process (.ledgerContains generation w))))
    (hl : ∀ w, P (call (.process (.ledgerInsert w)))) (cfg : ProcessConfig) (w : WorkerId) :
    P (ensureWorkerRecovered cfg w) := by
  refine hP.call rfl fun generation => ?_
  apply hP.bind (hk generation w)
  intro known
  cases known with
  | true => exact hP.ret _
  | false =>
    apply hP.bind (hP.uses (plain_of_mere (listSessions_mere w _)))
    intro inventory
    cases inventory with
    | error e => exact hP.ret _
    | ok inventory =>
      apply hP.bind (reapReported_composed hP hm w inventory)
      intro reaped
      apply hP.bind (hP.uses (plain_of_mere (auditDecision_mere _ _ _ _)))
      intro audited
      apply hP.bind (hl w)
      intro inserted
      exact hP.ret _

theorem recoverFirst_composed (hP : Lenient P)
    (hm : ∀ id expected failure, P (markFailed id expected failure .controlDecision))
    (hk : ∀ generation w, P (call (.process (.ledgerContains generation w))))
    (hl : ∀ w, P (call (.process (.ledgerInsert w)))) (cfg : ProcessConfig) (task : Task)
    (flag : Bool) (w : WorkerId) : P (recoverFirst cfg task flag w) := by
  apply hP.bind (ensureWorkerRecovered_composed hP.toComposes hm hk hl cfg w)
  intro recovered
  cases recovered with
  | ok b => exact hP.ret _
  | error e =>
    apply hP.bind (recordOutcome_composed hP w .failure)
    intro recorded
    apply hP.bind (failPending_composed hP.toComposes hm _ _ _)
    intro failed
    exact hP.ret _

theorem assembleHarness_composed (hP : Composes Plain P)
    (hm : ∀ id expected failure, P (markFailed id expected failure .controlDecision))
    (task : Task) (flag : Bool) (w : WorkerId) : P (assembleHarness D task flag w) := by
  apply hP.bind (hP.uses (plain_of_mere (basePrompt_mere task)))
  intro base
  apply hP.bind (hP.uses (plain_of_mere (injectSkills_mere _ _ _)))
  intro harness
  split
  · exact hP.ret _
  · apply hP.bind (failPending_composed hP hm _ _ _)
    intro failed
    exact hP.ret _

theorem dispatchTo_composed (hP : Lenient P)
    (hm : ∀ id expected failure, P (markFailed id expected failure .controlDecision))
    (hk : ∀ generation w, P (call (.process (.ledgerContains generation w))))
    (hl : ∀ w, P (call (.process (.ledgerInsert w))))
    (hc : ∀ cfg task w harness,
      P ((claim cfg task w).andThen fun _ => handOver task w harness))
    (cfg : ProcessConfig) (task : Task) (flag : Bool) (w : WorkerId) :
    P (dispatchTo D cfg task flag w) := by
  apply hP.andThen (checkBreaker_composed hP hm task flag w)
  intro admitted
  apply hP.andThen (recoverFirst_composed hP hm hk hl cfg task flag w)
  intro recovered
  apply hP.andThen (assembleHarness_composed hP.toComposes hm task flag w)
  intro harness
  exact hc cfg task w harness

end Dispatching

section Deciding

open Dispatcher

variable {P : {α : Type} → M α → Prop}

/-- Nor of what the events tell. -/
structure Silent (P : {α : Type} → M α → Prop) : Prop extends Lenient P where
  event : ∀ e, P (call (.store (.appendEvent e)))

theorem appendEvent_composed (hP : Silent P) (e : ℤ → FleetEvent) : P (appendEvent e) := by
  refine hP.call rfl fun now => ?_
  apply hP.bind (hP.event (e now))
  intro appended
  exact hP.ret _

theorem markFailed_composed (hP : Silent P) {id : TaskId} {expected : List TaskPhase}
    {failure : TaskFailure} {origin : TransitionOrigin}
    (hc : ∀ fence, P (call (.store (.compareAndSetTaskStatus id expected (.failed failure) fence
      origin)))) : P (markFailed id expected failure origin) := by
  refine hP.call rfl fun fence => ?_
  apply hP.bind (hc fence)
  intro outcome
  rcases outcome with e | _ | _ | _ | _
  · exact hP.ret _
  · exact hP.bind (appendEvent_composed hP _) fun _ => hP.ret _
  all_goals exact hP.ret _

theorem markCompleted_composed (hP : Silent P) {id : TaskId} {result : TaskResult}
    (hc : ∀ fence, P (call (.store (.compareAndSetTaskStatus id [.dispatched] (.completed result)
      fence .workerOutcome)))) : P (markCompleted id result) := by
  refine hP.call rfl fun fence => ?_
  apply hP.bind (hc fence)
  intro outcome
  rcases outcome with e | _ | _ | _ | _
  · exact hP.ret _
  · exact appendEvent_composed hP _
  all_goals exact hP.ret _

theorem claim_composed (hP : Composes Plain P) {task : Task} {w : WorkerId}
    (hc : ∀ fence startedAt, P (call (.store (.compareAndSetTaskStatus task.id [.pending]
      (.dispatched w startedAt) fence .controlDecision)))) (cfg : ProcessConfig) :
    P (claim cfg task w) := by
  refine hP.call rfl fun startedAt => ?_
  refine hP.call rfl fun fence => ?_
  apply hP.bind (hc fence startedAt)
  intro outcome
  rcases outcome with e | _ | _ | _ | _
  case ok.fenced =>
    apply hP.bind (hP.uses (plain_of_mere (auditControl_mere _ _ _ _)))
    intro audited
    exact hP.ret _
  all_goals exact hP.ret _

theorem writeCancelled_composed (hP : Silent P) (hd : P (call (.process .decRunning))) {id : TaskId}
    {reason : String} (hc : ∀ fence cancelledAt, P (call (.store (.compareAndSetTaskStatus id
      [.pending, .dispatched] (.cancelled reason cancelledAt) fence .controlDecision)))) :
    P (writeCancelled id reason) := by
  refine hP.call rfl fun cancelledAt => ?_
  refine hP.call rfl fun fence => ?_
  apply hP.bind (hc fence cancelledAt)
  intro outcome
  rcases outcome with e | _ | _ | _ | _
  · exact hP.ret _
  · apply hP.bind (appendEvent_composed hP _)
    intro told
    apply hP.bind hd
    intro counted
    exact hP.ret _
  all_goals exact hP.ret _

end Deciding

section Others

open Dispatcher

variable {P : {α : Type} → M α → Prop}

theorem reportCompleted_composed (hP : Lenient P) (hd : P (call (.process .decRunning)))
    {id : TaskId} {result : TaskResult} (hm : P (markCompleted id result)) :
    P (reportCompleted id result) := by
  apply hP.bind (recordOnBreaker_composed hP _ _)
  intro recorded
  apply hP.bind hm
  intro marked
  exact hd

theorem handleFailed_composed (hP : Lenient P) (hd : P (call (.process .decRunning))) {id : TaskId}
    (hm : ∀ failure, P (markFailed id [.dispatched] failure .workerOutcome)) (error : String)
    (observation : FailureObservation) : P (handleFailed id error observation) := by
  apply hP.bind (hP.uses (plain_of_mere (currentWorkerOf_mere id)))
  intro worker
  apply hP.bind (recordFailureOf_composed hP worker)
  intro recorded
  apply hP.bind (hm _)
  intro marked
  exact hd

theorem acpCancel_composed (hP : Composes Plain P)
    (hs : ∀ link connection sessionId, P (call (.acp (.sendCancel link connection sessionId))))
    (req : CancelRequest) : P (AcpTransport.cancel req) := by
  refine hP.call rfl fun target => ?_
  cases target with
  | unreachable | noSession => exact hP.ret _
  | «at» link sessionId =>
    refine hP.call rfl fun connection => ?_
    cases connection with
    | none => exact hP.ret _
    | some connection =>
      apply hP.bind (hs link connection sessionId)
      intro sent
      exact hP.ret _

theorem acpDispatch_composed (hP : Composes Plain P)
    (he : ∀ req, P (call (.acp (.dispatchEntry req))))
    (hs : ∀ link connection req cwd, P (call (.acp (.spawnPrompt link connection req cwd))))
    (ha : ∀ link, P (call (.acp (.tryAcquirePermit link))))
    (hr : ∀ link, P (call (.acp (.releasePermit link))))
    (req : DispatchRequest) : P (AcpTransport.dispatch req) := by
  apply hP.bind (he req)
  intro entry
  rcases entry with e | ⟨link, cwd⟩
  · exact hP.ret _
  · refine hP.call rfl fun state => ?_
    cases state with
    | connecting | disconnected => exact hP.ret _
    | connected =>
      apply hP.bind (ha link)
      intro permit
      cases permit with
      | false => exact hP.ret _
      | true =>
        refine hP.call rfl fun connection => ?_
        cases connection with
        | none => exact hP.bind (hr link) fun _ => hP.ret _
        | some connection =>
          apply hP.bind (hs link connection req cwd)
          intro spawned
          exact hP.ret _

theorem handOver_composed (hP : Silent P) (hi : P (call (.process .incRunning)))
    (hd : P (call (.process .decRunning))) (ht : ∀ req, P (AcpTransport.dispatch req))
    (hm : ∀ id expected failure, P (markFailed id expected failure .controlDecision))
    (task : Task) (w : WorkerId) (harness : SkillLoader.SkillInjection) :
    P (handOver task w harness) := by
  apply hP.bind (appendEvent_composed hP _)
  intro told
  refine hP.call rfl fun fence => ?_
  refine hP.call rfl fun recorded => ?_
  apply hP.bind hi
  intro counted
  apply hP.bind (ht _)
  intro sent
  cases sent with
  | ok u => exact hP.ret _
  | error e =>
    apply hP.bind (blameWorker_composed hP.toLenient w e)
    intro blamed
    apply hP.bind (hm _ _ _)
    intro marked
    apply hP.bind hd
    intro counted
    exact hP.ret _

theorem cancel_composed (hP : Composes Plain P)
    (hs : ∀ link connection sessionId, P (call (.acp (.sendCancel link connection sessionId))))
    {id : TaskId} {reason : String} (hw : P (writeCancelled id reason))
    (cfg : ProcessConfig) : P (cancel cfg id reason) := by
  have notified (task : Task) : P (notifyAssigned cfg id task) := by
    unfold notifyAssigned
    split
    · apply hP.bind (acpCancel_composed hP hs _)
      intro delivery
      split
      · exact hP.uses (plain_of_mere (auditDecision_mere _ _ _ _))
      · exact hP.ret _
      · exact hP.ret _
      · exact hP.ret _
    · exact hP.ret _
  refine hP.call rfl fun allowed => ?_
  cases allowed with
  | false => exact hP.ret _
  | true =>
    refine hP.call rfl fun found => ?_
    rcases found with e | _ | task
    · exact hP.ret _
    · exact hP.ret _
    · dsimp only
      split
      · exact hP.ret _
      · exact hP.bind (notified task) fun _ => hw

theorem judgeSession_composed (hP : Composes Plain P)
    (hs : ∀ link connection sessionId, P (call (.acp (.sendCancel link connection sessionId))))
    (cfg : ProcessConfig) (w : WorkerId) (sessionId : SessionId)
    (summary : ReconcileSummary) :
    P (Reconciler.judgeSession cfg w sessionId summary) := by
  refine hP.call rfl fun owner => ?_
  rcases owner with e | _ | task
  · exact hP.ret _
  · apply hP.bind (hP.uses (plain_of_mere (auditDecision_mere _ _ _ _)))
    intro audited
    exact hP.ret _
  · dsimp only
    split
    · apply hP.bind (acpCancel_composed hP hs _)
      intro delivery
      split
      · apply hP.bind (hP.uses (plain_of_mere (auditDecision_mere _ _ _ _)))
        intro audited
        exact hP.ret _
      · exact hP.ret _
      · exact hP.ret _
      · exact hP.ret _
    · exact hP.ret _

theorem followSession_composed (hP : Composes Plain P)
    (hs : ∀ link connection sessionId, P (call (.acp (.sendCancel link connection sessionId))))
    (hf : ∀ queue, P (call (.acp (.sendFlush queue)))) (link connection : ℕ) (req : DispatchRequest) (started : ℤ) (reply : NewSessionReply) :
    P (AcpTransport.followSession link connection req started reply) := by
  have told (error : String) (observation : FailureObservation) :
      P (AcpTransport.failed req error observation) :=
    hP.uses (uses_perform rfl)
  have flushed (sessionId : SessionId) : P (AcpTransport.flushSession link sessionId) := by
    refine hP.call rfl fun queue => ?_
    cases queue with
    | none => exact hP.ret _
    | some q => exact hP.bind (hf q) fun _ => hP.uses (uses_perform rfl)
  have reported (sessionId : SessionId) (removed : Bool) (n : ℕ) (output : String)
      (reply : PromptReply) :
      P (AcpTransport.reportPrompt link connection req sessionId removed n output reply) := by
    cases reply with
    | finished usage => exact hP.call rfl fun _ => hP.uses (uses_perform rfl)
    | refused message =>
      cases removed with
      | true => exact told _ _
      | false => exact hP.ret _
    | timedOut =>
      cases removed with
      | true => exact hP.bind (hs _ _ _) fun _ => told _ _
      | false => exact hP.ret _
  cases reply with
  | opened sessionId =>
    refine hP.call rfl fun queue => ?_
    refine hP.call rfl fun opened => ?_
    refine hP.call rfl fun sent => ?_
    refine hP.call rfl fun reply => ?_
    apply hP.bind (flushed sessionId)
    intro drained
    refine hP.call rfl fun removed => ?_
    refine hP.call rfl fun ended => ?_
    refine hP.call rfl fun output => ?_
    exact reported _ _ _ _ _
  | refused message => exact told _ _
  | timedOut => exact told _ _

theorem promptTask_composed (hP : Composes Plain P)
    (hs : ∀ link connection sessionId, P (call (.acp (.sendCancel link connection sessionId))))
    (hf : ∀ queue, P (call (.acp (.sendFlush queue))))
    (hr : ∀ link, P (call (.acp (.releasePermit link))))
    (link connection : ℕ) (req : DispatchRequest) (cwd : String) :
    P (AcpTransport.promptTask link connection req cwd) := by
  refine hP.call rfl fun started => ?_
  refine hP.call rfl fun newSession => ?_
  apply hP.bind (followSession_composed hP hs hf link connection req started newSession)
  intro followed
  exact hr link

/-- Where only the decisions and what is told of them are licensed, these are all there is to
look at. -/
theorem calls_of_decisions {D : Deployment} (hP : Lenient P)
    (hk : ∀ generation w, P (call (.process (.ledgerContains generation w))))
    (hl : ∀ w, P (call (.process (.ledgerInsert w)))) (hd : P (call (.process .decRunning)))
    (hs : ∀ link connection sessionId, P (call (.acp (.sendCancel link connection sessionId))))
    (hfailed : ∀ id expected failure origin, P (markFailed id expected failure origin))
    (hcompleted : ∀ id result, P (markCompleted id result))
    (hcancelled : ∀ id reason, P (writeCancelled id reason))
    (hclaimed : ∀ cfg task w harness,
      P ((claim cfg task w).andThen fun _ => handOver task w harness)) : Calls D P where
  toComposes := hP.toComposes
  markFailed id expected failure := hfailed id expected failure .controlDecision
  dispatchTo := dispatchTo_composed hP (fun _ _ _ => hfailed _ _ _ _) hk hl hclaimed
  completed id result := reportCompleted_composed hP hd (hcompleted id result)
  failed id := handleFailed_composed hP hd fun _ => hfailed id _ _ _
  cancel cfg id reason := cancel_composed hP.toComposes hs (hcancelled id reason) cfg
  judgeSession := judgeSession_composed hP.toComposes hs

theorem wholes_of_decisions {D : Deployment} (hP : Lenient P)
    (hk : ∀ generation w, P (call (.process (.ledgerContains generation w))))
    (hl : ∀ w, P (call (.process (.ledgerInsert w)))) (hd : P (call (.process .decRunning)))
    (hs : ∀ link connection sessionId, P (call (.acp (.sendCancel link connection sessionId))))
    (hf : ∀ queue, P (call (.acp (.sendFlush queue))))
    (hr : ∀ link, P (call (.acp (.releasePermit link))))
    (hfailed : ∀ id expected failure origin, P (markFailed id expected failure origin))
    (hcompleted : ∀ id result, P (markCompleted id result))
    (hcancelled : ∀ id reason, P (writeCancelled id reason))
    (hclaimed : ∀ cfg task w harness,
      P ((claim cfg task w).andThen fun _ => handOver task w harness)) : Wholes D P where
  toCalls := calls_of_decisions hP hk hl hd hs hfailed hcompleted hcancelled hclaimed
  prompt := promptTask_composed hP.toComposes hs hf hr

end Others

end FleetOrchestrator.Scheduler
