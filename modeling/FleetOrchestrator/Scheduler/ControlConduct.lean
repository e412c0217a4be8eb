import FleetOrchestrator.Scheduler.ActivityConduct

/-! Cancelling a task and keeping the lease. -/

namespace FleetOrchestrator.Scheduler

open Core Store Transport Interleaving Dispatcher

section Cancelling

variable {D : Deployment} {p : ℕ} {a : Activity} {h h' : History}

def cancelRequest (id : TaskId) (task : Task) (w : WorkerId) : CancelRequest :=
  ⟨id, task.acpSessionId, some w⟩

def Undelivered (id : TaskId) (e : AuditEvent) : Prop :=
  e.action = AuditAction.controlCancelUndelivered ∧ e.targetId = some (toString id)

/-- A record that the worker could not be told was at least attempted. -/
def UndeliveredNoted (id : TaskId) (h : History) : Prop :=
  ∃ e r, Undelivered id e ∧ (⟨.store (.recordAuditEvent e), r⟩ : Entry Op Resp) ∈ h

/-- The transport's cancel, sent to where the search pointed. -/
def SentAfter (req : CancelRequest) (target : CancelTarget) (h : History) : Prop :=
  ∃ link sessionId connection h₁, target = .at link sessionId ∧
    ⟨.acp (.sendCancel link connection sessionId), ()⟩ :: h₁ <:+ h ∧
    (⟨.acp (.findCancelTarget req), target⟩ : Entry Op Resp) ∈ h₁

/-- Where the task runs was searched after `h₀`; what was found there was told or noted. -/
def Notified (id : TaskId) (task : Task) (w : WorkerId) (h₀ h : History) : Prop :=
  ∃ target h₁, h₀ <:+ h₁ ∧ ⟨.acp (.findCancelTarget (cancelRequest id task w)), target⟩ :: h₁ <:+ h ∧
    (target = .noSession ∨ SentAfter (cancelRequest id task w) target h ∨ UndeliveredNoted id h)

def CancelWritten (id : TaskId) (reason : String) (h : History) : Prop :=
  ∃ at_ fence h₀, ⟨.store (.compareAndSetTaskStatus id [.pending, .dispatched]
    (.cancelled reason at_) fence .controlDecision), .ok .applied⟩ :: h₀ <:+ h

/-- What a client was told `Ok` about: the task it was read as, who was told, and the write. -/
def CancelEnds (id : TaskId) (reason : String) (r : Except CancelError Unit) (h : History) : Prop :=
  r = .ok () → ∃ task h₀, Fetched id task h₀ ∧ h₀ <:+ h ∧ CancelWritten id reason h ∧
    ∀ w startedAt, task.status = .dispatched w startedAt → Notified id task w h₀ h

theorem UndeliveredNoted.mono {id : TaskId} (hn : UndeliveredNoted id h) (hs : h ⊆ h') :
    UndeliveredNoted id h' := by
  obtain ⟨e, r, hu, hm⟩ := hn
  exact ⟨e, r, hu, hs hm⟩

theorem SentAfter.mono {req : CancelRequest} {target : CancelTarget} (hn : SentAfter req target h)
    (hs : h <:+ h') : SentAfter req target h' := by
  obtain ⟨link, sessionId, connection, h₁, ht, hh, hm⟩ := hn
  exact ⟨link, sessionId, connection, h₁, ht, hh.trans hs, hm⟩

theorem Notified.mono {id : TaskId} {task : Task} {w : WorkerId} {h₀ : History} (hn : Notified id task w h₀ h)
    (hs : h <:+ h') : Notified id task w h₀ h' := by
  obtain ⟨target, h₁, h₀₁, hh, hr⟩ := hn
  refine ⟨target, h₁, h₀₁, hh.trans hs, ?_⟩
  rcases hr with ht | hsent | hu
  · exact .inl ht
  · exact .inr (.inl (hsent.mono hs))
  · exact .inr (.inr (hu.mono hs.subset))

theorem auditUndelivered_keeps (cfg : ProcessConfig) (id : TaskId) (task : Task) (w : WorkerId) :
    Keeps D p a (fun _ h' => h <:+ h' ∧ UndeliveredNoted id h')
      (auditDecision cfg AuditAction.controlCancelUndelivered ("task", toString id)
        (undelivered w task)) h := by
  refine keeps_step trivial fun now => ?_
  refine keeps_step trivial fun epoch => ?_
  refine keeps_step trivial fun recorded => ?_
  refine obeys_ret ⟨?_, _, recorded, ⟨rfl, rfl⟩, List.mem_cons_self⟩
  exact ((List.suffix_cons _ _).trans (List.suffix_cons _ _)).trans (List.suffix_cons _ _)

theorem notifyWorker_keeps (cfg : ProcessConfig) (id : TaskId) (task : Task) (w : WorkerId) :
    Keeps D p a (fun _ h' => h <:+ h' ∧ Notified id task w h h') (notifyWorker cfg id task w) h := by
  refine keeps_step trivial fun target => ?_
  have unreachable {h' : History}
      (hs : ⟨.acp (.findCancelTarget (cancelRequest id task w)), target⟩ :: h <:+ h') :
      Keeps D p a (fun _ h' => h <:+ h' ∧ Notified id task w h h')
        (auditDecision cfg AuditAction.controlCancelUndelivered ("task", toString id)
          (undelivered w task)) h' := by
    apply obeys_conseq (auditUndelivered_keeps cfg id task w)
    rintro _ h'' ⟨hs', hn⟩
    have hs'' := hs.trans hs'
    exact ⟨(List.suffix_cons _ _).trans hs'', target, h, List.suffix_rfl, hs'', .inr (.inr hn)⟩
  cases target with
  | noSession =>
    exact obeys_ret ⟨List.suffix_cons _ _, .noSession, h, List.suffix_rfl, List.suffix_rfl, .inl rfl⟩
  | unreachable => exact unreachable List.suffix_rfl
  | «at» link sessionId =>
    refine keeps_step trivial fun connection => ?_
    cases connection with
    | none => exact unreachable (List.suffix_cons _ _)
    | some connection =>
      refine keeps_step trivial fun sent => ?_
      have hs : ⟨.acp (.findCancelTarget (cancelRequest id task w)), .at link sessionId⟩ :: h <:+
          (⟨.acp (.sendCancel link connection sessionId), sent⟩ ::
            ⟨.acp (.cloneConnection link), some connection⟩ ::
              ⟨.acp (.findCancelTarget (cancelRequest id task w)), .at link sessionId⟩ :: h :
            History) := (List.suffix_cons _ _).trans (List.suffix_cons _ _)
      refine obeys_ret ⟨(List.suffix_cons _ _).trans hs, _, h, List.suffix_rfl, hs, .inr (.inl ?_)⟩
      exact ⟨link, sessionId, connection, _, rfl, List.suffix_rfl,
        List.mem_cons_of_mem _ List.mem_cons_self⟩

theorem notifyAssigned_keeps (cfg : ProcessConfig) (id : TaskId) (task : Task) :
    Keeps D p a (fun _ h' => h <:+ h' ∧
        ∀ w startedAt, task.status = .dispatched w startedAt → Notified id task w h h')
      (notifyAssigned cfg id task) h := by
  unfold notifyAssigned
  cases task.status with
  | dispatched w startedAt =>
    apply obeys_conseq (notifyWorker_keeps cfg id task w)
    rintro _ h' ⟨hs, hn⟩
    refine ⟨hs, ?_⟩
    intro v at_ hv
    cases hv
    exact hn
  | pending | completed | failed | cancelled =>
    refine obeys_ret ⟨List.suffix_rfl, ?_⟩
    intro v at_ hv
    cases hv

theorem writeCancelled_keeps (id : TaskId) (reason : String) :
    Keeps D p (.cancel id reason) (fun r h' => h <:+ h' ∧ (r = .ok () → CancelWritten id reason h'))
      (writeCancelled id reason) h := by
  refine keeps_quiet_then (quiet_of_mere utcNow_mere) fun cancelledAt h₁ hg => ?_
  refine keeps_step trivial fun fence => ?_
  refine keeps_step ⟨⟨h₁, rfl⟩, ?_, rfl, rfl⟩ fun outcome => ?_
  · intro q hq
    simp only [List.mem_cons, List.not_mem_nil, or_false] at hq
    rcases hq with rfl | rfl <;> rfl
  have hs : h <:+ (⟨.store (.compareAndSetTaskStatus id [.pending, .dispatched]
      (.cancelled reason cancelledAt) fence .controlDecision), outcome⟩ ::
        ⟨.process .controlFence, fence⟩ :: h₁ : History) :=
    (hg.suffix.trans (List.suffix_cons _ _)).trans (List.suffix_cons _ _)
  rcases outcome with e | _ | current | _ | under
  · exact obeys_ret ⟨hs, by simp⟩
  · refine keeps_quiet_then (appendEvent_quiet _) fun appended h₂ hg₂ => ?_
    refine keeps_step trivial fun decremented => ?_
    have hs₂ := hg₂.suffix.trans (List.suffix_cons
      (⟨.process .decRunning, decremented⟩ : Entry Op Resp) h₂)
    exact obeys_ret ⟨hs.trans hs₂, fun _ => ⟨cancelledAt, fence, _, hs₂⟩⟩
  · exact obeys_ret ⟨hs, by simp⟩
  · exact obeys_ret ⟨hs, by simp⟩
  · exact obeys_ret ⟨hs, by simp⟩

theorem cancelFound_keeps (cfg : ProcessConfig) (id : TaskId) (task : Task) (reason : String)
    (hf : Fetched id task h) :
    Keeps D p (.cancel id reason) (CancelEnds id reason) (cancelFound cfg id task reason) h := by
  apply obeys_bind (notifyAssigned_keeps cfg id task)
  rintro notified h₁ ⟨hs₁, hn⟩
  apply obeys_conseq (writeCancelled_keeps id reason)
  rintro r h₂ ⟨hs₂, hw⟩ hr
  refine ⟨task, h, hf, hs₁.trans hs₂, hw hr, ?_⟩
  intro w startedAt ht
  exact (hn w startedAt ht).mono hs₂

theorem cancel_keeps (cfg : ProcessConfig) (id : TaskId) (reason : String) :
    Keeps D p (.cancel id reason) (CancelEnds id reason) (cancel cfg id reason) h := by
  have refused {e : CancelError} {h : History} :
      Keeps D p (.cancel id reason) (CancelEnds id reason) (.ret (.error e)) h := by
    intro hr
    cases hr
  refine keeps_step trivial fun allowed => ?_
  cases allowed with
  | false => exact refused
  | true =>
    refine keeps_step trivial fun found => ?_
    rcases found with e | _ | task
    · exact refused
    · exact refused
    · dsimp only
      split
      · exact refused
      · exact cancelFound_keeps cfg id task reason List.mem_cons_self

end Cancelling

section Leases

variable {D : Deployment} {p : ℕ} {a : Activity} {h : History} {identity : LeaseIdentity}

theorem tryAcquire_proceeds (hi : (D.process p).lease = some identity) :
    Proceeds D p a (LeaseManager.tryAcquire identity) h := by
  refine proceeds_step trivial fun result => ?_
  cases result with
  | error e =>
    refine proceeds_step trivial fun stopped => ?_
    exact proceeds_ret _
  | ok lease =>
    refine proceeds_step ⟨identity, lease, hi, ⟨h, .inl ⟨_, _, rfl⟩⟩, rfl⟩ fun active => ?_
    exact proceeds_ret _

theorem tryRenew_proceeds (hi : (D.process p).lease = some identity) (epoch : ℤ) :
    Proceeds D p a (LeaseManager.tryRenew identity epoch) h := by
  refine proceeds_step trivial fun result => ?_
  cases result with
  | error e =>
    refine proceeds_step trivial fun fenced => ?_
    exact proceeds_ret _
  | ok lease =>
    refine proceeds_step ⟨identity, lease, hi, ⟨h, .inr ⟨_, _, rfl⟩⟩, rfl⟩ fun active => ?_
    exact proceeds_ret _

theorem release_proceeds (identity : LeaseIdentity) :
    Proceeds D p a (LeaseManager.release identity) h := by
  refine proceeds_step trivial fun epoch => ?_
  refine proceeds_step trivial fun stopped => ?_
  cases epoch with
  | none => exact proceeds_ret _
  | some e => exact proceeds_quiet (uses_call rfl fun _ => uses_ret _)

end Leases

end FleetOrchestrator.Scheduler
