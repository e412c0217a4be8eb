import FleetOrchestrator.Scheduler.DispatchConduct

/-! Claiming a task and handing it over, and the two ways a task gets there: its own submission
and the sweep over the ready tasks. -/

namespace FleetOrchestrator.Scheduler

open Core Store Transport Interleaving Dispatcher

def HandedBy (id : TaskId) (h : History) : Prop :=
  ∃ req r, (⟨.acp (.dispatchEntry req), r⟩ : Entry Op Resp) ∈ h ∧ req.taskId = id

/-- Errors that only arise before the task is stored or after it has been handed over. -/
def DispatchError.settles : DispatchError → Bool
  | .invalidRequest _ | .idempotencyConflict .. | .transport _ => true
  | _ => false

/-- Whatever went wrong, the task may still be handed over by a later attempt. -/
def Unsettled {α : Type} (r : Except DispatchError α) : Prop :=
  ∀ e, r = .error e → e.settles = false

/-- A settling error of a stored task comes from the transport. -/
def Attempted {α : Type} (id : TaskId) (r : Except DispatchError α) (h : History) : Prop :=
  ∀ e, r = .error e → e.settles = true → HandedBy id h

section Facts

variable {α : Type} {h h' : History} {id : TaskId}

theorem HandedBy.mono (hh : HandedBy id h) (hs : h ⊆ h') : HandedBy id h' := by
  obtain ⟨req, r, hm, hi⟩ := hh
  exact ⟨req, r, hs hm, hi⟩

theorem attempted_ok (r : α) : Attempted id (.ok r) h := by
  intro e he
  cases he

theorem unsettled_ok (r : α) : Unsettled (.ok r) := by
  intro e he
  cases he

theorem unsettled_error {e : DispatchError} (he : e.settles = false) :
    Unsettled (.error e : Except DispatchError α) := by
  intro e' he'
  cases he'
  exact he

theorem Unsettled.attempted {r : Except DispatchError α} (hr : Unsettled r) :
    Attempted id r h := by
  intro e he hs
  rw [hr e he] at hs
  cases hs

theorem attempted_handed {r : Except DispatchError α} (hh : HandedBy id h) : Attempted id r h :=
  fun _ _ _ => hh

end Facts

section HandOver

variable {D : Deployment} {p : ℕ} {a : Activity} {h : History}

theorem dispatch_keeps (req : DispatchRequest) (ho : OwnClaim req.taskId req.workerId h)
    (hp : Passed req.workerId h) :
    Keeps D p a (fun _ h' => h <:+ h' ∧ HandedBy req.taskId h') (AcpTransport.dispatch req) h := by
  refine keeps_step ⟨ho, hp⟩ fun entry => ?_
  have handed {r : Except TransportError Unit} {h' : History}
      (hs : ⟨.acp (.dispatchEntry req), entry⟩ :: h <:+ h') :
      Keeps D p a (fun _ h' => h <:+ h' ∧ HandedBy req.taskId h') (.ret r) h' :=
    obeys_ret ⟨(List.suffix_cons _ _).trans hs, req, entry, hs.subset List.mem_cons_self, rfl⟩
  cases entry with
  | error e => exact handed List.suffix_rfl
  | ok entry =>
    obtain ⟨link, cwd⟩ := entry
    refine keeps_step trivial fun state => ?_
    cases state with
    | connecting => exact handed (List.suffix_cons _ _)
    | disconnected => exact handed (List.suffix_cons _ _)
    | connected =>
      refine keeps_step trivial fun permit => ?_
      cases permit with
      | false => exact handed ((List.suffix_cons _ _).trans (List.suffix_cons _ _))
      | true =>
        refine keeps_step trivial fun connection => ?_
        have hs {r : Option ℕ} :
            ⟨.acp (.dispatchEntry req), .ok (link, cwd)⟩ :: h <:+
              (⟨.acp (.cloneConnection link), r⟩ :: ⟨.acp (.tryAcquirePermit link), true⟩ ::
                ⟨.acp (.readConnState link), ConnState.connected⟩ ::
                  ⟨.acp (.dispatchEntry req), .ok (link, cwd)⟩ :: h : History) :=
          (List.suffix_cons _ _).trans ((List.suffix_cons _ _).trans (List.suffix_cons _ _))
        cases connection with
        | none =>
          refine keeps_step trivial fun released => ?_
          exact handed (hs.trans (List.suffix_cons _ _))
        | some connection =>
          have hg : HandedOver link req cwd
              (⟨.acp (.cloneConnection link), some connection⟩ ::
                ⟨.acp (.tryAcquirePermit link), true⟩ ::
                  ⟨.acp (.readConnState link), ConnState.connected⟩ ::
                    ⟨.acp (.dispatchEntry req), .ok (link, cwd)⟩ :: h) :=
            ⟨h, .cons rfl (.cons rfl (.one rfl))⟩
          refine keeps_step hg fun spawned => ?_
          exact handed (hs.trans (List.suffix_cons _ _))

theorem transportFailure_kind (w : WorkerId) (e : TransportError) :
    (transportFailure w e).kind ≠ .executionVanished := by
  unfold transportFailure
  dsimp only
  split <;> simp

theorem handOver_keeps {task : Task} {w : WorkerId} {harness : SkillLoader.SkillInjection}
    (ho : OwnClaim task.id w h) (hp : Passed w h) :
    Keeps D p a (fun r h' => h <:+ h' ∧ Attempted task.id r h') (handOver task w harness) h := by
  refine keeps_quiet_then (appendEvent_quiet _) fun appended h₁ hg => ?_
  have hg₁ := minor_of_grew hg
  refine keeps_step trivial fun fence => ?_
  refine keeps_step trivial fun recorded => ?_
  refine keeps_step trivial fun incremented => ?_
  have hg₂ : Grew Minor h (⟨.process .incRunning, incremented⟩ ::
      ⟨.store (.recordTaskSkillSnapshot task.id harness.loaded fence), recorded⟩ ::
        ⟨.process .controlFence, fence⟩ :: h₁) := .cons rfl (.cons rfl (.cons rfl hg₁))
  apply obeys_bind (dispatch_keeps (requestFor task w harness.prompt) (ho.grew hg₂) (hp.grew hg₂))
  rintro sent h₃ ⟨hs₃, hh₃⟩
  have hs : h <:+ h₃ := hg₂.suffix.trans hs₃
  cases sent with
  | ok sent => exact obeys_ret ⟨hs, attempted_ok _⟩
  | error e =>
    have hseen : SeenOn task.id w h₃ := ho.seen.mono hs.subset
    refine keeps_quiet_then (blameWorker_quiet w e) fun blamed h₄ hg₄ => ?_
    have hfail : Grounds a h₄ task.id [.dispatched] (.failed (transportFailure w e)) := by
      refine .inr ⟨rfl, ?_, fun hk => absurd hk (transportFailure_kind w e)⟩
      intro v hv
      cases hv
      exact hseen.mono hg₄.suffix.subset
    apply obeys_bind (markFailed_prepares hfail)
    intro failed h₅ hg₅
    refine keeps_step trivial fun decremented => ?_
    have hs₅ : h₃ <:+ h₅ := hg₄.suffix.trans hg₅.suffix
    refine obeys_ret ⟨(hs.trans hs₅).trans (List.suffix_cons _ _), attempted_handed ?_⟩
    exact hh₃.mono (hs₅.trans (List.suffix_cons _ _)).subset

theorem claim_keeps {cfg : ProcessConfig} {task : Task} {w : WorkerId}
    (hd : DependenciesRead task.id h) (hp : Passed w h) :
    Keeps D p a (fun r h' => Grew Minor h h' ∧ (r = .ok () → OwnClaim task.id w h') ∧
      Unsettled r) (claim cfg task w) h := by
  refine keeps_quiet_then (quiet_of_mere utcNow_mere) fun startedAt h₁ hg => ?_
  have hg₁ := minor_of_grew hg
  refine keeps_step trivial fun fence => ?_
  have hs : h₁ <:+ (⟨.process .controlFence, fence⟩ :: h₁ : History) := List.suffix_cons _ _
  refine keeps_step ⟨⟨h₁, rfl⟩, ?_, rfl, hd.mono (hg.suffix.trans hs).subset,
    hp.grew (.cons rfl hg₁)⟩ fun outcome => ?_
  · intro q hq
    cases List.mem_singleton.mp hq
    rfl
  have hg₂ : Grew Minor h (⟨.store (.compareAndSetTaskStatus task.id [.pending]
      (.dispatched w startedAt) fence .controlDecision), outcome⟩ ::
        ⟨.process .controlFence, fence⟩ :: h₁) := .cons rfl (.cons rfl hg₁)
  have refused {e : DispatchError} {h' : History} (hg' : Grew Minor h h')
      (he : e.settles = false) : Keeps D p a (fun (r : Except DispatchError Unit) h' =>
        Grew Minor h h' ∧ (r = .ok () → OwnClaim task.id w h') ∧ Unsettled r)
          (.ret (.error e)) h' :=
    obeys_ret ⟨hg', by simp, unsettled_error he⟩
  rcases outcome with e | _ | current | _ | under
  · exact refused hg₂ rfl
  · exact obeys_ret ⟨hg₂, fun _ => ⟨_, _, ⟨_, _, _, _, rfl⟩, .refl _⟩, unsettled_ok _⟩
  · exact refused hg₂ rfl
  · refine keeps_quiet_then (quiet_of_mere (auditControl_mere _ _ _ _)) fun audited h₃ hg₃ => ?_
    exact refused (hg₂.trans (minor_of_grew hg₃)) rfl
  · exact refused hg₂ rfl

theorem checkBreaker_keeps {task : Task} {flag : Bool} {w : WorkerId} (hp : Passed w h) :
    Keeps D p a (fun r h' => Grew Minor h h' ∧ Unsettled r)
      (checkBreaker task flag w) h := by
  refine keeps_quiet_then (quiet_of_mere (getWorkerCircuitState_mere w)) fun initial h₁ hg => ?_
  have hg₁ := minor_of_grew hg
  refine keeps_step trivial fun got => ?_
  refine keeps_step trivial fun old => ?_
  refine keeps_step (hp.grew (.cons rfl (.cons rfl hg₁))) fun checked => ?_
  refine keeps_step trivial fun new => ?_
  have hg₂ : Grew Minor h (⟨.process (.breakerState w), new⟩ ::
      ⟨.process (.breakerCheck w), checked⟩ :: ⟨.process (.breakerState w), old⟩ ::
        ⟨.process (.breakerGet w initial), got⟩ :: h₁) :=
    .cons rfl (.cons rfl (.cons rfl (.cons rfl hg₁)))
  have hpersist := quiet_of_mere (persistBreakerTransition_mere w old new)
  refine keeps_quiet_then hpersist fun persisted h₃ hg₃ => ?_
  have hg₄ := hg₂.trans (minor_of_grew hg₃)
  cases checked with
  | ok admitted =>
    exact obeys_ret ⟨hg₄, unsettled_ok _⟩
  | error remaining =>
    apply obeys_bind (failPending_prepares FailureKind.noConfusion)
    intro failed h₅ hg₅
    exact obeys_ret ⟨hg₄.trans hg₅, unsettled_error rfl⟩

theorem recoverWorker_errors (cfg : ProcessConfig) (w : WorkerId) :
    Returns Unsettled (recoverWorker cfg w) := by
  apply returns_bind
  intro inventory
  cases inventory with
  | error e => exact unsettled_error rfl
  | ok inventory =>
    apply returns_bind
    intro reaped
    apply returns_bind
    intro audited inserted
    exact unsettled_ok _

theorem ensureWorkerRecovered_errors (cfg : ProcessConfig) (w : WorkerId) :
    Returns Unsettled (ensureWorkerRecovered cfg w) := by
  intro generation known
  change Returns Unsettled (if known = true then pure (Except.ok false) else recoverWorker cfg w)
  split
  · exact unsettled_ok _
  · exact recoverWorker_errors cfg w

theorem recoverFirst_keeps {cfg : ProcessConfig} {task : Task} {flag : Bool} {w : WorkerId} :
    Keeps D p a (fun r h' => Grew Minor h h' ∧ Unsettled r)
      (recoverFirst cfg task flag w) h := by
  apply obeys_bind (obeys_returns (ensureWorkerRecovered_prepares cfg w)
    (ensureWorkerRecovered_errors cfg w))
  rintro recovered h₁ ⟨hg₁, hr⟩
  cases recovered with
  | ok known =>
    exact obeys_ret ⟨hg₁, unsettled_ok _⟩
  | error e =>
    refine keeps_quiet_then (recordOutcome_quiet _ _) fun recorded h₂ hg₂ => ?_
    apply obeys_bind (failPending_prepares FailureKind.noConfusion)
    intro failed h₃ hg₃
    exact obeys_ret ⟨(hg₁.trans (minor_of_grew hg₂)).trans hg₃, unsettled_error (hr e rfl)⟩

theorem skillFailure_kind (w : WorkerId) (missing : List String) :
    (skillFailure w missing).kind ≠ .executionVanished := by
  intro hk
  cases hk

theorem assembleHarness_keeps {task : Task} {flag : Bool} {w : WorkerId} :
    Keeps D p a (fun r h' => Grew Minor h h' ∧ Unsettled r)
      (assembleHarness D task flag w) h := by
  refine keeps_quiet_then (quiet_of_mere (basePrompt_mere task)) fun base h₁ hg₁ => ?_
  have hu := quiet_of_mere (injectSkills_mere D.sha256 base task.skillsRequired)
  refine keeps_quiet_then hu fun harness h₂ hg₂ => ?_
  have hg := (minor_of_grew hg₁).trans (minor_of_grew hg₂)
  split
  · exact obeys_ret ⟨hg, unsettled_ok _⟩
  · apply obeys_bind (failPending_prepares (skillFailure_kind w harness.missing))
    intro failed h₃ hg₃
    exact obeys_ret ⟨hg.trans hg₃, unsettled_error rfl⟩

/-- How a dispatch ends. -/
def Dispatched {α : Type} (id : TaskId) (h : History) (r : Except DispatchError α)
    (h' : History) : Prop :=
  h <:+ h' ∧ Attempted id r h'

theorem dispatchTo_keeps {cfg : ProcessConfig} {task : Task} {flag : Bool} {w : WorkerId}
    (hd : DependenciesRead task.id h) (hp : Passed w h) :
    Keeps D p a (Dispatched task.id h) (dispatchTo D cfg task flag w) h := by
  apply obeys_andThen (checkBreaker_keeps hp)
  · rintro e h₁ ⟨hg, hr⟩
    exact ⟨hg.suffix, hr.attempted⟩
  rintro - h₁ ⟨hg₁, -⟩
  apply obeys_andThen recoverFirst_keeps
  · rintro e h₂ ⟨hg, hr⟩
    exact ⟨(hg₁.trans hg).suffix, hr.attempted⟩
  rintro - h₂ ⟨hg₂, -⟩
  apply obeys_andThen assembleHarness_keeps
  · rintro e h₃ ⟨hg, hr⟩
    exact ⟨((hg₁.trans hg₂).trans hg).suffix, (unsettled_error (hr e rfl)).attempted⟩
  rintro harness h₃ ⟨hg₃, -⟩
  have hg₀ : Grew Minor h h₃ := (hg₁.trans hg₂).trans hg₃
  apply obeys_andThen (claim_keeps (hd.mono hg₀.suffix.subset) (hp.grew hg₀))
  · rintro e h₄ ⟨hg, -, hr⟩
    exact ⟨(hg₀.trans hg).suffix, hr.attempted⟩
  rintro claimed h₄ ⟨hg₄, ho, -⟩
  have hg : Grew Minor h h₄ := hg₀.trans hg₄
  apply obeys_conseq (handOver_keeps (ho rfl) (hp.grew hg))
  rintro r h₅ ⟨hs, hr⟩
  exact ⟨hg.suffix.trans hs, hr⟩

theorem selectionFailure_kind (e : SelectionError) :
    (selectionFailure e).kind ≠ .executionVanished := by
  cases e <;> exact FailureKind.noConfusion

theorem dispatchExisting_keeps (cfg : ProcessConfig) {task : Task} (flag : Bool)
    (hd : DependenciesRead task.id h) :
    Keeps D p a (Dispatched task.id h) (dispatchExisting D cfg task flag) h := by
  refine keeps_step trivial fun allowed => ?_
  have hs₁ := List.suffix_cons (⟨.process .leaseAllowsControl, allowed⟩ : Entry Op Resp) h
  cases allowed with
  | false =>
    refine keeps_step trivial fun label => ?_
    refine keeps_quiet_then (quiet_of_mere (auditControl_mere _ _ _ _)) fun audited h₂ hg => ?_
    exact obeys_ret ⟨(hs₁.trans (List.suffix_cons _ _)).trans hg.suffix,
      (unsettled_error rfl).attempted⟩
  | true =>
    apply obeys_bind (select_keeps task)
    rintro selected h₂ ⟨hp, hs₂⟩
    have hs := hs₁.trans hs₂
    cases selected with
    | error e =>
      apply obeys_bind (failPending_prepares (selectionFailure_kind e))
      intro failed h₃ hg
      exact obeys_ret ⟨hs.trans hg.suffix, (unsettled_error rfl).attempted⟩
    | ok w =>
      apply obeys_conseq (dispatchTo_keeps (hd.mono hs.subset) (hp w rfl))
      rintro r h₃ ⟨hs₃, hr⟩
      exact ⟨hs.trans hs₃, hr⟩

end HandOver

end FleetOrchestrator.Scheduler
