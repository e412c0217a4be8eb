import FleetOrchestrator.Scheduler.Fences
import FleetOrchestrator.Scheduler.Pieces

/-! A worker is asked what it holds before it is given tasks, once under each control generation. -/

namespace FleetOrchestrator.Scheduler

open Core Store Transport Interleaving Machine

/-- The ledger is not looked at. -/
def Unchecking (op : Op) : Prop := ∀ generation w, op ≠ .process (.ledgerContains generation w)

/-- The generation this activity looked at the ledger under, the last time it did. -/
def checkedUnder : History → Option (Option ℤ)
  | [] => none
  | ⟨.process (.ledgerContains generation _), _⟩ :: _ => some generation
  | _ :: h => checkedUnder h

/-- The ledger did not know the worker, and this is what comes next. -/
def Asking (generation : Option ℤ) (w : WorkerId) (h : History) : Prop :=
  ∃ h₀, h = ⟨.process (.ledgerContains generation w), false⟩ :: h₀

def Asked (generation : Option ℤ) (w : WorkerId) (h : History) : Prop :=
  ∃ client h₀, Asking generation w h₀ ∧
    Grew Unchecking (⟨.acp (.lookupClient w), client⟩ :: h₀) h

def Known (generation : Option ℤ) (w : WorkerId) (h : History) : Prop :=
  ∃ h₀, Grew Unchecking (⟨.process (.ledgerContains generation w), true⟩ :: h₀) h

def Cleared (generation : Option ℤ) (w : WorkerId) (h : History) : Prop :=
  Asked generation w h ∨ Known generation w h

/-- A worker is entered into the ledger by who asked it, and given tasks by who asked it or found it
there. -/
def Recovering (h : History) : Op → Prop
  | .process (.ledgerInsert w) => ∃ generation, Asked generation w h
  | .store (.compareAndSetTaskStatus _ _ (.dispatched w _) _ _) =>
    ∃ generation, Cleared generation w h
  | _ => True

section Growth

variable {generation : Option ℤ} {w : WorkerId} {h h' : History}

theorem checkedUnder_skip {op : Op} {r : Resp op} (ho : Unchecking op) :
    checkedUnder (⟨op, r⟩ :: h) = checkedUnder h := by
  cases op with
  | process o =>
    cases o with
    | ledgerContains g v => exact absurd rfl (ho g v)
    | _ => rfl
  | _ => rfl

theorem checkedUnder_grew (hg : Grew Unchecking h h') : checkedUnder h' = checkedUnder h := by
  obtain ⟨new, rfl, hn⟩ := hg
  induction new with
  | nil => rfl
  | cons e new ih =>
    rw [List.cons_append, checkedUnder_skip (hn e List.mem_cons_self)]
    exact ih fun x hx => hn x (List.mem_cons_of_mem e hx)

theorem Asked.grew (ha : Asked generation w h) (hg : Grew Unchecking h h') :
    Asked generation w h' := by
  obtain ⟨client, h₀, hh, ha⟩ := ha
  exact ⟨client, h₀, hh, ha.trans hg⟩

theorem Cleared.grew (hc : Cleared generation w h) (hg : Grew Unchecking h h') :
    Cleared generation w h' := by
  rcases hc with ha | ⟨h₀, hk⟩
  · exact .inl (ha.grew hg)
  · exact .inr ⟨h₀, hk.trans hg⟩

theorem Asked.checked (ha : Asked generation w h) : checkedUnder h = some generation := by
  obtain ⟨client, h₀, ⟨h₁, rfl⟩, hg⟩ := ha
  rw [checkedUnder_grew hg]
  rfl

theorem Cleared.checked (hc : Cleared generation w h) : checkedUnder h = some generation := by
  rcases hc with ha | ⟨h₀, hk⟩
  · exact ha.checked
  · rw [checkedUnder_grew hk]
    rfl

end Growth

section Parts

open Dispatcher

variable {D : Deployment}

theorem unchecking_plain (_ : History) (op : Op) (ho : Plain op) : Unchecking op := by
  rintro generation w rfl
  cases ho

theorem unchecking_silent : Silent (Abides fun _ => Unchecking) where
  toComposes := composes_abides unchecking_plain
  check _ := abides_perform fun _ _ _ => by simp
  record _ _ := abides_perform fun _ _ _ => by simp
  event _ := abides_perform fun _ _ _ => by simp

theorem unchecking_failed (id : TaskId) (expected : List TaskPhase) (failure : TaskFailure) :
    Abides (fun _ => Unchecking) (markFailed id expected failure .controlDecision) :=
  markFailed_composed unchecking_silent fun _ => abides_perform fun _ _ _ => by simp

theorem recovering_plain (h : History) (op : Op) (ho : Plain op) : Recovering h op := by
  cases op with
  | store o =>
    cases o with
    | compareAndSetTaskStatus => cases ho
    | _ => trivial
  | process o =>
    cases o with
    | ledgerInsert w => cases ho
    | _ => trivial
  | acp o => trivial
  | readSkill file => trivial

theorem recovering_silent : Silent (Abides Recovering) where
  toComposes := composes_abides recovering_plain
  check _ := abides_perform fun _ => trivial
  record _ _ := abides_perform fun _ => trivial
  event _ := abides_perform fun _ => trivial

theorem recovering_failed (id : TaskId) (expected : List TaskPhase) (failure : TaskFailure)
    (origin : TransitionOrigin) : Abides Recovering (markFailed id expected failure origin) :=
  markFailed_composed recovering_silent fun _ => abides_perform fun _ => trivial

theorem recovering_decided (id : TaskId) (expected : List TaskPhase) (failure : TaskFailure) :
    Abides Recovering (markFailed id expected failure .controlDecision) :=
  recovering_failed id expected failure .controlDecision

/-- A part that abides by the licences and does not look at the ledger leaves it at that. -/
theorem keeps_cleared {α : Type} {x : M α} {generation : Option ℤ} {w : WorkerId} {h : History}
    (hx : Abides Recovering x) (hu : Abides (fun _ => Unchecking) x) (hc : Cleared generation w h) :
    Obeys Recovering (fun _ h' => Cleared generation w h') x h := by
  have hg := obeys_grew (hx h) (uses_of_obeys (hu h))
  exact obeys_conseq hg fun _ _ hq => hc.grew hq.2

theorem recoverWorker_clears (cfg : ProcessConfig) (w : WorkerId) {generation : Option ℤ}
    {h : History} (ha : Asking generation w h) :
    Obeys Recovering (fun r h' => ∀ b, r = .ok b → Cleared generation w h')
      (recoverWorker cfg w) h := by
  have unchecked {α : Type} {x : M α} (hx : Abides (fun _ => Unchecking) x) :
      Uses Unchecking x := uses_of_obeys (hx [])
  have plainly {α : Type} {x : M α} (hx : Uses Plain x) : Uses Unchecking x :=
    unchecked (unchecking_silent.uses hx)
  have hlist : Obeys Recovering (fun _ h' => Asked generation w h')
      (AcpTransport.listSessions w workerRecoveryTimeout) h := by
    refine obeys_call trivial fun client => ?_
    have hrest := (plain_of_mere (listSessions_mere w workerRecoveryTimeout)).2 client
    have hk := obeys_grew
      (recovering_silent.uses hrest (⟨.acp (.lookupClient w), client⟩ :: h))
      (plainly hrest)
    exact obeys_conseq hk fun _ _ hq => ⟨client, h, ha, hq.2⟩
  refine obeys_bind hlist fun inventory h₁ hasked => ?_
  cases inventory with
  | error e => exact obeys_ret fun b hb => nomatch hb
  | ok inventory =>
    have hreap := obeys_grew
      (reapReported_composed recovering_silent.toComposes recovering_decided w inventory h₁)
      (unchecked (reapReported_composed unchecking_silent.toComposes unchecking_failed w inventory))
    refine obeys_bind hreap fun _ h₂ hg₂ => ?_
    have haudit := plain_of_mere (auditDecision_mere cfg AuditAction.controlWorkerRecovered
      ("worker", toString w) [("inventory", .text inventory.label),
        ("authoritative", .flag inventory.isAuthoritative)])
    have haudited := obeys_grew (recovering_silent.uses haudit h₂) (plainly haudit)
    refine obeys_bind haudited fun _ h₃ hg₃ => ?_
    have hasked₃ := (hasked.grew hg₂.2).grew hg₃.2
    refine obeys_step ⟨generation, hasked₃⟩ fun _ => ?_
    exact obeys_ret fun b _ => .inl (hasked₃.grew (.one (by simp [Unchecking])))

theorem ensureWorkerRecovered_clears (cfg : ProcessConfig) (w : WorkerId) (h : History) :
    Obeys Recovering (fun r h' => ∀ b, r = .ok b → ∃ generation, Cleared generation w h')
      (ensureWorkerRecovered cfg w) h := by
  refine obeys_step trivial fun generation => ?_
  refine obeys_step trivial fun known => ?_
  cases known with
  | true => exact obeys_ret fun b _ => ⟨generation, .inr ⟨_, .refl _⟩⟩
  | false =>
    apply obeys_conseq (recoverWorker_clears cfg w ⟨_, rfl⟩)
    intro r h' hr b hb
    exact ⟨generation, hr b hb⟩

theorem recoverFirst_clears (cfg : ProcessConfig) (task : Task) (flag : Bool) (w : WorkerId)
    (h : History) :
    Obeys Recovering (fun r h' => r = .ok () → ∃ generation, Cleared generation w h')
      (recoverFirst cfg task flag w) h := by
  refine obeys_bind (ensureWorkerRecovered_clears cfg w h) fun recovered h₁ hc => ?_
  cases recovered with
  | ok b => exact obeys_ret fun _ => hc b rfl
  | error e =>
    refine obeys_bind (recordOutcome_composed recovering_silent.toLenient w .failure h₁)
      fun _ h₂ _ => ?_
    refine obeys_bind (failPending_composed recovering_silent.toComposes recovering_decided _ _ _ h₂) fun _ h₃ _ => ?_
    exact obeys_ret fun he => nomatch he

theorem claim_recovering (cfg : ProcessConfig) (task : Task) (w : WorkerId)
    {generation : Option ℤ} {h : History} (hc : Cleared generation w h) :
    Obeys Recovering (fun _ _ => True) (claim cfg task w) h := by
  refine obeys_step trivial fun startedAt => ?_
  refine obeys_step trivial fun fence => ?_
  have hgrown : Cleared generation w (⟨.process .controlFence, fence⟩ ::
      ⟨.process .utcNow, startedAt⟩ :: h) :=
    hc.grew ((Grew.one (by simp [Unchecking])).cons (by simp [Unchecking]))
  refine obeys_step ⟨generation, hgrown⟩ fun outcome => ?_
  rcases outcome with e | _ | _ | _ | _
  case ok.fenced =>
    refine obeys_bind (recovering_silent.uses
      (plain_of_mere (auditControl_mere _ _ _ _)) _) ?_
    intro audited h' _
    exact obeys_ret trivial
  all_goals exact obeys_ret trivial

theorem dispatchTo_recovering (cfg : ProcessConfig) (task : Task) (flag : Bool) (w : WorkerId) :
    Abides Recovering (dispatchTo D cfg task flag w) := by
  intro h
  refine obeys_andThen (checkBreaker_composed recovering_silent.toLenient recovering_decided task
    flag w h) (fun _ _ _ => trivial) fun _ h₁ _ => ?_
  refine obeys_andThen (recoverFirst_clears cfg task flag w h₁) (fun _ _ _ => trivial)
    fun _ h₂ hc => ?_
  obtain ⟨generation, hc⟩ := hc rfl
  refine obeys_andThen (keeps_cleared
    (assembleHarness_composed recovering_silent.toComposes recovering_decided task flag w)
    (assembleHarness_composed unchecking_silent.toComposes unchecking_failed task flag w) hc)
    (fun _ _ _ => trivial) fun harness h₃ hc => ?_
  refine obeys_andThen (claim_recovering cfg task w hc) (fun _ _ _ => trivial) fun _ h₄ _ => ?_
  have free {op : Op} (ho : ∀ h, Recovering h op) : Abides Recovering (call op) := abides_perform ho
  have handed (req : DispatchRequest) : Abides Recovering (AcpTransport.dispatch req) :=
    acpDispatch_composed recovering_silent.toComposes (fun _ => free fun _ => trivial)
      (fun _ _ _ _ => free fun _ => trivial) (fun _ => free fun _ => trivial)
      (fun _ => free fun _ => trivial) req
  exact handOver_composed recovering_silent (free fun _ => trivial) (free fun _ => trivial) handed
    recovering_decided task w harness h₄

theorem program_recovering (D : Deployment) (p : ℕ) (a : Activity) :
    Abides Recovering (program D p a) := by
  have free {op : Op} (ho : ∀ h, Recovering h op) : Abides Recovering (call op) := abides_perform ho
  have hparts : Wholes D (Abides Recovering) := {
    toComposes := recovering_silent.toComposes
    markFailed := recovering_decided
    dispatchTo := dispatchTo_recovering
    completed := fun id result => reportCompleted_composed recovering_silent.toLenient
      (free fun _ => trivial) (markCompleted_composed recovering_silent fun _ => free fun _ => trivial)
    failed := fun id => handleFailed_composed recovering_silent.toLenient (free fun _ => trivial)
      fun failure => recovering_failed id [.dispatched] failure .workerOutcome
    cancel := fun cfg id reason => cancel_composed recovering_silent.toComposes
      (fun _ _ _ => free fun _ => trivial) (writeCancelled_composed recovering_silent
        (free fun _ => trivial) fun _ _ => free fun _ => trivial) cfg
    judgeSession := judgeSession_composed recovering_silent.toComposes fun _ _ _ =>
      free fun _ => trivial
    prompt := promptTask_composed recovering_silent.toComposes (fun _ _ _ => free fun _ => trivial)
      (fun _ => free fun _ => trivial) fun _ => free fun _ => trivial }
  exact program_composed hparts p a

end Parts

def World.ledger (w : World) (p : ℕ) : Option ℤ × List WorkerId := (w.process p).recoveredWorkers

/-- The generation of the process at this moment. -/
def generation (D : Deployment) (c : FleetConfig) (p : ℕ) : Option ℤ :=
  (c.state.process p).leaseEpoch (D.process p)

/-- The inventory of the worker was asked for, because the ledger did not know it, while the
process was at this generation. -/
def Requested (D : Deployment) (c₀ c : FleetConfig) (p : ℕ) (g : Option ℤ) (w : WorkerId) : Prop :=
  ∃ c₁ c₂ i ch, ∃ r : (fleet D).Ran c₁ c₂ i ch (.acp (.lookupClient w)),
    (fleet D).Reaches always c₀ c₁ ∧ (fleet D).Reaches always c₂ c ∧ r.party = p ∧
      (∃ known, Asking known w (history c₁.log i)) ∧ generation D c₁ p = g

/-- What the activity relies on is still of the generation it looked at the ledger under: the
process when it asks, the ledger when it is written, the fence when a task is claimed. -/
def steadyOp (D : Deployment) (c : FleetConfig) (p : ℕ) (h : History) : Op → Bool
  | .acp (.lookupClient _) =>
    match h with
    | ⟨.process (.ledgerContains g _), _⟩ :: _ => generation D c p = g
    | _ => true
  | .process (.ledgerInsert _) => (checkedUnder h).all fun g => (c.state.ledger p).1 = g
  | .store (.compareAndSetTaskStatus _ _ (.dispatched ..) fence _) =>
    (checkedUnder h).all fun g => fence.map ControlFence.epoch = g
  | _ => true

def steady (D : Deployment) (c : FleetConfig) : FleetAction → Bool
  | .run i _ =>
    match c.threads[i]? with
    | some ⟨p, _, .call op _⟩ => steadyOp D c p (history c.log i) op
    | _ => true
  | _ => true

section Runs

variable {D : Deployment} {c₀ c c' : FleetConfig} {p i : ℕ} {g : Option ℤ} {w : WorkerId}

theorem disciplined_recovering (D : Deployment) :
    (fleet D).Disciplined (fun _ _ => Recovering) fun _ _ _ _ => True :=
  fun p a => program_recovering D p a []

theorem ran_steady {ch : Choice} {op : Op} (r : (fleet D).Ran c c' i ch op)
    (hc : steady D c (.run i ch) = true) : steadyOp D c r.party (history c.log i) op = true := by
  simp only [steady, r.was] at hc
  exact hc

theorem Requested.later (hr : Requested D c₀ c p g w) (h : (fleet D).Reaches always c c') :
    Requested D c₀ c' p g w := by
  obtain ⟨c₁, c₂, i, ch, r, h₁, h₂, hp, ha, hg⟩ := hr
  exact ⟨c₁, c₂, i, ch, r, h₁, h₂.trans h, hp, ha, hg⟩

/-- Who asked did so under the generation of its look at the ledger. -/
theorem asked_requested (h₀ : Start c₀)
    (h : (fleet D).Reaches (fun c x => steady D c x = true) c₀ c)
    {t : Thread Op Resp ℕ Activity Output} (ht : c.threads[i]? = some t)
    (ha : Asked g w (history c.log i)) : Requested D c₀ c t.party g w := by
  obtain ⟨client, h₁, ⟨h₂, hasking⟩, hg⟩ := ha
  obtain ⟨c₁, c₂, ch, r, -, hh, hr₁, hc, hs, hr₂⟩ := h.step_history h₀.fresh hg.suffix
  have hsteady := ran_steady r hc
  rw [hh, hasking] at hsteady
  have hgen : generation D c₁ r.party = g := of_decide_eq_true hsteady
  rw [(r.still hr₂ ht).1]
  exact ⟨c₁, c₂, i, ch, r, hr₁.any, hr₂.any, rfl, ⟨g, h₂, by rw [hh, hasking]⟩, hgen⟩

/-- Who is in the ledger was asked under its generation. -/
def Founded (D : Deployment) (c₀ c : FleetConfig) : Prop :=
  ∀ p w, w ∈ (c.state.ledger p).2 → Requested D c₀ c p (c.state.ledger p).1 w

theorem founded_same (hs : (fleet D).Reaches always c c')
    (hl : ∀ p, c'.state.ledger p = c.state.ledger p) (h : Founded D c₀ c) : Founded D c₀ c' := by
  intro p w hw
  rw [hl p] at hw ⊢
  exact (h p w hw).later hs

theorem founded_run (h₀ : Start c₀)
    (h : (fleet D).Reaches (fun c x => steady D c x = true) c₀ c) {ch : Choice} {op : Op}
    (r : (fleet D).Ran c c' i ch op) (hc : steady D c (.run i ch) = true)
    (hs : (fleet D).step c (.run i ch) = some c') (hf : Founded D c₀ c) : Founded D c₀ c' := by
  have hnext : (fleet D).Reaches always c c' := .single trivial hs
  intro p w hw
  have hledger : c'.state.ledger p = if r.party = p then
      advance ledgerAfter (c.state.ledger p) op else c.state.ledger p :=
    exec_part ledger_remembered (ran_exec r) p
  rw [hledger] at hw ⊢
  by_cases hp : r.party = p
  · subst hp
    rw [if_pos rfl] at hw ⊢
    cases op with
    | process o =>
      cases o with
      | ledgerContains g v =>
        simp only [advance, ledgerAfter] at hw ⊢
        by_cases hg : (c.state.ledger r.party).1 = g
        · rw [if_neg (not_not_intro hg)] at hw ⊢
          exact (hf _ w hw).later hnext
        · rw [if_pos hg] at hw
          cases hw
      | ledgerInsert v =>
        rcases List.mem_cons.mp hw with rfl | hw
        · obtain ⟨g, ha⟩ : ∃ g, Asked g w (history c.log i) :=
            r.licensed (disciplined_recovering D) h₀.fresh h
          have hsteady := ran_steady r hc
          simp only [steadyOp, ha.checked, Option.all_some, decide_eq_true_eq] at hsteady
          change Requested D c₀ c' r.party (c.state.ledger r.party).1 w
          rw [hsteady]
          exact (asked_requested h₀ h r.was ha).later hnext
        · exact (hf _ w hw).later hnext
      | _ => exact (hf _ w hw).later hnext
    | _ => exact (hf _ w hw).later hnext
  · rw [if_neg hp] at hw ⊢
    exact (hf p w hw).later hnext

theorem founded (h₀ : Start c₀) (h : (fleet D).Reaches (fun c x => steady D c x = true) c₀ c) :
    Founded D c₀ c := by
  apply h.invariant (P := Founded D c₀)
  · intro p w hw
    unfold World.ledger at hw
    rw [h₀.pristine.process p] at hw
    cases hw
  · intro c x c' hr hc hs ih
    have hnext : (fleet D).Reaches always c c' := .single trivial hs
    cases x with
    | start q a =>
      apply founded_same hnext _ ih
      intro p
      exact accept_part ledger_remembered (step_start hs).1 p
    | env d =>
      apply founded_same hnext _ ih
      intro p
      exact disturb_part ledger_remembered (step_env hs).1 p
    | run i ch =>
      obtain ⟨op, ⟨r⟩⟩ := step_run hs
      exact founded_run h₀ hr r hc hs ih

theorem contains_known {ch : Choice} (r : (fleet D).Ran c c' i ch (.process (.ledgerContains g w)))
    (hr : r.resp = true) :
    (c.state.ledger r.party).1 = g ∧ w ∈ (c.state.ledger r.party).2 := by
  have ha := (exec_process (ran_exec r)).1
  rw [hr] at ha
  simp only [Process.perform] at ha
  unfold World.ledger
  by_cases hg : (c.state.process r.party).recoveredWorkers.1 = g
  · refine ⟨hg, ?_⟩
    rw [if_neg (not_not_intro hg)] at ha
    exact List.contains_iff_mem.mp ha.symm
  · rw [if_pos hg] at ha
    cases ha

/-- And so was who is given tasks. -/
theorem cleared_requested (h₀ : Start c₀)
    (h : (fleet D).Reaches (fun c x => steady D c x = true) c₀ c)
    {t : Thread Op Resp ℕ Activity Output} (ht : c.threads[i]? = some t)
    (hc : Cleared g w (history c.log i)) : Requested D c₀ c t.party g w := by
  rcases hc with ha | ⟨h₁, hk⟩
  · exact asked_requested h₀ h ht ha
  · obtain ⟨c₁, c₂, ch, r, hr, -, hr₁, -, hs, hr₂⟩ := h.step_history h₀.fresh hk.suffix
    have hnext : (fleet D).Reaches always c₁ c₂ := .single trivial hs
    obtain ⟨hg, hw⟩ := contains_known r hr
    have hreq := founded h₀ hr₁ _ w hw
    rw [hg] at hreq
    rw [(r.still hr₂ ht).1]
    exact hreq.later (hnext.trans hr₂.any)

/-- Inventory first: whoever is in the ledger was asked under the ledger's generation, and whoever
is given a task was asked under the generation it is given it under. -/
theorem inventory_first (h₀ : Start c₀)
    (h : (fleet D).Reaches (fun c x => steady D c x = true) c₀ c) (p : ℕ) (w : WorkerId) :
    (w ∈ (c.state.ledger p).2 → Requested D c₀ c p (c.state.ledger p).1 w) ∧
    ∀ c' i ch id expected startedAt fence origin, ∀ r : (fleet D).Ran c c' i ch
        (.store (.compareAndSetTaskStatus id expected (.dispatched w startedAt) fence origin)),
      steady D c (.run i ch) = true → r.party = p →
        Requested D c₀ c p (fence.map ControlFence.epoch) w := by
  refine ⟨fun hw => founded h₀ h p w hw, ?_⟩
  rintro c' i ch id expected startedAt fence origin r hc rfl
  obtain ⟨g, hcleared⟩ : ∃ g, Cleared g w (history c.log i) :=
    r.licensed (disciplined_recovering D) h₀.fresh h
  have hsteady := ran_steady r hc
  simp only [steadyOp, hcleared.checked, Option.all_some, decide_eq_true_eq] at hsteady
  rw [hsteady]
  exact cleared_requested h₀ h r.was hcleared

/-- The first instance holds the lease and is about to claim a task for its worker. -/
def pairClaiming : List FleetAction :=
  soloSetup ++ [.start 0 .acquireLease] ++ steps 0 2 {} ++
    [.start 0 (.submit (soloTask 1 []))] ++ steps 1 26 {}

/-- The claim as the process writes it under an epoch. -/
def claimWrite (epoch startedAt : ℤ) : Op :=
  .store (.compareAndSetTaskStatus ⟨1⟩ [.pending] (.dispatched ⟨0⟩ startedAt)
    (some ⟨"cluster", epoch⟩) .controlDecision)

set_option maxRecDepth 10000 in
theorem claimed_after_inventory : ∃ c c' : FleetConfig,
    (fleet pair).Reaches (fun c x => steady pair c x = true) initial c ∧
      c.state.ledger 0 = (some 1, [⟨0⟩]) ∧ Requested pair initial c 0 (some 1) ⟨0⟩ ∧
      ∃ r : (fleet pair).Ran c c' 1 {} (claimWrite 1 0), r.resp = .ok .applied ∧
        Requested pair initial c r.party (some 1) ⟨0⟩ := by
  have hrun : (fleet pair).replayWhile (steady pair) initial pairClaiming =
      some ((fleet pair).after initial pairClaiming) := rfl
  have hreach := replayWhile_reaches hrun
  let r : (fleet pair).Ran ((fleet pair).after initial pairClaiming)
      ((fleet pair).after initial (pairClaiming ++ steps 1 1 {})) 1 {} (claimWrite 1 0) :=
    ⟨0, .submit (soloTask 1 []), _, .ok .applied, rfl, rfl, rfl, rfl⟩
  obtain ⟨hledger, hclaim⟩ := inventory_first initial_start hreach 0 ⟨0⟩
  refine ⟨_, _, hreach, rfl, hledger List.mem_cons_self, r, rfl, ?_⟩
  exact hclaim _ 1 {} ⟨1⟩ [.pending] 0 (some ⟨"cluster", 1⟩) .controlDecision r rfl rfl

/-- The requests a log shows, and the status of the process at each. -/
def requestedIn (p : ℕ) (g : Option ℤ) (w : WorkerId) : FleetLog → Bool
  | [] => false
  | k :: log => requestedIn p g w log ||
    match k.op with
    | .acp (.lookupClient v) =>
      v = w && k.party = p && (replayed statusAfter .stopped p log).epoch = g
    | _ => false

theorem requestedIn_mono {k : Call Op Resp ℕ} {l log : FleetLog} (hl : k :: l <:+ log)
    (ho : k.op = .acp (.lookupClient w)) (hp : k.party = p)
    (hg : (replayed statusAfter .stopped p l).epoch = g) : requestedIn p g w log = true := by
  induction log with
  | nil => cases List.suffix_nil.mp hl
  | cons m log ih =>
    rcases List.suffix_cons_iff.mp hl with he | hl
    · cases he
      simp [requestedIn, ho, hp, hg]
    · simp [requestedIn, ih hl]

theorem requested_logged (h₀ : Start c₀) (hl : (D.process p).lease.isSome = true)
    (h : Requested D c₀ c p g w) : requestedIn p g w c.log = true := by
  obtain ⟨c₁, c₂, i, ch, r, h₁, h₂, hp, -, hg⟩ := h
  have hsuffix := h₂.log_suffix
  rw [r.log] at hsuffix
  apply requestedIn_mono hsuffix rfl hp
  rw [← hg, generation, Process.leaseEpoch]
  obtain ⟨identity, hidentity⟩ := Option.isSome_iff_exists.mp hl
  rw [hidentity, part_logged status_remembered h₀ h₁ p]

/-- The worker is asked under the first epoch; while it answers, the lease is lost and taken again,
and another dispatch clears the ledger for the second epoch. -/
def pairInherited : List FleetAction :=
  soloSetup ++ [.start 0 .acquireLease] ++ steps 0 2 {} ++
    [.start 0 (.submit (soloTask 1 []))] ++ steps 1 15 {} ++
    [.env (.elapse (secs 16)), .start 0 (.renewLease 1)] ++ steps 2 2 {} ++
    [.start 0 .acquireLease] ++ steps 3 2 {} ++
    [.start 0 (.submit (soloTask 2 []))] ++ steps 4 14 {} ++ steps 1 11 {}

set_option maxRecDepth 10000 in
/-- The second epoch's ledger has the worker, and a task goes to it, though nobody asked it under
that epoch. -/
theorem recovery_inherited : ∃ c c' : FleetConfig,
    (fleet pair).Reaches always initial c ∧ c.state.ledger 0 = (some 2, [⟨0⟩]) ∧
      (∃ r : (fleet pair).Ran c c' 1 {} (claimWrite 2 16000), r.party = 0 ∧ r.resp = .ok .applied) ∧
      ¬ Requested pair initial c 0 (some 2) ⟨0⟩ := by
  refine ⟨(fleet pair).after initial pairInherited,
    (fleet pair).after initial (pairInherited ++ steps 1 1 {}), after_reaches _, rfl,
    ⟨⟨0, .submit (soloTask 1 []), _, .ok .applied, rfl, rfl, rfl, rfl⟩, rfl, rfl⟩, ?_⟩
  intro hreq
  have hlogged := requested_logged initial_start rfl hreq
  cases hlogged

end Runs

end FleetOrchestrator.Scheduler
