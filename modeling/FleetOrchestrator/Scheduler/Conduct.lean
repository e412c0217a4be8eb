import FleetOrchestrator.Scheduler.PromptConduct

/-! A sweep: what it judges it has listed, and what it calls vanished it has asked about since. -/

namespace FleetOrchestrator.Scheduler

open Core Store Transport Interleaving Reconciler

section Pending

variable {D : Deployment} {p : ℕ} {a : Activity} {h : History}

theorem redispatch_proceeds (cfg : ProcessConfig) {task : Task} (summary : ReconcileSummary)
    (hd : DependenciesRead task.id h) : Proceeds D p a (redispatch D cfg task summary) h := by
  apply obeys_bind (dispatchExisting_keeps cfg false hd)
  rintro attempt h₁ ⟨hs, -⟩
  cases attempt with
  | ok dispatched => exact obeys_ret hs
  | error e =>
    dsimp only
    split
    · refine keeps_quiet_then (quiet_of_mere (noteRetry_mere _ _)) fun noted h₂ hg => ?_
      exact obeys_ret (hs.trans hg.suffix)
    · exact obeys_ret hs

theorem exhausted_kind (task : Task) (selected : Except SelectionError WorkerId) :
    (exhausted task selected).kind ≠ .executionVanished := by
  rcases selected with e | w
  · cases e <;> exact FailureKind.noConfusion
  · exact FailureKind.noConfusion

theorem deadLetter_proceeds (task : Task) (summary : ReconcileSummary) :
    Proceeds D p a (deadLetter task summary) h := by
  apply obeys_bind (select_keeps task)
  rintro selected h₁ ⟨-, hs⟩
  apply obeys_bind (markFailed_prepares (.inl ⟨rfl, exhausted_kind task selected⟩))
  intro failed h₂ hg
  exact obeys_ret (hs.trans hg.suffix)

theorem retryOrBury_proceeds (cfg : ProcessConfig) {task : Task} (summary : ReconcileSummary)
    (hd : DependenciesRead task.id h) : Proceeds D p a (retryOrBury D cfg task summary) h := by
  unfold retryOrBury
  split
  · exact deadLetter_proceeds task summary
  · exact redispatch_proceeds cfg summary hd

theorem sweepPending_proceeds (cfg : ProcessConfig) (now : ℤ) (tasks : List Task)
    (summary : ReconcileSummary) (hl : ∀ t ∈ tasks, Listed t h) :
    Proceeds D p a (sweepPending D cfg now tasks summary) h := by
  induction tasks generalizing h summary with
  | nil => exact proceeds_ret _
  | cons task tasks ih =>
    have rest {h₁ : History} (hs : h <:+ h₁) : ∀ t ∈ tasks, Listed t h₁ := by
      intro t ht
      exact (hl t (List.mem_cons_of_mem _ ht)).mono hs.subset
    unfold sweepPending
    split
    · exact ih summary (rest List.suffix_rfl)
    · apply obeys_bind (hasUnresolvedDependencies_keeps task.dependencyIds)
      rintro unresolved h₁ ⟨hd, hs⟩
      cases unresolved with
      | true =>
        apply obeys_conseq (ih summary (rest hs))
        intro r h₂ hs₂
        exact hs.trans hs₂
      | false =>
        have hr : DependenciesRead task.id h₁ :=
          ⟨task, .inl ((hl task List.mem_cons_self).mono hs.subset), rfl, hd rfl⟩
        apply obeys_bind (retryOrBury_proceeds cfg _ hr)
        intro summary' h₂ hs₂
        apply obeys_conseq (ih summary' (rest (hs.trans hs₂)))
        intro r h₃ hs₃
        exact (hs.trans hs₂).trans hs₃

end Pending

section Dispatched

variable {D : Deployment} {p : ℕ} {a : Activity} {h₀ h h' : History} {w : WorkerId}

/-- Some time after `h₀` the worker was heard to hold exactly `live`. -/
def AskedSince (h₀ : History) (w : WorkerId) (live : List SessionId) (h : History) : Prop :=
  ∃ h₁ connection, h₀ <:+ h₁ ∧ ⟨.acp (.askSessions w connection), .listed live false⟩ :: h₁ <:+ h

def AllAsked (h₀ : History) (inventories : Inventories) (h : History) : Prop :=
  ∀ w live, inventories.lookup w = some (.reported live) → AskedSince h₀ w live h

theorem AskedSince.mono {live : List SessionId} (ha : AskedSince h₀ w live h) (hs : h <:+ h') :
    AskedSince h₀ w live h' := by
  obtain ⟨h₁, connection, h₀₁, hh⟩ := ha
  exact ⟨h₁, connection, h₀₁, hh.trans hs⟩

theorem AllAsked.mono {inventories : Inventories} (ha : AllAsked h₀ inventories h)
    (hs : h <:+ h') : AllAsked h₀ inventories h' :=
  fun w live hl => (ha w live hl).mono hs

theorem AllAsked.remember {inventories : Inventories} {inventory : SessionInventory}
    (ha : AllAsked h₀ inventories h)
    (hi : ∀ live, inventory = .reported live → AskedSince h₀ w live h) :
    AllAsked h₀ ((w, inventory) :: inventories) h := by
  intro v live hl
  rw [List.lookup_cons] at hl
  split at hl
  · next hv =>
    cases hl
    rw [beq_iff_eq] at hv
    subst hv
    exact hi live rfl
  · exact ha v live hl

/-- What each part of the sweep keeps: it goes on from `h`, and its answers were heard. -/
def Swept (h₀ h : History) (s : Sweep) (h' : History) : Prop :=
  h <:+ h' ∧ AllAsked h₀ s.inventories h'

theorem swept_ret {s : Sweep} (ha : AllAsked h₀ s.inventories h) :
    Keeps D p a (Swept h₀ h) (.ret s) h := ⟨List.suffix_rfl, ha⟩

theorem reap_keeps {id : TaskId} {failure : TaskFailure}
    {found failed : ReconcileSummary → ReconcileSummary} {s : Sweep}
    (hf : Grounds a h id [.dispatched] (.failed failure)) (ha : AllAsked h₀ s.inventories h) :
    Keeps D p a (Swept h₀ h) (reap id failure found failed s) h := by
  apply obeys_bind (markFailed_prepares hf)
  intro applied h₁ hg
  split
  · exact obeys_ret ⟨hg.suffix, ha.mono hg.suffix⟩
  · exact obeys_ret ⟨hg.suffix, ha.mono hg.suffix⟩

theorem inventoryOf_keeps (cfg : ProcessConfig) (w : WorkerId) (s : Sweep) (hs : h₀ <:+ h)
    (ha : AllAsked h₀ s.inventories h) :
    Keeps D p a (fun r h' => Swept h₀ h r.2 h' ∧
        ∀ live, r.1 = .reported live → AskedSince h₀ w live h') (inventoryOf cfg w s) h := by
  unfold inventoryOf
  cases hl : s.inventories.lookup w with
  | some cached =>
    refine obeys_ret ⟨⟨List.suffix_rfl, ha⟩, ?_⟩
    rintro live rfl
    exact ha w live hl
  | none =>
    apply obeys_bind (listSessions_keeps w cfg.reconcile.sessionListTimeoutSecs)
    rintro listed h₁ ⟨hh, hg⟩
    cases listed with
    | ok inventory =>
      have hi : ∀ live, inventory = .reported live → AskedSince h₀ w live h₁ := by
        rintro live rfl
        obtain ⟨h₂, connection, h₀₂, rfl⟩ := hh live rfl
        exact ⟨h₂, connection, hs.trans h₀₂, List.suffix_rfl⟩
      exact obeys_ret ⟨⟨hg.suffix, (ha.mono hg.suffix).remember hi⟩, hi⟩
    | error e =>
      have hi : ∀ live, SessionInventory.undeclared = .reported live → AskedSince h₀ w live h₁ := by
        intro live hl
        cases hl
      exact obeys_ret ⟨⟨hg.suffix, (ha.mono hg.suffix).remember hi⟩, hi⟩

variable {task : Task} {startedAt : ℤ} {s : Sweep}

theorem seen_of_listed (hl : Listed task h₀) (ht : task.status = .dispatched w startedAt)
    (hs : h₀ <:+ h) : SeenOn task.id w h :=
  .inr (.inl ⟨task, startedAt, hl.mono hs.subset, rfl, ht⟩)

theorem reapVanished_keeps (cfg : ProcessConfig) (hl : Listed task h₀)
    (ht : task.status = .dispatched w startedAt) (hs : h₀ <:+ h)
    (ha : AllAsked h₀ s.inventories h) :
    Keeps D p a (Swept h₀ h) (Reconciler.reapVanished cfg task w s) h := by
  unfold Reconciler.reapVanished
  cases hsession : task.acpSessionId with
  | none => exact swept_ret ha
  | some sessionId =>
    apply obeys_bind (inventoryOf_keeps cfg w s hs ha)
    rintro ⟨inventory, s'⟩ h₁ ⟨⟨hs₁, ha₁⟩, hi⟩
    have hs₀ := hs.trans hs₁
    cases inventory with
    | undeclared => exact obeys_ret ⟨hs₁, ha₁⟩
    | refused message => exact obeys_ret ⟨hs₁, ha₁⟩
    | reported live =>
      dsimp only
      split
      · exact obeys_ret ⟨hs₁, ha₁⟩
      · next hc =>
        obtain ⟨h₂, connection, h₀₂, hh⟩ := hi live rfl
        have hmissed : MissedBySweep task.id w sessionId h₁ :=
          ⟨h₂, connection, live, task, startedAt, hh, hl.mono h₀₂.subset, rfl, ht, hsession,
            by simpa using hc⟩
        have hgrounds : Grounds a h₁ task.id [.dispatched]
            (.failed (Dispatcher.vanishedSessionFailure w sessionId)) := by
          refine .inr ⟨rfl, ?_, fun _ => ⟨w, sessionId, rfl, .inr hmissed⟩⟩
          intro v hv
          cases hv
          exact seen_of_listed hl ht hs₀
        apply obeys_conseq (reap_keeps hgrounds ha₁)
        rintro r h₃ ⟨hs₃, ha₃⟩
        exact ⟨hs₁.trans hs₃, ha₃⟩

/-- The other three verdicts name the worker the task was listed on, and no session. -/
theorem worker_grounds {failure : TaskFailure} (hl : Listed task h₀)
    (ht : task.status = .dispatched w startedAt) (hs : h₀ <:+ h) (hw : failure.workerId = some w)
    (hk : failure.kind ≠ .executionVanished) :
    Grounds a h task.id [.dispatched] (.failed failure) := by
  refine .inr ⟨rfl, ?_, fun hv => absurd hv hk⟩
  intro v hv
  rw [hw] at hv
  cases hv
  exact seen_of_listed hl ht hs

theorem judgeOnWorker_keeps (cfg : ProcessConfig) (now : ℤ) (hl : Listed task h₀)
    (ht : task.status = .dispatched w startedAt) (hs : h₀ <:+ h)
    (ha : AllAsked h₀ s.inventories h) (found : Except StoreError (Option Worker)) :
    Keeps D p a (Swept h₀ h) (judgeOnWorker cfg now task w startedAt s found) h := by
  rcases found with e | _ | worker
  · exact swept_ret ha
  · change Keeps D p a (Swept h₀ h) (reapOrphaned task.id w s) h
    unfold reapOrphaned
    exact reap_keeps (worker_grounds hl ht hs rfl FailureKind.noConfusion) ha
  · unfold judgeOnWorker
    dsimp only
    split
    · exact reap_keeps (worker_grounds hl ht hs rfl FailureKind.noConfusion) ha
    · split
      · unfold reapOffline
        split
        · exact reap_keeps (worker_grounds hl ht hs rfl FailureKind.noConfusion) ha
        · exact swept_ret ha
      · exact reapVanished_keeps cfg hl ht hs ha

theorem judgeDispatched_keeps (cfg : ProcessConfig) (now : ℤ) (hl : Listed task h₀)
    (hs : h₀ <:+ h) (ha : AllAsked h₀ s.inventories h) :
    Keeps D p a (Swept h₀ h) (judgeDispatched cfg now task s) h := by
  unfold judgeDispatched
  cases ht : task.status with
  | dispatched w startedAt =>
    dsimp only
    split
    · exact swept_ret ha
    · refine keeps_step trivial fun found => ?_
      have hs₁ := List.suffix_cons (⟨.store (.getWorker w), found⟩ : Entry Op Resp) h
      apply obeys_conseq (judgeOnWorker_keeps cfg now hl ht (hs.trans hs₁) (ha.mono hs₁) found)
      rintro r h₂ ⟨hs₂, ha₂⟩
      exact ⟨hs₁.trans hs₂, ha₂⟩
  | pending => exact swept_ret ha
  | completed result => exact swept_ret ha
  | failed failure => exact swept_ret ha
  | cancelled reason cancelledAt => exact swept_ret ha

theorem judgeEach_keeps (cfg : ProcessConfig) (now : ℤ) (tasks : List Task) (s : Sweep)
    (hl : ∀ t ∈ tasks, Listed t h₀) (hs : h₀ <:+ h) (ha : AllAsked h₀ s.inventories h) :
    Keeps D p a (Swept h₀ h) (judgeEach cfg now tasks s) h := by
  induction tasks generalizing h s with
  | nil => exact swept_ret ha
  | cons task tasks ih =>
    apply obeys_bind (judgeDispatched_keeps cfg now (hl task List.mem_cons_self) hs ha)
    rintro s₁ h₁ ⟨hs₁, ha₁⟩
    have hrest : ∀ t ∈ tasks, Listed t h₀ := fun t ht => hl t (List.mem_cons_of_mem _ ht)
    apply obeys_conseq (ih s₁ hrest (hs.trans hs₁) ha₁)
    rintro s₂ h₂ ⟨hs₂, ha₂⟩
    exact ⟨hs₁.trans hs₂, ha₂⟩

theorem reapStaleDispatched_proceeds (cfg : ProcessConfig) (summary : ReconcileSummary) :
    Proceeds D p a (reapStaleDispatched cfg summary) h := by
  refine keeps_step trivial fun listed => ?_
  have hs₁ := List.suffix_cons (⟨.store (.listTasks
    { status := some .dispatched, limit := maxPendingScan }), listed⟩ : Entry Op Resp) h
  cases listed with
  | error e => exact obeys_ret hs₁
  | ok dispatched =>
    refine keeps_quiet_then (quiet_of_mere utcNow_mere) fun now h₂ hg₂ => ?_
    have hl : ∀ t ∈ dispatched, Listed t (⟨.store (.listTasks
        { status := some .dispatched, limit := maxPendingScan }), .ok dispatched⟩ :: h) :=
      fun t ht => ⟨_, dispatched, List.mem_cons_self, ht⟩
    have hnone : AllAsked (⟨.store (.listTasks
        { status := some .dispatched, limit := maxPendingScan }), .ok dispatched⟩ :: h) [] h₂ := by
      intro w live hw
      cases hw
    apply obeys_conseq (judgeEach_keeps cfg now dispatched { summary } hl hg₂.suffix hnone)
    rintro s h₃ ⟨hs₃, -⟩
    exact (hs₁.trans hg₂.suffix).trans hs₃

end Dispatched

section Sweeping

variable {D : Deployment} {p : ℕ} {a : Activity} {h : History}

theorem reapOrphanSessions_proceeds (cfg : ProcessConfig) (inventories : Inventories)
    (summary : ReconcileSummary) :
    Proceeds D p a (reapOrphanSessions cfg inventories summary) h := by
  unfold reapOrphanSessions
  split
  · refine proceeds_step trivial fun listed => ?_
    cases listed with
    | error e => exact proceeds_ret _
    | ok workers => exact proceeds_quiet (sweepWorkers_quiet _ _ _ _)
  · exact proceeds_ret _

theorem sweep_proceeds (cfg : ProcessConfig) (pending : List Task)
    (hl : ∀ t ∈ pending, Listed t h) : Proceeds D p a (sweep D cfg pending) h := by
  refine proceeds_step trivial fun now => ?_
  have hl' : ∀ t ∈ pending, Listed t (⟨.process .utcNow, now⟩ :: h) :=
    fun t ht => (hl t ht).mono (List.subset_cons_self _ _)
  apply proceeds_bind (sweepPending_proceeds cfg now pending {} hl')
  intro summary h₁ _
  apply proceeds_bind (reapStaleDispatched_proceeds cfg summary)
  intro swept h₂ _
  apply proceeds_bind (reapOrphanSessions_proceeds cfg swept.inventories swept.summary)
  intro summary h₃ _
  exact proceeds_quiet (quiet_of_mere (reportUnackedCommands_mere cfg summary))

theorem reconcileOnce_proceeds (cfg : ProcessConfig) :
    Proceeds D p a (reconcileOnce D cfg) h := by
  refine proceeds_step trivial fun allowed => ?_
  cases allowed with
  | false => exact proceeds_ret _
  | true =>
    refine proceeds_step trivial fun listed => ?_
    cases listed with
    | error e => exact proceeds_ret _
    | ok pending =>
      apply sweep_proceeds
      intro t ht
      exact ⟨_, pending, List.mem_cons_self, ht⟩

end Sweeping

end FleetOrchestrator.Scheduler

/-! Every activity of every process keeps to the discipline, so in every run each operation is
licensed by what its own activity did before. -/

namespace FleetOrchestrator.Scheduler

open Core Store Transport Interleaving

/-- What an activity's output is backed by. -/
def Ensures (D : Deployment) : Activity → Output → History → Prop
  | .submit task, .submitted r, h => SubmitEnds D task h r
  | .cancel id reason, .cancelled r, h => CancelEnds id reason r h
  | .prompt .., .finished, h => PromptEnds h
  | .submit _, .cancelled _, _ | .submit _, .finished, _ => False
  | .cancel .., .submitted _, _ | .cancel .., .finished, _ => False
  | .prompt .., .submitted _, _ | .prompt .., .cancelled _, _ => False
  | _, _, _ => True

theorem deleteTask_quiet (id : TaskId) : Uses Quiet (deleteTask id) := by
  refine quiet_step rfl fun dependents => ?_
  rcases dependents with e | ds
  · exact uses_ret _
  · cases ds with
    | nil => exact uses_perform rfl
    | cons d ds => exact uses_ret _

section Finishing

variable {α : Type} {D : Deployment} {p : ℕ} {a : Activity} {h : History} {x : M α}

theorem finishing_keeps {Q : History → Prop} (hx : Keeps D p a (fun _ h' => Q h') x h)
    (hq : ∀ h', Q h' → Ensures D a .finished h') : Keeps D p a (Ensures D a) (finishing x) h :=
  obeys_bind hx fun _ h' hh => hq h' hh

theorem withIdentity_keeps {cfg : ProcessConfig} {f : LeaseIdentity → M α}
    (hf : ∀ identity, cfg.lease = some identity → Proceeds D p a (f identity) h)
    (hq : ∀ h', Ensures D a .finished h') : Keeps D p a (Ensures D a) (withIdentity cfg f) h := by
  unfold withIdentity
  cases hl : cfg.lease with
  | none => exact obeys_ret (hq h)
  | some identity => exact finishing_keeps (hf identity hl) fun h' _ => hq h'

end Finishing

/-- The discipline of the whole deployment. -/
theorem fleet_disciplined (D : Deployment) :
    (fleet D).Disciplined (Licensed D) (fun _ => Ensures D) := by
  intro p a
  cases a with
  | submit task => exact obeys_bind (submit_keeps (D.process p) task) fun _ _ hq => hq
  | cancel id reason => exact obeys_bind (cancel_keeps (D.process p) id reason) fun _ _ hq => hq
  | workerEvent e =>
    exact finishing_keeps (handleWorkerEvent_proceeds (D.process p) e) fun _ _ => trivial
  | reconcile => exact finishing_keeps (reconcileOnce_proceeds (D.process p)) fun _ _ => trivial
  | deleteTask id => exact finishing_keeps (proceeds_quiet (deleteTask_quiet id)) fun _ _ => trivial
  | acquireLease =>
    exact withIdentity_keeps (fun _ hl => tryAcquire_proceeds hl) fun _ => trivial
  | renewLease epoch =>
    exact withIdentity_keeps (fun _ hl => tryRenew_proceeds hl epoch) fun _ => trivial
  | releaseLease =>
    exact withIdentity_keeps (fun identity _ => release_proceeds identity) fun _ => trivial
  | prompt link connection req cwd =>
    exact finishing_keeps (promptTask_keeps link connection req cwd) fun _ hq => hq
  | connectionEnded link =>
    exact finishing_keeps (connectionEnded_keeps link) fun _ _ => trivial
  | unregister w =>
    exact finishing_keeps (proceeds_quiet (quiet_of_mere (unregister_mere w))) fun _ _ => trivial

section Runs

open Machine

variable {D : Deployment} {cond : FleetConfig → FleetAction → Prop} {c₀ c c' : FleetConfig}

theorem ran_licensed (h₀ : Seeded c₀) (h : (fleet D).Reaches cond c₀ c) {i : ℕ} {ch : Choice}
    {op : Op} (r : (fleet D).Ran c c' i ch op) :
    Licensed D r.party r.act (history c.log i) op :=
  r.licensed (fleet_disciplined D) h₀.fresh h

theorem finished_ensures (h₀ : Seeded c₀) (h : (fleet D).Reaches cond c₀ c) {i p : ℕ}
    {a : Activity} {out : Output} (ht : c.threads[i]? = some ⟨p, a, .ret out⟩) :
    Ensures D a out (history c.log i) :=
  returned (fleet_disciplined D) h₀.fresh h ht

/-- The licence of a logged operation, given by what its thread had logged before it. -/
theorem logged_licensed (h₀ : Seeded c₀) (h : (fleet D).Reaches cond c₀ c)
    {k : Call Op Resp ℕ} {l : FleetLog} (hk : k :: l <:+ c.log) :
    ∃ t, c.threads[k.thread]? = some t ∧ t.party = k.party ∧
      Licensed D k.party t.act (history l k.thread) k.op :=
  logged_licence (fleet_disciplined D) h₀.fresh h hk

end Runs

end FleetOrchestrator.Scheduler
