import FleetOrchestrator.Scheduler.HandOverConduct

/-! Submitting, handling worker events and cancelling keep to the discipline, and what a client
is told is backed by what was done. -/

namespace FleetOrchestrator.Scheduler

open Core Store Transport Interleaving Dispatcher

section Ready

variable {D : Deployment} {p : ℕ} {a : Activity} {h : History}

/-- Every one of these was read as completed. -/
def AllCompleted (deps : List TaskId) (h : History) : Prop :=
  ∀ d ∈ deps, ∃ t, Fetched d t h ∧ t.phase = .completed

theorem hasUnresolvedDependencies_completed (deps : List TaskId) :
    Keeps D p a (fun r h' => r = false → AllCompleted deps h') (hasUnresolvedDependencies deps)
      h := by
  induction deps generalizing h with
  | nil =>
    intro _ d hd
    cases hd
  | cons dep deps ih =>
    have unresolved {h : History} :
        Keeps D p a (fun r h' => r = false → AllCompleted (dep :: deps) h') (.ret true) h := by
      intro hr
      cases hr
    refine keeps_step trivial fun found => ?_
    rcases found with e | _ | t
    · exact unresolved
    · exact unresolved
    · dsimp only
      cases hp : t.phase with
      | completed =>
        apply obeys_conseq (obeys_grew ih (quiet_of_mere (hasUnresolvedDependencies_mere deps)))
        rintro r h' ⟨hr, hg⟩ hf d hd
        rcases List.mem_cons.mp hd with rfl | hd
        · exact ⟨t, hg.mem List.mem_cons_self, hp⟩
        · exact hr hf d hd
      | pending => exact unresolved
      | dispatched => exact unresolved
      | failed => exact unresolved
      | cancelled => exact unresolved

theorem hasUnresolvedDependencies_keeps (deps : List TaskId) :
    Keeps D p a (fun r h' => (r = false → AllCompleted deps h') ∧ h <:+ h')
      (hasUnresolvedDependencies deps) h := by
  apply obeys_conseq (obeys_grew (hasUnresolvedDependencies_completed deps)
    (quiet_of_mere (hasUnresolvedDependencies_mere deps)))
  rintro r h' ⟨hr, hg⟩
  exact ⟨hr, hg.suffix⟩

theorem dispatchReady_proceeds (cfg : ProcessConfig) (tasks : List Task)
    (hl : ∀ t ∈ tasks, Listed t h) : Proceeds D p a (dispatchReady D cfg tasks) h := by
  induction tasks generalizing h with
  | nil => exact proceeds_ret _
  | cons task tasks ih =>
    have rest {h₁ : History} (hs : h <:+ h₁) : ∀ t ∈ tasks, Listed t h₁ := by
      intro t ht
      exact (hl t (List.mem_cons_of_mem _ ht)).mono hs.subset
    apply obeys_bind (hasUnresolvedDependencies_keeps task.dependencyIds)
    rintro unresolved h₁ ⟨hd, hs⟩
    cases unresolved with
    | true =>
      apply obeys_conseq (ih (rest hs))
      intro r h₂ hs₂
      exact hs.trans hs₂
    | false =>
      have hr : DependenciesRead task.id h₁ :=
        ⟨task, .inl ((hl task List.mem_cons_self).mono hs.subset), rfl, hd rfl⟩
      apply obeys_bind (dispatchExisting_keeps cfg false hr)
      rintro dispatched h₂ ⟨hs₂, -⟩
      apply obeys_conseq (ih (rest (hs.trans hs₂)))
      intro r h₃ hs₃
      exact (hs.trans hs₂).trans hs₃

theorem dispatchReadyTasks_proceeds (cfg : ProcessConfig) :
    Proceeds D p a (dispatchReadyTasks D cfg) h := by
  refine proceeds_step trivial fun listed => ?_
  cases listed with
  | error e => exact proceeds_ret _
  | ok tasks =>
    apply dispatchReady_proceeds
    intro t ht
    exact ⟨_, tasks, List.mem_cons_self, ht⟩

end Ready

section Submitting

variable {D : Deployment} {p : ℕ} {h : History}

/-- What a client that was given an id, or an error that settles the matter, can rely on. -/
def SubmitEnds (D : Deployment) (task : Task) (h : History) :
    Except DispatchError TaskId → Prop
  | .ok id => Inserted (routed D task) h ∧ id = task.id ∨
      ∃ existing, (⟨.store (.insertTaskIdempotent (routed D task)), .ok (.duplicate existing)⟩ :
        Entry Op Resp) ∈ h ∧ id = existing.id
  | .error e => e.settles = true → ¬ Inserted (routed D task) h ∨ HandedBy task.id h

theorem firstAttempt_keeps {a : Activity} (cfg : ProcessConfig) {task : Task}
    (hd : DependenciesRead task.id h) :
    Keeps D p a (fun r h' => h <:+ h' ∧ Attempted task.id r h' ∧ ∀ id, r = .ok id → id = task.id)
      (firstAttempt D cfg task) h := by
  apply obeys_bind (dispatchExisting_keeps cfg _ hd)
  rintro attempt h₁ ⟨hs, hr⟩
  have accepted {h₂ : History} (hs₂ : h <:+ h₂) :
      Keeps D p a (fun r h' => h <:+ h' ∧ Attempted task.id r h' ∧
        ∀ id, r = .ok id → id = task.id) (.ret (.ok task.id)) h₂ := by
    refine obeys_ret ⟨hs₂, attempted_ok _, ?_⟩
    intro id hi
    cases hi
    rfl
  cases attempt with
  | ok dispatched => exact accepted hs
  | error e =>
    dsimp only
    split
    · refine keeps_step trivial fun incremented => ?_
      exact accepted (hs.trans (List.suffix_cons _ _))
    · refine obeys_ret ⟨hs, ?_, ?_⟩
      · intro e' he hs'
        cases he
        exact hr e rfl hs'
      · intro id hi
        cases hi

theorem submitInserted_keeps {a : Activity} (cfg : ProcessConfig) {task : Task}
    (hi : Inserted task h) :
    Keeps D p a (fun r h' => h <:+ h' ∧ Attempted task.id r h' ∧ ∀ id, r = .ok id → id = task.id)
      (submitInserted D cfg task) h := by
  refine keeps_quiet_then (appendEvent_quiet _) fun appended h₁ hg₁ => ?_
  apply obeys_bind (hasUnresolvedDependencies_keeps task.dependencyIds)
  rintro unresolved h₂ ⟨hd, hs₂⟩
  have hs : h <:+ h₂ := hg₁.suffix.trans hs₂
  cases unresolved with
  | true =>
    refine obeys_ret ⟨hs, attempted_ok _, ?_⟩
    intro id hi
    cases hi
    rfl
  | false =>
    apply obeys_conseq (firstAttempt_keeps cfg ⟨task, .inr (hs.subset hi), rfl, hd rfl⟩)
    rintro r h₃ ⟨hs₃, hr⟩
    exact ⟨hs.trans hs₃, hr⟩

theorem submit_keeps (cfg : ProcessConfig) (task : Task) :
    Keeps D p (.submit task) (fun r h => SubmitEnds D task h r) (submit D cfg task) [] := by
  unfold submit
  cases validateWorkspaceCwd task.cwd with
  | error e =>
    refine obeys_ret fun _ => .inl ?_
    intro hi
    cases hi
  | ok cwd =>
    refine keeps_step ⟨rfl, task, rfl, rfl⟩ fun outcome => ?_
    rcases outcome with e | _ | existing | existing
    · exact obeys_ret fun _ => .inl (by simp [Inserted])
    · apply obeys_conseq (submitInserted_keeps cfg List.mem_cons_self)
      rintro r h ⟨hs, hr, hi⟩
      cases r with
      | ok id => exact .inl ⟨hs.subset List.mem_cons_self, hi id rfl⟩
      | error e => exact fun hse => .inr (hr e rfl hse)
    · exact obeys_ret (.inr ⟨existing, List.mem_cons_self, rfl⟩)
    · exact obeys_ret fun _ => .inl (by simp [Inserted])

end Submitting

section Events

variable {D : Deployment} {p : ℕ} {h : History}

theorem markCompleted_proceeds (id : TaskId) (result : TaskResult) :
    Proceeds D p (.workerEvent (.completed id result)) (markCompleted id result) h := by
  refine proceeds_step trivial fun fence => ?_
  refine proceeds_step ⟨⟨h, rfl⟩, ?_, rfl, rfl⟩ fun outcome => ?_
  · intro q hq
    cases List.mem_singleton.mp hq
    rfl
  apply proceeds_quiet
  rcases outcome with e | _ | current | _ | under
  · exact uses_ret _
  · exact appendEvent_quiet _
  · exact uses_ret _
  · exact uses_ret _
  · exact uses_ret _

theorem handleCompleted_proceeds (cfg : ProcessConfig) (id : TaskId) (result : TaskResult) :
    Proceeds D p (.workerEvent (.completed id result)) (handleCompleted D cfg id result) h := by
  apply proceeds_bind (proceeds_quiet (recordOnBreaker_quiet _ _))
  intro recorded h₁ _
  apply proceeds_bind (markCompleted_proceeds id result)
  intro marked h₂ _
  refine proceeds_step trivial fun decremented => ?_
  exact dispatchReadyTasks_proceeds cfg

theorem currentWorkerOf_seen {a : Activity} (id : TaskId) :
    Keeps D p a (fun r h' => ∀ w, r = some w → SeenOn id w h') (currentWorkerOf id) h := by
  have unknown {h : History} :
      Keeps D p a (fun r h' => ∀ w, r = some w → SeenOn id w h') (.ret none) h := by
    intro w hw
    cases hw
  refine keeps_step trivial fun found => ?_
  rcases found with e | _ | t
  · exact unknown
  · exact unknown
  · dsimp only
    cases ht : t.status with
    | dispatched w startedAt =>
      intro v hv
      cases hv
      exact .inl ⟨t, startedAt, List.mem_cons_self, ht⟩
    | pending => exact unknown
    | completed result => exact unknown
    | failed failure => exact unknown
    | cancelled reason cancelledAt => exact unknown

theorem observation_kind (observation : FailureObservation) :
    observation.kind ≠ .executionVanished := by
  cases observation <;> exact FailureKind.noConfusion

theorem handleFailed_proceeds {a : Activity} (id : TaskId) (error : String)
    (observation : FailureObservation) :
    Proceeds D p a (handleFailed id error observation) h := by
  apply obeys_bind (obeys_grew (currentWorkerOf_seen id) (quiet_of_mere (currentWorkerOf_mere id)))
  rintro worker h₁ ⟨hw, hg₁⟩
  refine keeps_quiet_then (recordFailureOf_quiet worker) fun recorded h₂ hg₂ => ?_
  have hs : h <:+ h₂ := hg₁.suffix.trans hg₂.suffix
  have hgrounds : Grounds a h₂ id [.dispatched] (.failed ⟨error, observation.kind, worker, 1⟩) := by
    refine .inr ⟨rfl, ?_, fun hk => absurd hk (observation_kind observation)⟩
    intro w hv
    exact (hw w hv).mono hg₂.suffix.subset
  apply obeys_bind (markFailed_prepares hgrounds)
  intro failed h₃ hg₃
  refine keeps_step trivial fun decremented => ?_
  exact obeys_ret ((hs.trans hg₃.suffix).trans (List.suffix_cons _ _))

theorem handleSessionOpened_proceeds (id : TaskId) (sessionId : SessionId) :
    Proceeds D p (.workerEvent (.sessionOpened id sessionId))
      (handleSessionOpened id sessionId) h := by
  refine proceeds_step trivial fun fence => ?_
  refine proceeds_step rfl fun recorded => ?_
  exact proceeds_ret _

theorem handleWorkerEvent_proceeds (cfg : ProcessConfig) (e : WorkerEvent) :
    Proceeds D p (.workerEvent e) (handleWorkerEvent D cfg e) h := by
  cases e with
  | completed id result =>
    refine proceeds_step trivial fun allowed => ?_
    cases allowed with
    | true => exact handleCompleted_proceeds cfg id result
    | false => exact proceeds_quiet (quiet_of_mere (abandonOutcome_mere _ _))
  | failed id error observation =>
    refine proceeds_step trivial fun allowed => ?_
    cases allowed with
    | true => exact handleFailed_proceeds id error observation
    | false => exact proceeds_quiet (quiet_of_mere (abandonOutcome_mere _ _))
  | sessionOpened id sessionId => exact handleSessionOpened_proceeds id sessionId
  | output id seq chunk =>
    refine proceeds_step trivial fun appended => ?_
    exact proceeds_ret _
  | toolCall id w invocation => exact proceeds_quiet (quiet_of_mere (handleToolCall_mere _ _ _ _))

end Events

end FleetOrchestrator.Scheduler
