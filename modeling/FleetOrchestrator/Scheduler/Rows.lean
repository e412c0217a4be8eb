import FleetOrchestrator.Scheduler.Conduct
import FleetOrchestrator.Scheduler.Steps

/-! A task row over a whole run: it appears once, moves forward only, and once removed stays
away. -/

namespace FleetOrchestrator.Scheduler

open Core Store Transport Interleaving Machine

/-- The same task at some later time. -/
structure Later (t t' : Task) : Prop where
  id : t'.id = t.id
  dependencyIds : t'.dependencyIds = t.dependencyIds
  ended : t.isTerminal = true → t'.status = t.status
  started : t.phase ≠ .pending → t'.phase ≠ .pending
  assigned : ∀ w startedAt, t.status = .dispatched w startedAt →
    t'.status = .dispatched w startedAt ∨ t'.isTerminal = true
  dispatchedAt : t.phase ≠ .pending → t'.dispatchedAt = t.dispatchedAt
  dispatchEpoch : t.phase ≠ .pending → t'.dispatchControlEpoch = t.dispatchControlEpoch
  session : ∀ s, t.acpSessionId = some s → t'.acpSessionId = some s
  skills : ∀ s, t.skillSnapshot = some s → t'.skillSnapshot = some s

theorem later_refl (t : Task) : Later t t :=
  ⟨rfl, rfl, fun _ => rfl, id, fun _ _ h => .inl h, fun _ => rfl, fun _ => rfl, fun _ h => h,
    fun _ h => h⟩

theorem isTerminal_of_status {t t' : Task} (h : t'.status = t.status) :
    t'.isTerminal = t.isTerminal := by
  unfold Task.isTerminal Task.phase
  rw [h]

theorem Later.trans {t₁ t₂ t₃ : Task} (h : Later t₁ t₂) (h' : Later t₂ t₃) : Later t₁ t₃ where
  id := h'.id.trans h.id
  dependencyIds := h'.dependencyIds.trans h.dependencyIds
  ended ht := by
    have hs := h.ended ht
    have ht₂ : t₂.isTerminal = true := (isTerminal_of_status hs).trans ht
    exact (h'.ended ht₂).trans hs
  started ht := h'.started (h.started ht)
  assigned w startedAt ht := by
    rcases h.assigned w startedAt ht with hd | hd
    · exact h'.assigned w startedAt hd
    · exact .inr ((isTerminal_of_status (h'.ended hd)).trans hd)
  dispatchedAt ht := (h'.dispatchedAt (h.started ht)).trans (h.dispatchedAt ht)
  dispatchEpoch ht := (h'.dispatchEpoch (h.started ht)).trans (h.dispatchEpoch ht)
  session s hs := h'.session s (h.session s hs)
  skills s hs := h'.skills s (h.skills s hs)

section Transitions

variable {new : TaskStatus} {fence : Option ControlFence} {now : ℤ} {t : Task}

theorem transition_status : (transition new fence now t).status = new := by
  unfold transition
  split
  · split <;> rfl
  · rfl

theorem transition_phase : (transition new fence now t).phase = new.phase := by
  rw [Task.phase, transition_status]

theorem transition_rest (new : TaskStatus) (fence : Option ControlFence) (now : ℤ) (t : Task) :
    (transition new fence now t).dependencyIds = t.dependencyIds ∧
    (transition new fence now t).acpSessionId = t.acpSessionId ∧
    (transition new fence now t).skillSnapshot = t.skillSnapshot := by
  unfold transition
  split
  · split <;> exact ⟨rfl, rfl, rfl⟩
  · exact ⟨rfl, rfl, rfl⟩

theorem transition_dispatch (h : new.phase ≠ .dispatched) :
    (transition new fence now t).dispatchedAt = t.dispatchedAt ∧
      (transition new fence now t).dispatchControlEpoch = t.dispatchControlEpoch := by
  unfold transition
  rw [if_neg fun hd => h (TaskStatus.isDispatched_iff.mp hd)]
  exact ⟨rfl, rfl⟩

theorem allowed_to_dispatch {q : TaskPhase} (h : q.transitionAllowed .dispatched = true) :
    q = .pending := by
  cases q <;> first | rfl | cases h

theorem allowed_from {q r : TaskPhase} (h : q.transitionAllowed r = true) :
    q.isTerminal = false ∧ r ≠ .pending ∧ (q = .dispatched → r.isTerminal = true) := by
  cases q <;> cases r <;> simp_all [TaskPhase.transitionAllowed, TaskPhase.isTerminal]

theorem transition_later (h : t.phase.transitionAllowed new.phase = true) :
    Later t (transition new fence now t) := by
  obtain ⟨hq, hr, ht⟩ := allowed_from h
  obtain ⟨hdeps, hsession, hskills⟩ := transition_rest new fence now t
  have hnew (hp : t.phase ≠ .pending) : new.phase ≠ .dispatched := by
    intro hd
    rw [hd] at h
    exact hp (allowed_to_dispatch h)
  constructor
  · exact transition_id new fence now t
  · exact hdeps
  · intro he
    rw [Task.isTerminal, hq] at he
    cases he
  · intro _
    rw [transition_phase]
    exact hr
  · intro w startedAt hd
    right
    rw [Task.isTerminal, transition_phase]
    apply ht
    rw [Task.phase, hd]
    rfl
  · exact fun hp => (transition_dispatch (hnew hp)).1
  · exact fun hp => (transition_dispatch (hnew hp)).2
  · intro s hs
    rw [hsession, hs]
  · intro s hs
    rw [hskills, hs]

end Transitions

section Effects

variable {b : Backend} {s : StoreState} {id : TaskId} {o : StoreOp} {r : o.Reply} {t t' : Task}

/-- A write beside the life cycle. -/
theorem later_of_kept (hi : t'.id = t.id) (hd : t'.dependencyIds = t.dependencyIds)
    (hs : t'.status = t.status) (ha : t'.dispatchedAt = t.dispatchedAt)
    (he : t'.dispatchControlEpoch = t.dispatchControlEpoch)
    (hsession : ∀ s, t.acpSessionId = some s → t'.acpSessionId = some s)
    (hskills : ∀ s, t.skillSnapshot = some s → t'.skillSnapshot = some s) : Later t t' where
  id := hi
  dependencyIds := hd
  ended _ := hs
  started hp := by
    unfold Task.phase
    rwa [hs]
  assigned w startedAt ht := .inl (hs.trans ht)
  dispatchedAt _ := ha
  dispatchEpoch _ := he
  session := hsession
  skills := hskills

theorem dropParent_later (other : TaskId) : Later t (dropParent other t) := by
  unfold dropParent
  split
  · exact later_of_kept rfl rfl rfl rfl rfl (fun _ h => h) fun _ h => h
  · exact later_refl t

/-- The transition table of the source, as the licence of every status write. -/
def Admitted (o : StoreOp) : Prop :=
  ∀ id expected new fence origin, o = .compareAndSetTaskStatus id expected new fence origin →
    ∀ q ∈ expected, q.transitionAllowed new.phase = true

theorem effect_later {row row' : Option Task} (he : RowEffect b s id o r row row')
    (ho : Admitted o) (ht : row = some t) (ht' : row' = some t') : Later t t' := by
  cases he with
  | same =>
    cases ht.symm.trans ht'
    exact later_refl t
  | inserted => cases ht
  | transition t₀ expected new fence origin hp hf =>
    cases ht
    cases ht'
    exact transition_later (ho _ _ _ _ _ rfl _ hp)
  | retried =>
    cases ht
    cases ht'
    exact later_of_kept rfl rfl rfl rfl rfl (fun _ h => h) fun _ h => h
  | session t₀ sessionId fence hn hf =>
    cases ht
    cases ht'
    refine later_of_kept rfl rfl rfl rfl rfl ?_ fun _ h => h
    intro s hs
    rw [hn] at hs
    cases hs
  | skills t₀ snapshot fence hn hf =>
    cases ht
    cases ht'
    refine later_of_kept rfl rfl rfl rfl rfl (fun _ h => h) ?_
    intro s hs
    rw [hn] at hs
    cases hs
  | removed => cases ht'
  | orphaned t₀ other hi =>
    cases ht
    cases ht'
    exact dropParent_later other

/-- A status changes by an applied write of the new one. -/
theorem effect_moves {row row' : Option Task} (he : RowEffect b s id o r row row')
    (ht : row = some t) (ht' : row' = some t') (hn : t'.status ≠ t.status) :
    ∃ expected fence origin, t.phase ∈ expected ∧ t' = transition t'.status fence s.now t ∧
      (⟨.store o, r⟩ : Entry Op Resp) =
        ⟨.store (.compareAndSetTaskStatus id expected t'.status fence origin), .ok .applied⟩ := by
  cases he with
  | same =>
    rw [ht] at ht'
    cases ht'
    exact absurd rfl hn
  | inserted => cases ht
  | transition t₀ expected new fence origin hp hf =>
    cases ht
    cases ht'
    rw [transition_status]
    exact ⟨expected, fence, origin, hp, rfl, rfl⟩
  | retried | session | skills =>
    cases ht
    cases ht'
    exact absurd rfl hn
  | removed => cases ht'
  | orphaned t₀ other hi =>
    cases ht
    cases ht'
    refine absurd ?_ hn
    unfold dropParent
    split <;> rfl

/-- A row appears by an insertion. -/
theorem effect_appears {row row' : Option Task} (he : RowEffect b s id o r row row')
    (ht : row = none) (ht' : row' = some t) :
    ∃ t₀, t₀.id = id ∧ t = b.insertedRow t₀ ∧ (⟨.store o, r⟩ : Entry Op Resp) =
      ⟨.store (.insertTaskIdempotent t₀), .ok .inserted⟩ := by
  cases he with
  | same =>
    rw [ht] at ht'
    cases ht'
  | inserted t₀ hi =>
    cases ht'
    exact ⟨t₀, hi, rfl, rfl⟩
  | transition | retried | session | skills | orphaned => cases ht
  | removed => cases ht

/-- A row disappears by the removal of an ended task. -/
theorem effect_disappears {row row' : Option Task} (he : RowEffect b s id o r row row')
    (ht : row = some t) (ht' : row' = none) :
    t.isTerminal = true ∧ (⟨.store o, r⟩ : Entry Op Resp) =
      ⟨.store (.removeTerminal id), .ok .deleted⟩ := by
  cases he with
  | same =>
    rw [ht] at ht'
    cases ht'
  | removed t₀ hend =>
    cases ht
    exact ⟨hend, rfl⟩
  | inserted | transition | retried | session | skills | orphaned => cases ht'

end Effects

section Steps

variable {D : Deployment} {cond : FleetConfig → FleetAction → Prop} {c₀ c c' : FleetConfig}
  {x : FleetAction} {id : TaskId} {t t' : Task}

theorem ran_admitted (h₀ : Seeded c₀) (h : (fleet D).Reaches cond c₀ c) {i : ℕ} {ch : Choice}
    {o : StoreOp} (r : (fleet D).Ran c c' i ch (.store o)) : Admitted o := by
  have hl := ran_licensed h₀ h r
  rintro id expected new fence origin rfl
  exact hl.2.1

/-- Every id is submitted by one activity only. -/
structure SubmittedOnce (c : FleetConfig) : Prop where
  minted : ∀ (i : ℕ) (t : Thread Op Resp ℕ Activity Output) (task : Task),
    c.threads[i]? = some t → t.act = .submit task → task.id ∈ c.state.minted
  only : ∀ (i j : ℕ) (t u : Thread Op Resp ℕ Activity Output) (task other : Task),
    c.threads[i]? = some t → c.threads[j]? = some u → t.act = .submit task →
      u.act = .submit other → task.id = other.id → i = j

/-- A submission comes from a client, and its id was never used before. -/
theorem submission_origin (hs : (fleet D).step c x = some c') {i : ℕ}
    {t : Thread Op Resp ℕ Activity Output} {task : Task} (ht : c'.threads[i]? = some t)
    (ha : t.act = .submit task) :
    (∃ t₀, c.threads[i]? = some t₀ ∧ t₀.act = .submit task) ∨
      i = c.threads.length ∧ task.id ∉ c.state.minted ∧ task.id ∈ c'.state.minted := by
  rcases thread_origin hs ht with ⟨t₀, ht₀, -, ha₀⟩ | ⟨-, ⟨p, a, rfl, rfl, hi⟩ | hspawn⟩
  · exact .inl ⟨t₀, ht₀, ha₀.trans ha⟩
  · cases ha
    obtain ⟨-, hn, hw⟩ := mint_eq (step_start hs).1
    refine .inr ⟨hi, hn, ?_⟩
    rw [hw]
    exact List.mem_cons_self
  · obtain ⟨j, ch, op, r, a, hm, -, rfl⟩ := hspawn
    cases ha
    have hm' : Activity.submit task ∈ spawned op r.resp := hm
    unfold spawned at hm'
    split at hm'
    · cases List.mem_singleton.mp hm'
    · cases hm'

theorem submittedOnce_step (hs : (fleet D).step c x = some c') (h : SubmittedOnce c) :
    SubmittedOnce c' where
  minted i t task ht ha := by
    rcases submission_origin hs ht ha with ⟨t₀, ht₀, ha₀⟩ | ⟨-, -, hm⟩
    · exact minted_step hs (h.minted i t₀ task ht₀ ha₀)
    · exact hm
  only i j t u task other ht hu ha hb he := by
    rcases submission_origin hs ht ha with ⟨t₀, ht₀, ha₀⟩ | ⟨hi, hn, -⟩
    · rcases submission_origin hs hu hb with ⟨u₀, hu₀, hb₀⟩ | ⟨hj, hn, -⟩
      · exact h.only i j t₀ u₀ task other ht₀ hu₀ ha₀ hb₀ he
      · exact absurd (he ▸ h.minted i t₀ task ht₀ ha₀) hn
    · rcases submission_origin hs hu hb with ⟨u₀, hu₀, hb₀⟩ | ⟨hj, -, -⟩
      · exact absurd (he ▸ h.minted j u₀ other hu₀ hb₀) hn
      · exact hi.trans hj.symm

theorem submitted_once (h₀ : Seeded c₀) (h : (fleet D).Reaches cond c₀ c) : SubmittedOnce c := by
  apply h.invariant (P := SubmittedOnce)
  · constructor
    · intro i t task ht
      rw [h₀.fresh.threads] at ht
      cases ht
    · intro i j t u task other ht
      rw [h₀.fresh.threads] at ht
      cases ht
  · intro c x c' _ _ hs hp
    exact submittedOnce_step hs hp

/-- No activity is left that could store the task. -/
def Spent (id : TaskId) (c : FleetConfig) : Prop :=
  id ∈ c.state.minted ∧ ∀ (i : ℕ) (t : Thread Op Resp ℕ Activity Output) (task : Task),
    c.threads[i]? = some t → t.act = .submit task → task.id = id → history c.log i ≠ []

theorem spent_step (hs : (fleet D).step c x = some c') (h : Spent id c) : Spent id c' := by
  refine ⟨minted_step hs h.1, ?_⟩
  intro i t task ht ha hi hn
  rcases submission_origin hs ht ha with ⟨t₀, ht₀, ha₀⟩ | ⟨-, hm, -⟩
  · apply h.2 i t₀ task ht₀ ha₀ hi
    have hsuf := history_suffix (step_log hs) i
    rwa [hn, List.suffix_nil] at hsuf
  · exact hm (hi ▸ h.1)

/-- A step whose log entry is known is a step of that operation. -/
theorem ran_as {i : ℕ} {ch : Choice} {op : Op} (r : (fleet D).Ran c c' i ch op) {op' : Op}
    {resp : Resp op'} (h : (⟨op, r.resp⟩ : Entry Op Resp) = ⟨op', resp⟩) :
    ∃ r' : (fleet D).Ran c c' i ch op', r'.resp = resp ∧ r'.party = r.party ∧ r'.act = r.act := by
  obtain rfl : op = op' := congrArg Entry.op h
  have hr : r.resp = resp := eq_of_heq (Entry.mk.inj h).2
  exact ⟨r, hr, rfl, rfl⟩

/-- How a row comes to be. -/
inductive Appearance (D : Deployment) (c c' : FleetConfig) (id : TaskId) (t : Task) :
    FleetAction → Prop
  | submitted (i : ℕ) (ch : Choice) (task : Task)
      (r : (fleet D).Ran c c' i ch (.store (.insertTaskIdempotent (Dispatcher.routed D task))))
      (hr : r.resp = .ok .inserted) (ha : r.act = .submit task) (hi : task.id = id)
      (hh : history c.log i = []) (ht : t = D.backend.insertedRow (Dispatcher.routed D task)) :
      Appearance D c c' id t (.run i ch)
  | inserted (hi : t.id = id) (hn : IsNew t) (hm : id ∉ c.state.minted) :
      Appearance D c c' id t (.env (.insertPending t))

theorem row_appearance (h₀ : Seeded c₀) (h : (fleet D).Reaches cond c₀ c)
    (hs : (fleet D).step c x = some c') (ht : c.state.row id = none)
    (ht' : c'.state.row id = some t') : Appearance D c c' id t' x := by
  cases hrow : row_change hs id with
  | kept _ hk =>
    rw [hk, ht] at ht'
    cases ht'
  | called i ch o r he =>
    obtain ⟨t₀, hi, hrow', hr⟩ := effect_appears he ht ht'
    obtain ⟨r', hr', -, -⟩ := ran_as r hr
    obtain ⟨hh, task, ha, rfl⟩ : history c.log i = [] ∧ ∃ task, r'.act = .submit task ∧
        t₀ = Dispatcher.routed D task := ran_licensed h₀ h r'
    exact .submitted i ch task r' hr' ha hi hh hrow'
  | inserted t₀ hi hn hm hk =>
    rw [hk] at ht'
    cases ht'
    exact .inserted hi hn hm

/-- A row appears for an id whose one chance this was. -/
theorem row_appears (h₀ : Seeded c₀) (h : (fleet D).Reaches cond c₀ c)
    (hs : (fleet D).step c x = some c') (ht : c.state.row id = none)
    (ht' : c'.state.row id = some t') : Spent id c' ∧ ¬ Spent id c := by
  have honce := submitted_once h₀ h
  cases row_appearance h₀ h hs ht ht' with
  | submitted i ch task r hr ha hid hh hrow =>
    refine ⟨⟨?_, ?_⟩, fun hsp => hsp.2 i _ task r.was ha hid hh⟩
    · exact minted_step hs (hid ▸ honce.minted i _ task r.was ha)
    · intro j u other hu hb hj hn
      rcases submission_origin hs hu hb with ⟨u₀, hu₀, hb₀⟩ | ⟨-, hm, -⟩
      · have hij : i = j := honce.only i j _ u₀ task other r.was hu₀ ha hb₀ (hid.trans hj.symm)
        subst hij
        rw [r.log, history_cons_self (⟨i, r.party,
          .store (.insertTaskIdempotent (Dispatcher.routed D task)), r.resp⟩ : Call Op Resp ℕ)] at hn
        cases hn
      · rw [hj, ← hid] at hm
        exact hm (honce.minted i _ task r.was ha)
  | inserted hi hn hm =>
    obtain ⟨he, hth, -⟩ := step_env hs
    refine ⟨⟨?_, ?_⟩, fun hsp => hm hsp.1⟩
    · obtain ⟨w₁, hw, hw'⟩ := Option.map_eq_some_iff.mp he
      obtain ⟨-, -, rfl⟩ := mint_eq hw
      rw [← hw', ← hi]
      exact List.mem_cons_self
    · intro j u other hu hb hj
      rw [hth] at hu
      exact absurd (hj ▸ honce.minted j u other hu hb) hm

theorem rows_spent (h₀ : Seeded c₀) (h : (fleet D).Reaches cond c₀ c) :
    ∀ id t, c.state.row id = some t → Spent id c := by
  apply h.invariant (P := fun c => ∀ id t, c.state.row id = some t → Spent id c)
  · intro id t ht
    refine ⟨h₀.minted id t ht, ?_⟩
    intro i th task hth
    rw [h₀.fresh.threads] at hth
    cases hth
  · intro c x c' hr _ hs ih id t' ht'
    cases ht : c.state.row id with
    | none => exact (row_appears h₀ hr hs ht ht').1
    | some t => exact spent_step hs (ih id t ht)

theorem row_later (h₀ : Seeded c₀) (h : (fleet D).Reaches cond c₀ c)
    (hs : (fleet D).step c x = some c') (ht : c.state.row id = some t)
    (ht' : c'.state.row id = some t') : Later t t' := by
  cases row_change hs id with
  | kept _ hk =>
    rw [hk, ht] at ht'
    cases ht'
    exact later_refl t
  | called i ch o r he => exact effect_later he (ran_admitted h₀ h r) ht ht'
  | inserted t₀ hi hn hm hk => exact absurd (rows_spent h₀ h id t ht).1 hm

/-- A row that goes away was removed, at the end of its life. -/
theorem row_disappears (hs : (fleet D).step c x = some c') (ht : c.state.row id = some t)
    (ht' : c'.state.row id = none) :
    t.isTerminal = true ∧ ∃ k ∈ c'.log, k.entry = ⟨.store (.removeTerminal id), .ok .deleted⟩ := by
  cases row_change hs id with
  | kept _ hk =>
    rw [hk, ht] at ht'
    cases ht'
  | called i ch o r he =>
    obtain ⟨hend, hr⟩ := effect_disappears he ht ht'
    refine ⟨hend, ⟨i, r.party, .store o, r.resp⟩, ?_, hr⟩
    rw [r.log]
    exact List.mem_cons_self
  | inserted t₀ hi hn hm hk =>
    rw [hk] at ht'
    cases ht'

theorem removal_logged {c₁ c₂ : FleetConfig} (h : (fleet D).Reaches cond c₁ c₂)
    (ht : c₁.state.row id = some t) (hn : c₂.state.row id = none) :
    ∃ k ∈ c₂.log, k.entry = ⟨.store (.removeTerminal id), .ok .deleted⟩ := by
  have key : (∃ t, c₂.state.row id = some t) ∨
      ∃ k ∈ c₂.log, k.entry = ⟨.store (.removeTerminal id), .ok .deleted⟩ := by
    apply h.invariant (P := fun c => (∃ t, c.state.row id = some t) ∨
      ∃ k ∈ c.log, k.entry = ⟨.store (.removeTerminal id), .ok .deleted⟩) (.inl ⟨t, ht⟩)
    intro c x c' _ _ hs hp
    rcases hp with ⟨t, ht⟩ | ⟨k, hk, he⟩
    · cases ht' : c'.state.row id with
      | some t' => exact .inl ⟨t', rfl⟩
      | none => exact .inr (row_disappears hs ht ht').2
    · exact .inr ⟨k, (step_log hs).subset hk, he⟩
  rcases key with ⟨t', ht'⟩ | hk
  · rw [hn] at ht'
    cases ht'
  · exact hk

/-- What this task was at some moment: whatever its row is now, it is later than that. -/
def Seen (t : Task) (c : FleetConfig) : Prop :=
  Spent t.id c ∧ ∀ t', c.state.row t.id = some t' → Later t t'

theorem seen_now (h₀ : Seeded c₀) (h : (fleet D).Reaches cond c₀ c)
    (ht : c.state.row t.id = some t) : Seen t c := by
  refine ⟨rows_spent h₀ h t.id t ht, ?_⟩
  intro t' ht'
  rw [ht] at ht'
  cases ht'
  exact later_refl t

theorem seen_step (h₀ : Seeded c₀) (h : (fleet D).Reaches cond c₀ c)
    (hs : (fleet D).step c x = some c') (hseen : Seen t c) : Seen t c' := by
  refine ⟨spent_step hs hseen.1, ?_⟩
  intro t' ht'
  cases ht : c.state.row t.id with
  | none => exact absurd hseen.1 (row_appears h₀ h hs ht ht').2
  | some t₁ => exact (hseen.2 t₁ ht).trans (row_later h₀ h hs ht ht')

theorem seen_run {c₁ c₂ : FleetConfig} (h₀ : Seeded c₀) (h : (fleet D).Reaches cond c₀ c₁)
    (h' : (fleet D).Reaches cond c₁ c₂) (hseen : Seen t c₁) : Seen t c₂ := by
  apply h'.invariant (P := Seen t) hseen
  intro c x c' hr _ hs hp
  exact seen_step h₀ (h.trans hr) hs hp

end Steps

end FleetOrchestrator.Scheduler
