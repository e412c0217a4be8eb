import FleetOrchestrator.Scheduler.Events

/-! The life of a task row through a whole run: what never changes again, and who is named in it. -/

namespace FleetOrchestrator.Scheduler

open Core Tables Store Transport Interleaving Machine

section Origins

variable {D : Deployment} {cond : FleetConfig → FleetAction → Prop} {c₀ c c' : FleetConfig}
  {x : FleetAction} {id : TaskId} {w v : WorkerId} {t t' : Task} {p : ℕ}

/-- Every prompt was left behind by a hand-over of its own process. -/
theorem prompt_spawned (h₀ : Start c₀) (h : (fleet D).Reaches cond c₀ c) {i : ℕ}
    {th : Thread Op Resp ℕ Activity Output} {link connection : ℕ} {req : DispatchRequest}
    {cwd : String} (ht : c.threads[i]? = some th) (ha : th.act = .prompt link connection req cwd) :
    ∃ k ∈ c.log, k.party = th.party ∧ k.op = .acp (.spawnPrompt link connection req cwd) := by
  have key : ∀ (i : ℕ) (th : Thread Op Resp ℕ Activity Output), c.threads[i]? = some th →
      th.act = .prompt link connection req cwd →
        ∃ k ∈ c.log, k.party = th.party ∧ k.op = .acp (.spawnPrompt link connection req cwd) := by
    apply h.invariant (P := fun c => ∀ (i : ℕ) (th : Thread Op Resp ℕ Activity Output),
      c.threads[i]? = some th → th.act = .prompt link connection req cwd →
        ∃ k ∈ c.log, k.party = th.party ∧ k.op = .acp (.spawnPrompt link connection req cwd))
    · intro i th ht
      rw [h₀.fresh.threads] at ht
      cases ht
    · intro c x c' _ _ hs ih i th ht ha
      rcases thread_origin hs ht with ⟨t₀, ht₀, hp₀, ha₀⟩ | ⟨-, ⟨q, a, rfl, rfl, -⟩ | hspawn⟩
      · obtain ⟨k, hk, hp, ho⟩ := ih i t₀ ht₀ (ha₀.trans ha)
        exact ⟨k, (step_log hs).subset hk, hp.trans hp₀, ho⟩
      · obtain rfl : a = .prompt link connection req cwd := ha
        cases (step_start hs).1
      · obtain ⟨j, ch, op, r, a, hm, -, rfl⟩ := hspawn
        obtain rfl : a = .prompt link connection req cwd := ha
        have hm' : Activity.prompt link connection req cwd ∈ spawned op r.resp := hm
        unfold spawned at hm'
        split at hm'
        · cases List.mem_singleton.mp hm'
          rw [r.log]
          exact ⟨_, List.mem_cons_self, rfl, rfl⟩
        · cases hm'
  exact key i th ht ha

theorem take_received {e : WorkerEvent} {t t' : TransportState} (h : takeEvent e t = some t') :
    t'.events = t.events ∧ ∃ u ∈ t.subscribers, e ∈ u.received := by
  unfold takeEvent at h
  cases hs : t.subscribers with
  | nil =>
    rw [hs] at h
    cases h
  | cons u us =>
    rw [hs] at h
    dsimp only at h
    split at h
    · next hget =>
      cases h
      exact ⟨rfl, u, List.mem_cons_self, List.mem_of_getElem? hget⟩
    · cases h

theorem events_grow (hs : (fleet D).step c x = some c') (p : ℕ) :
    (c.state.transport p).events ⊆ (c'.state.transport p).events := by
  obtain ⟨new, hn, -⟩ := step_streams hs p
  cases hn with
  | told _ he _ =>
    rw [he]
    exact List.subset_append_left _ _
  | followed he _ =>
    rw [he]
    exact List.Subset.refl _

/-- An event that is handled was told by the transport of the process that handles it. -/
theorem handled_told (h₀ : Start c₀) (h : (fleet D).Reaches cond c₀ c) {i : ℕ}
    {th : Thread Op Resp ℕ Activity Output} {e : WorkerEvent} (ht : c.threads[i]? = some th)
    (ha : th.act = .workerEvent e) : e ∈ (c.state.transport th.party).events := by
  have key : ∀ (i : ℕ) (th : Thread Op Resp ℕ Activity Output), c.threads[i]? = some th →
      th.act = .workerEvent e → e ∈ (c.state.transport th.party).events := by
    apply h.invariant (P := fun c => ∀ (i : ℕ) (th : Thread Op Resp ℕ Activity Output),
      c.threads[i]? = some th → th.act = .workerEvent e →
        e ∈ (c.state.transport th.party).events)
    · intro i th ht
      rw [h₀.fresh.threads] at ht
      cases ht
    · intro c x c' hr _ hs ih i th ht ha
      rcases thread_origin hs ht with ⟨t₀, ht₀, hp₀, ha₀⟩ | ⟨-, ⟨q, a, rfl, rfl, -⟩ | hspawn⟩
      · rw [← hp₀]
        exact events_grow hs _ (ih i t₀ ht₀ (ha₀.trans ha))
      · obtain rfl : a = .workerEvent e := ha
        obtain ⟨t, htake, -⟩ := Option.map_eq_some_iff.mp (step_start hs).1
        obtain ⟨-, u, hu, he⟩ := take_received htake
        exact events_grow hs q (((streamed h₀ hr q).followed u hu).received he)
      · obtain ⟨j, ch, op, r, a, hm, -, rfl⟩ := hspawn
        obtain rfl : a = .workerEvent e := ha
        have hm' : Activity.workerEvent e ∈ spawned op r.resp := hm
        unfold spawned at hm'
        split at hm'
        · cases List.mem_singleton.mp hm'
        · cases hm'
  exact key i th ht ha

/-- A task handed to a prompt was claimed for the prompt's worker. -/
theorem prompt_claimed (h₀ : Start c₀) (h : (fleet D).Reaches cond c₀ c) {k : Call Op Resp ℕ}
    (hk : k ∈ c.log) {link connection : ℕ} {req : DispatchRequest} {cwd : String}
    (ho : k.op = .acp (.spawnPrompt link connection req cwd)) :
    ∃ m ∈ c.log, Claimed req.taskId req.workerId m.entry := by
  obtain ⟨l, hl⟩ := placed hk
  obtain ⟨t, -, -, hlic⟩ := logged_licensed h₀.seeded h hl
  rw [ho] at hlic
  obtain ⟨h₁, hg⟩ := hlic
  have hbehind : ⟨.acp (.dispatchEntry req), .ok (link, cwd)⟩ :: h₁ <:+ history c.log k.thread :=
    hg.suffix.trans (history_suffix ((List.suffix_cons _ _).trans hl) _)
  obtain ⟨k₁, l₁, hl₁, -, he, -⟩ := of_history_at hbehind
  obtain ⟨m, hm, -, hc⟩ := handed_claimed h₀.seeded h hl₁ (congrArg Entry.op he)
  exact ⟨m, hl₁.subset (List.mem_cons_of_mem _ hm), hc⟩

/-- A completion that is handled names the worker the task was claimed for. -/
theorem completed_claimed (h₀ : Start c₀) (h : (fleet D).Reaches cond c₀ c) {i : ℕ}
    {th : Thread Op Resp ℕ Activity Output} {result : TaskResult} (ht : c.threads[i]? = some th)
    (ha : th.act = .workerEvent (.completed id result)) :
    ∃ m ∈ c.log, Claimed id result.workerId m.entry := by
  obtain ⟨k, hk, -, htold⟩ := end_told h₀ h (handled_told h₀ h ht ha) rfl
  obtain ⟨l, hl⟩ := placed hk
  obtain ⟨t, htk, -, hlic⟩ := logged_licensed h₀.seeded h hl
  obtain ⟨thread, party, op, resp⟩ := k
  simp only [Call.entry] at htold
  unfold told at htold
  split at htold
  · next e r he =>
    cases List.mem_singleton.mp htold
    obtain rfl : op = _ := congrArg Entry.op he
    obtain ⟨link, connection, req, cwd, hact, rfl, hw, -⟩ := hlic
    obtain ⟨k', hk', -, ho⟩ := prompt_spawned h₀ h htk hact
    rw [hw]
    exact prompt_claimed h₀ h hk' ho
  · obtain ⟨d, -, hd⟩ := List.mem_map.mp htold
    cases hd
  · cases htold

end Origins

section Naming

variable {D : Deployment} {cond : FleetConfig → FleetAction → Prop} {c₀ c c' : FleetConfig}
  {x : FleetAction} {id : TaskId} {w v : WorkerId} {t t' : Task}

/-- Two sightings of a task as dispatched name the same worker. -/
theorem seen_same {task : Task} {startedAt startedAt' : ℤ} (hseen : Seen task c)
    (hs : task.status = .dispatched v startedAt) (ht : c.state.row task.id = some t)
    (hd : t.status = .dispatched w startedAt') : v = w := by
  rcases (hseen.2 t ht).assigned v startedAt hs with h | h
  · rw [hd] at h
    cases h
    rfl
  · rw [Task.isTerminal, Task.phase, hd] at h
    cases h

theorem claimed_worker (h₀ : Start c₀) (h : (fleet D).Reaches cond c₀ c) {m : Call Op Resp ℕ}
    (hm : m ∈ c.log) (hc : Claimed id v m.entry) {startedAt : ℤ} (ht : c.state.row id = some t)
    (hd : t.status = .dispatched w startedAt) : v = w := by
  obtain ⟨startedAt', ha⟩ := hc.applied
  obtain ⟨task, rfl, hs, hseen⟩ := applied_seen h₀.seeded h m hm id _ ha
  exact seen_same hseen hs ht hd

theorem listed_matches (h₀ : Start c₀) (h : (fleet D).Reaches cond c₀ c) {k : Call Op Resp ℕ}
    (hk : k ∈ c.log) {filter : TaskFilter} {tasks : List Task}
    (he : k.entry = ⟨.store (.listTasks filter), .ok tasks⟩) {task : Task} (ht : task ∈ tasks) :
    workerMatches filter task = true ∧ statusMatches filter task = true := by
  obtain ⟨c₁, c₂, ch, -, -, r, hr⟩ := logged_step h₀.seeded h hk
  obtain ⟨r', hr', -, -⟩ := ran_as r (hr.trans he)
  have ha := (exec_store (ran_exec r')).1
  rw [hr'] at ha
  cases hf : ch.fault with
  | some e =>
    rw [hf] at ha
    cases ha
  | none =>
    rw [hf] at ha
    have hlist : tasks = D.backend.listTasks c₁.state.store ch.order.tasks filter :=
      Except.ok.inj ha
    rw [hlist] at ht
    exact (mem_listTasks ht).2

theorem dispatched_to {filter : TaskFilter} (hf : ListsWorker v filter)
    (hw : workerMatches filter t = true) (hs : statusMatches filter t = true) :
    ∃ startedAt, t.status = .dispatched v startedAt := by
  obtain ⟨hstatus, hworker⟩ := hf
  simp only [statusMatches, hstatus, TaskStatusFilter.admits, decide_eq_true_eq] at hs
  simp only [workerMatches, hworker] at hw
  cases ht : t.status with
  | dispatched u startedAt =>
    rw [ht] at hw
    simp only [TaskStatus.workerId?, decide_eq_true_eq, Option.some.injEq] at hw
    exact ⟨startedAt, by rw [hw]⟩
  | pending | completed | failed | cancelled =>
    rw [Task.phase, ht] at hs
    cases hs

/-- What an activity saw a task on is the worker the task is on. -/
theorem seenOn_worker (h₀ : Start c₀) (h : (fleet D).Reaches cond c₀ c) {i : ℕ} {startedAt : ℤ}
    (hseen : SeenOn id v (history c.log i)) (ht : c.state.row id = some t)
    (hd : t.status = .dispatched w startedAt) : v = w := by
  rcases hseen with ⟨task, startedAt', hf, hs⟩ | ⟨task, startedAt', ⟨filter, tasks, hl, hm⟩, rfl, hs⟩ |
    ⟨filter, tasks, task, hl, hf, hm, rfl⟩ | ⟨e, he, hc⟩
  · obtain ⟨c₁, -, -, hrow⟩ := fetched_before h₀.seeded h hf
    obtain rfl : task.id = id := Keyed.get_key hrow
    obtain ⟨k, hk, -, he⟩ := mem_history.mp hf
    have hshown : Seen task c := by
      apply shown_seen h₀.seeded h k hk
      rw [he]
      exact List.mem_singleton_self _
    exact seen_same hshown hs ht hd
  · obtain ⟨k, hk, -, he⟩ := mem_history.mp hl
    have hshown : Seen task c := by
      apply shown_seen h₀.seeded h k hk
      rw [he]
      exact hm
    exact seen_same hshown hs ht hd
  · obtain ⟨k, hk, -, he⟩ := mem_history.mp hl
    have hshown : Seen task c := by
      apply shown_seen h₀.seeded h k hk
      rw [he]
      exact hm
    obtain ⟨hw, hst⟩ := listed_matches h₀ h hk he hm
    obtain ⟨startedAt', hs⟩ := dispatched_to hf hw hst
    exact seen_same hshown hs ht hd
  · obtain ⟨k, hk, -, rfl⟩ := mem_history.mp he
    exact claimed_worker h₀ h hk hc ht hd

/-- Whatever a dispatched task becomes names no other worker. -/
theorem names_same (h₀ : Start c₀) (h : (fleet D).Reaches cond c₀ c)
    (hs : (fleet D).step c x = some c') {startedAt : ℤ} (ht : c.state.row id = some t)
    (hd : t.status = .dispatched w startedAt) (ht' : c'.state.row id = some t')
    (hv : t'.status.workerId? = some v) : v = w := by
  by_cases hn : t'.status = t.status
  · rw [hn, hd] at hv
    exact (Option.some.inj hv).symm
  · have hid : t.id = id := Keyed.get_key ht
    have hm : t.id ∈ c.state.minted := hid ▸ (rows_spent h₀.seeded h id t ht).1
    obtain ⟨i, ch, expected, new, fence, origin, r, -, -, hp, rfl, -⟩ :=
      status_changed hs hm ht ht' hn
    obtain ⟨th, hth, hg⟩ : ∃ th, c.threads[i]? = some th ∧
        Grounds th.act (history c.log i) id expected t'.status :=
      ⟨_, r.was, (ran_licensed h₀.seeded h r).2.2⟩
    clear r
    have hphase : t.phase = .dispatched := by
      rw [Task.phase, hd]
      rfl
    cases hnew : t'.status with
    | pending =>
      rw [hnew] at hv
      cases hv
    | dispatched u startedAt' =>
      rw [hnew] at hg
      obtain ⟨rfl, -, -⟩ := hg
      rw [hphase] at hp
      cases List.mem_singleton.mp hp
    | completed result =>
      rw [hnew] at hg hv
      obtain ⟨-, ha⟩ := hg
      obtain rfl := Option.some.inj hv
      obtain ⟨m, hm, hc⟩ := completed_claimed h₀ h hth ha
      exact claimed_worker h₀ h hm hc ht hd
    | failed failure =>
      rw [hnew] at hg hv
      rcases hg with ⟨rfl, -⟩ | ⟨-, hw, -⟩
      · rw [hphase] at hp
        cases List.mem_singleton.mp hp
      · exact seenOn_worker h₀ h (hw v hv) ht hd
    | cancelled reason cancelledAt =>
      rw [hnew] at hv
      cases hv

theorem named_run {c₁ c₂ : FleetConfig} (h₀ : Start c₀) (h₁ : (fleet D).Reaches cond c₀ c₁)
    (h₂ : (fleet D).Reaches cond c₁ c₂) {startedAt : ℤ} (ht : c₁.state.row id = some t)
    (hd : t.status = .dispatched w startedAt) (ht' : c₂.state.row id = some t')
    (hv : t'.status.workerId? = some v) : v = w := by
  have hid : t.id = id := Keyed.get_key ht
  have key : ∀ t', c₂.state.row id = some t' → ∀ v, t'.status.workerId? = some v → v = w := by
    apply h₂.invariant (P := fun c => ∀ t', c.state.row id = some t' →
      ∀ v, t'.status.workerId? = some v → v = w)
    · intro t' ht' v hv
      rw [ht] at ht'
      cases ht'
      rw [hd] at hv
      exact (Option.some.inj hv).symm
    · intro c x c' hr _ hs ih t' ht' v hv
      have hc := h₁.trans hr
      have hseen : Seen t c := seen_run h₀.seeded h₁ hr (seen_now h₀.seeded h₁ (hid.symm ▸ ht))
      cases hrow : c.state.row id with
      | none => exact absurd (hid ▸ hseen.1) (row_appears h₀.seeded hc hs hrow ht').2
      | some u =>
        rcases (hseen.2 u (hid.symm ▸ hrow)).assigned w startedAt hd with hu | hu
        · exact names_same h₀ hc hs hrow hu ht' hv
        · rw [(row_later h₀.seeded hc hs hrow ht').ended hu] at hv
          exact ih u hrow v hv
  exact key t' ht' v hv

end Naming

/-- What a later row of a task has in common with an earlier one. -/
structure Kept (t t' : Task) : Prop where
  ended : t.isTerminal = true → t'.status = t.status
  dispatched : t.phase = .dispatched → t'.phase = .dispatched → t'.status = t.status
  worker : ∀ w startedAt, t.status = .dispatched w startedAt →
    ∀ v, t'.status.workerId? = some v → v = w
  dispatchedAt : t.phase ≠ .pending → t'.dispatchedAt = t.dispatchedAt
  dispatchEpoch : t.phase ≠ .pending → t'.dispatchControlEpoch = t.dispatchControlEpoch
  session : ∀ s, t.acpSessionId = some s → t'.acpSessionId = some s
  skills : ∀ s, t.skillSnapshot = some s → t'.skillSnapshot = some s

section Life

variable {D : Deployment} {c₀ c₁ c₂ : FleetConfig} {id : TaskId} {t t' : Task}

theorem rows_kept (h₀ : Start c₀) (h₁ : (fleet D).Reaches always c₀ c₁)
    (h₂ : (fleet D).Reaches always c₁ c₂) (ht : c₁.state.row id = some t)
    (ht' : c₂.state.row id = some t') : Kept t t' := by
  have hid : t.id = id := Keyed.get_key ht
  have hseen : Seen t c₂ := seen_run h₀.seeded h₁ h₂ (seen_now h₀.seeded h₁ (hid.symm ▸ ht))
  have hlater : Later t t' := hseen.2 t' (hid.symm ▸ ht')
  constructor
  · exact hlater.ended
  · intro hd hd'
    cases hs : t.status with
    | dispatched w startedAt =>
      rcases hlater.assigned w startedAt hs with h | h
      · exact h
      · rw [Task.isTerminal, hd'] at h
        cases h
    | pending | completed | failed | cancelled =>
      rw [Task.phase, hs] at hd
      cases hd
  · intro w startedAt hs v hv
    exact named_run h₀ h₁ h₂ ht hs ht' hv
  · exact hlater.dispatchedAt
  · exact hlater.dispatchEpoch
  · exact hlater.session
  · exact hlater.skills

theorem applied_allowed (h₀ : Start c₀) (h₁ : (fleet D).Reaches always c₀ c₁) {i : ℕ} {ch : Choice}
    {expected : List TaskPhase} {new : TaskStatus} {fence : Option ControlFence}
    {origin : TransitionOrigin} (r : (fleet D).Ran c₁ c₂ i ch
      (.store (.compareAndSetTaskStatus id expected new fence origin)))
    (hr : r.resp = .ok .applied) :
    ∃ t, c₁.state.row id = some t ∧ t.phase.transitionAllowed new.phase = true := by
  obtain ⟨-, t, ht, hp, -⟩ := ran_applied r hr
  obtain ⟨-, hallowed, -⟩ := ran_licensed h₀.seeded h₁ r
  exact ⟨t, ht, hallowed _ hp⟩

/-- The life of a task: what an earlier row settled stays so in every later one, the task is claimed
at most once, and every applied transition is one of the table. -/
theorem lifecycle_kept (h₀ : Start c₀) (h₁ : (fleet D).Reaches always c₀ c₁)
    (h₂ : (fleet D).Reaches always c₁ c₂) (id : TaskId) :
    (∀ t t', c₁.state.row id = some t → c₂.state.row id = some t' → Kept t t') ∧
    Once (fun k => ∃ w startedAt, Applied id (.dispatched w startedAt) k.entry) c₂.log ∧
    ∀ c₃ i ch expected new fence origin, ∀ r : (fleet D).Ran c₂ c₃ i ch
        (.store (.compareAndSetTaskStatus id expected new fence origin)),
      r.resp = .ok .applied →
        ∃ t, c₂.state.row id = some t ∧ t.phase.transitionAllowed new.phase = true := by
  refine ⟨?_, ?_, ?_⟩
  · intro t t' ht ht'
    exact rows_kept h₀ h₁ h₂ ht ht'
  · have claimed {k : Call Op Resp ℕ} (ha : ∃ w startedAt,
        Applied id (.dispatched w startedAt) k.entry) : ∃ w, Claimed id w k.entry := by
      obtain ⟨w, startedAt, expected, fence, origin, he⟩ := ha
      exact ⟨w, expected, startedAt, fence, origin, he⟩
    intro k l hk ha k' hk' ha'
    exact claimed_once h₀.seeded (h₁.trans h₂) id k l hk (claimed ha) k' hk' (claimed ha')
  · intro c₃ i ch expected new fence origin r hr
    exact applied_allowed h₀ (h₁.trans h₂) r hr

set_option maxRecDepth 10000 in
theorem completed_task_kept : ∃ t t',
    ((fleet solo).after initial soloHandOver).state.row ⟨1⟩ = some t ∧
      ((fleet solo).after initial soloCompletion).state.row ⟨1⟩ = some t' ∧
      t.phase = .dispatched ∧ t'.phase = .completed ∧ Kept t t' := by
  have h₁ : (fleet solo).Reaches always initial ((fleet solo).after initial soloHandOver) :=
    after_reaches _
  have h₂ : (fleet solo).Reaches always ((fleet solo).after initial soloHandOver)
      ((fleet solo).after initial soloCompletion) := by
    have hrest : (fleet solo).replay ((fleet solo).after initial soloHandOver)
        (soloCompletion.drop soloHandOver.length) =
          some ((fleet solo).after initial soloCompletion) := rfl
    exact replay_reaches hrest
  refine ⟨_, _, rfl, rfl, rfl, rfl, ?_⟩
  exact (lifecycle_kept initial_start h₁ h₂ ⟨1⟩).1 _ _ rfl rfl

/-- The task is cancelled after it was handed over. -/
def soloCancelled : List FleetAction :=
  soloHandOver ++ [.start 0 (.cancel ⟨1⟩ "no longer needed")] ++ steps 2 9 {}

set_option maxRecDepth 10000 in
/-- A cancelled task no longer says which worker it was dispatched to. -/
theorem cancelled_task_names_nobody : ∃ c₁ c₂ t t' w startedAt,
    (fleet solo).Reaches always initial c₁ ∧ (fleet solo).Reaches always c₁ c₂ ∧
      c₁.state.row ⟨1⟩ = some t ∧ c₂.state.row ⟨1⟩ = some t' ∧
      t.status = .dispatched w startedAt ∧ t'.status.workerId? = none := by
  refine ⟨(fleet solo).after initial soloHandOver, (fleet solo).after initial soloCancelled, _, _,
    ⟨0⟩, 0, after_reaches _, ?_, rfl, rfl, rfl, rfl⟩
  have hrest : (fleet solo).replay ((fleet solo).after initial soloHandOver)
      (soloCancelled.drop soloHandOver.length) =
        some ((fleet solo).after initial soloCancelled) := rfl
  exact replay_reaches hrest

end Life

end FleetOrchestrator.Scheduler
