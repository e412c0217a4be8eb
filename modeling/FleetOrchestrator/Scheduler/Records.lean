import FleetOrchestrator.Interleaving.Log
import FleetOrchestrator.Scheduler.Rows

/-! What the log of a run says about the rows: every answer was true when given, and a task is
claimed and handed over once. -/

namespace FleetOrchestrator.Scheduler

open Core Tables Store Transport Interleaving Machine

def Applied (id : TaskId) (new : TaskStatus) (e : Entry Op Resp) : Prop :=
  ∃ expected fence origin,
    e = ⟨.store (.compareAndSetTaskStatus id expected new fence origin), .ok .applied⟩

theorem Claimed.applied {id : TaskId} {w : WorkerId} {e : Entry Op Resp} (h : Claimed id w e) :
    ∃ startedAt, Applied id (.dispatched w startedAt) e := by
  obtain ⟨expected, startedAt, fence, origin, rfl⟩ := h
  exact ⟨startedAt, expected, fence, origin, rfl⟩

/-- The rows an answer shows as they are. -/
def shown : Entry Op Resp → List Task
  | ⟨.store (.getTask _), .ok (some t)⟩ => [t]
  | ⟨.store (.listTasks _), .ok tasks⟩ => tasks
  | ⟨.store (.insertTaskIdempotent _), .ok (.duplicate t)⟩ => [t]
  | _ => []

section Answers

variable {D : Deployment} {c c' : FleetConfig} {i : ℕ} {ch : Choice} {op : Op}

theorem duplicate_row {b : Backend} {s : StoreState} {rank : TaskId → ℕ} {t existing : Task}
    (h : (b.insertTaskIdempotent s rank t).1 = .ok (.duplicate existing)) :
    s.tasks.get existing.id = some existing := by
  have judged {key : String} {found : Task}
      (hf : (inOrder rank Task.id s.tasks.rows).find? (sameKey t key) = some found)
      (hj : (Except.ok (judgeExisting t found) : Except StoreError IdempotentInsert) =
        .ok (.duplicate existing)) : s.tasks.get existing.id = some existing := by
    unfold judgeExisting at hj
    split at hj
    · cases hj
      exact Keyed.get_of_mem (mem_inOrder.mp (List.mem_of_find?_eq_some hf))
    · cases hj
  cases b with
  | mem =>
    simp only [Backend.insertTaskIdempotent, MemStore.insertTaskIdempotent] at h
    split at h
    · cases h
    · split at h
      · cases h
      · split at h
        · cases h
        · next hf => exact judged hf h
  | pg =>
    simp only [Backend.insertTaskIdempotent, PgStore.insertTaskIdempotent] at h
    split at h
    · split at h <;> cases h
    · split at h
      · next hf => exact judged hf h
      · split at h <;> cases h

theorem answer_shows {b : Backend} {fault : Option StoreError} {o : RowOrder} {s : StoreState}
    {op : StoreOp} {t : Task} (h : t ∈ shown ⟨.store op, (b.answer fault o s op).1⟩) :
    s.tasks.get t.id = some t := by
  cases fault with
  | some e => cases op <;> cases h
  | none =>
    cases op with
    | getTask id =>
      change t ∈ shown ⟨.store (.getTask id), .ok (s.tasks.get id)⟩ at h
      cases hg : s.tasks.get id with
      | none =>
        rw [hg] at h
        cases h
      | some t₀ =>
        rw [hg] at h
        cases List.mem_singleton.mp h
        rw [Keyed.get_key hg, hg]
    | listTasks filter => exact (mem_listTasks h).1
    | insertTaskIdempotent t₀ =>
      change t ∈ shown ⟨.store (.insertTaskIdempotent t₀),
        (b.insertTaskIdempotent s o.tasks t₀).1⟩ at h
      rcases hr : (b.insertTaskIdempotent s o.tasks t₀).1 with e | _ | existing | existing
      · rw [hr] at h
        cases h
      · rw [hr] at h
        cases h
      · rw [hr] at h
        cases List.mem_singleton.mp h
        exact duplicate_row hr
      · rw [hr] at h
        cases h
    | _ => cases h

theorem ran_shows (r : (fleet D).Ran c c' i ch op) {t : Task} (h : t ∈ shown ⟨op, r.resp⟩) :
    c.state.row t.id = some t := by
  cases op with
  | store o =>
    rw [(exec_store (ran_exec r)).1] at h
    exact answer_shows h
  | process o => cases h
  | acp o => cases h
  | readSkill file => cases h

/-- An applied write found the task in an expected phase and leaves it in the new status. -/
theorem ran_applied {id : TaskId} {expected : List TaskPhase} {new : TaskStatus}
    {fence : Option ControlFence} {origin : TransitionOrigin}
    (r : (fleet D).Ran c c' i ch (.store (.compareAndSetTaskStatus id expected new fence origin)))
    (hr : r.resp = .ok .applied) :
    c.state.store.controlFenceHolds fence = true ∧ ∃ t, c.state.row id = some t ∧
      t.phase ∈ expected ∧ c'.state.row id = some (transition new fence c.state.store.now t) := by
  obtain ⟨ha, hw⟩ := exec_store (ran_exec r)
  rw [hr] at ha
  obtain ⟨hf, t, ht, hp, hn⟩ := answer_applied ha.symm
  refine ⟨hf, t, ht, hp, ?_⟩
  rw [hw]
  exact hn

theorem ran_fetched {id : TaskId} {t : Task} (r : (fleet D).Ran c c' i ch (.store (.getTask id)))
    (hr : r.resp = .ok (some t)) : c.state.row id = some t := by
  have ha := (exec_store (ran_exec r)).1
  rw [hr] at ha
  cases hf : ch.fault with
  | some e =>
    rw [hf] at ha
    cases ha
  | none =>
    rw [hf] at ha
    exact (Except.ok.inj ha).symm

/-- A status only changes by an applied write. -/
theorem status_changed {x : FleetAction} {id : TaskId} {t t' : Task}
    (hs : (fleet D).step c x = some c') (hm : t.id ∈ c.state.minted)
    (ht : c.state.row id = some t) (ht' : c'.state.row id = some t')
    (hn : t'.status ≠ t.status) :
    ∃ i ch expected new fence origin, ∃ r : (fleet D).Ran c c' i ch
        (.store (.compareAndSetTaskStatus id expected new fence origin)),
      x = .run i ch ∧ r.resp = .ok .applied ∧ t.phase ∈ expected ∧ t'.status = new ∧
        t' = transition new fence c.state.store.now t := by
  cases row_change hs id with
  | kept _ hk =>
    rw [hk, ht] at ht'
    cases ht'
    exact absurd rfl hn
  | called i ch o r he =>
    obtain ⟨expected, fence, origin, hp, htr, hr⟩ := effect_moves he ht ht' hn
    obtain ⟨r', hr', -, -⟩ := ran_as r hr
    exact ⟨i, ch, expected, t'.status, fence, origin, r', rfl, hr', hp, rfl, htr⟩
  | inserted t₀ hi _ hm' hk =>
    have hid : t.id = id := Keyed.get_key ht
    exact absurd (hid ▸ hm) hm'

theorem ran_inserted {t : Task} (r : (fleet D).Ran c c' i ch (.store (.insertTaskIdempotent t)))
    (hr : r.resp = .ok .inserted) : c'.state.row t.id = some (D.backend.insertedRow t) := by
  obtain ⟨ha, hw⟩ := exec_store (ran_exec r)
  rw [hr] at ha
  rw [hw]
  cases hf : ch.fault with
  | some e =>
    rw [hf] at ha
    cases ha
  | none =>
    rw [hf] at ha
    change (Except.ok .inserted : Except StoreError IdempotentInsert) =
      (D.backend.insertTaskIdempotent c.state.store ch.order.tasks t).1 at ha
    rcases insert_cases D.backend c.state.store ch.order.tasks t with ⟨h, -⟩ | ⟨r', h, hne⟩
    · change (D.backend.insertTaskIdempotent c.state.store ch.order.tasks t).2.tasks.get t.id = _
      rw [h]
      dsimp only
      rw [get_withTask, insertedRow_id, if_pos rfl]
    · rw [h] at ha
      exact absurd ha.symm hne

end Answers

section Log

variable {D : Deployment} {cond : FleetConfig → FleetAction → Prop} {c₀ c c' : FleetConfig}
  {id : TaskId} {w : WorkerId} {t : Task}

/-- Every logged operation was a step of the run. -/
theorem logged_step (h₀ : Seeded c₀) (h : (fleet D).Reaches cond c₀ c) {k : Call Op Resp ℕ}
    (hk : k ∈ c.log) :
    ∃ c₁ c₂ ch, (fleet D).Reaches cond c₁ c₂ ∧ (fleet D).Reaches cond c₂ c ∧
      ∃ r : (fleet D).Ran c₁ c₂ k.thread ch k.op, (⟨k.op, r.resp⟩ : Entry Op Resp) = k.entry := by
  obtain ⟨l, hl⟩ := placed hk
  have hn : ¬ k :: l <:+ c₀.log := by
    rw [h₀.fresh.log, List.suffix_nil]
    exact List.cons_ne_nil k l
  obtain ⟨c₁, c₂, ch, h₁, hc, hs, -, ⟨r, -, hr⟩, h₂⟩ := h.step_of_log hl hn
  exact ⟨c₁, c₂, ch, .single hc hs, h₂, r, congrArg (Entry.mk k.op) hr⟩

theorem shown_seen (h₀ : Seeded c₀) (h : (fleet D).Reaches cond c₀ c) :
    ∀ k ∈ c.log, ∀ t ∈ shown k.entry, Seen t c := by
  apply h.logged (P := fun c k => ∀ t ∈ shown k.entry, Seen t c) h₀.fresh
  · intro c c' i ch op r hr _ hs t ht
    exact seen_step h₀ hr hs (seen_now h₀ hr (ran_shows r ht))
  · intro c x c' k hr _ hs _ hp t ht
    exact seen_step h₀ hr hs (hp t ht)

theorem applied_seen (h₀ : Seeded c₀) (h : (fleet D).Reaches cond c₀ c) :
    ∀ k ∈ c.log, ∀ id new, Applied id new k.entry →
      ∃ t, t.id = id ∧ t.status = new ∧ Seen t c := by
  apply h.logged (P := fun c k => ∀ id new, Applied id new k.entry →
    ∃ t, t.id = id ∧ t.status = new ∧ Seen t c) h₀.fresh
  · rintro c c' i ch op r hr hc hs id new ⟨expected, fence, origin, he⟩
    obtain ⟨r', hr', -, -⟩ := ran_as r he
    obtain ⟨-, t, ht, -, hn⟩ := ran_applied r' hr'
    have hid : (transition new fence c.state.store.now t).id = id := by
      rw [transition_id]
      exact Keyed.get_key ht
    refine ⟨_, hid, transition_status, ?_⟩
    exact seen_now h₀ (hr.tail _ hc hs) (hid.symm ▸ hn)
  · intro c x c' k hr _ hs _ hp id new ha
    obtain ⟨t, hi, hn, hseen⟩ := hp id new ha
    exact ⟨t, hi, hn, seen_step h₀ hr hs hseen⟩

theorem inserted_seen (h₀ : Seeded c₀) (h : (fleet D).Reaches cond c₀ c) :
    ∀ k ∈ c.log, ∀ t, k.entry = ⟨.store (.insertTaskIdempotent t), .ok .inserted⟩ →
      Seen (D.backend.insertedRow t) c := by
  apply h.logged (P := fun c k => ∀ t,
    k.entry = ⟨.store (.insertTaskIdempotent t), .ok .inserted⟩ →
      Seen (D.backend.insertedRow t) c) h₀.fresh
  · intro c c' i ch op r hr hc hs t he
    obtain ⟨r', hr', -, -⟩ := ran_as r he
    have hrow := ran_inserted r' hr'
    exact seen_now h₀ (hr.tail _ hc hs) (insertedRow_id (b := D.backend) (t := t) ▸ hrow)
  · intro c x c' k hr _ hs _ hp t he
    exact seen_step h₀ hr hs (hp t he)

/-- What was fetched was the row at an earlier moment of the run. -/
theorem fetched_before (h₀ : Seeded c₀) (h : (fleet D).Reaches cond c₀ c) {i : ℕ} {t : Task}
    (hf : Fetched id t (history c.log i)) :
    ∃ c₁, (fleet D).Reaches cond c₀ c₁ ∧ (fleet D).Reaches cond c₁ c ∧
      c₁.state.row id = some t := by
  obtain ⟨k, hk, -, he⟩ := mem_history.mp hf
  obtain ⟨l, hl⟩ := placed hk
  have hn : ¬ k :: l <:+ c₀.log := by
    rw [h₀.fresh.log, List.suffix_nil]
    exact List.cons_ne_nil k l
  obtain ⟨c₁, c₂, ch, h₁, hc, hs, -, ⟨r, -, hr⟩, h₂⟩ := h.step_of_log hl hn
  have he' : (⟨k.op, r.resp⟩ : Entry Op Resp) = ⟨.store (.getTask id), .ok (some t)⟩ := by
    rw [hr]
    exact he
  obtain ⟨r', hr', -, -⟩ := ran_as r he'
  have h₁₂ : (fleet D).Reaches cond c₁ c₂ := .single hc hs
  exact ⟨c₁, h₁, h₁₂.trans h₂, ran_fetched r' hr'⟩

/-- The write that takes the task out of Pending, whatever it becomes. -/
def LeftPending (id : TaskId) (k : Call Op Resp ℕ) : Prop :=
  ∃ new fence origin,
    k.entry = ⟨.store (.compareAndSetTaskStatus id [.pending] new fence origin), .ok .applied⟩

theorem not_pending_of_applied (h₀ : Seeded c₀) (h : (fleet D).Reaches cond c₀ c)
    {k : Call Op Resp ℕ} (hk : k ∈ c.log) {new : TaskStatus} (ha : Applied id new k.entry)
    (hn : new ≠ .pending) (ht : c.state.row id = some t) : t.phase ≠ .pending := by
  obtain ⟨t₀, rfl, hnew, hseen⟩ := applied_seen h₀ h k hk id new ha
  apply (hseen.2 t ht).started
  rw [Task.phase, hnew]
  exact fun hp => hn (TaskStatus.phase_pending.mp hp)

/-- No licensed write makes a task pending again. -/
theorem applied_new (h₀ : Seeded c₀) (h : (fleet D).Reaches cond c₀ c) {k : Call Op Resp ℕ}
    (hk : k ∈ c.log) {expected : List TaskPhase} {new : TaskStatus} {fence : Option ControlFence}
    {origin : TransitionOrigin}
    (ho : k.op = .store (.compareAndSetTaskStatus id expected new fence origin)) :
    new ≠ .pending := by
  obtain ⟨l, hl⟩ := placed hk
  obtain ⟨t, -, -, hlic⟩ := logged_licensed h₀ h hl
  rw [ho] at hlic
  obtain ⟨-, -, hg⟩ := hlic
  rintro rfl
  exact hg

theorem left_once (h₀ : Seeded c₀) (h : (fleet D).Reaches cond c₀ c) (id : TaskId) :
    Once (LeftPending id) c.log := by
  rintro k l hk ⟨new, fence, origin, he⟩ k' hk' ⟨new', fence', origin', he'⟩
  have hn : ¬ k :: l <:+ c₀.log := by
    rw [h₀.fresh.log, List.suffix_nil]
    exact List.cons_ne_nil k l
  obtain ⟨c₁, c₂, ch, h₁, -, hs, rfl, ⟨r, -, hr⟩, -⟩ := h.step_of_log hk hn
  have hent : (⟨k.op, r.resp⟩ : Entry Op Resp) = _ := (congrArg (Entry.mk k.op) hr).trans he
  obtain ⟨r', hr', -, -⟩ := ran_as r hent
  obtain ⟨-, t, ht, hp, -⟩ := ran_applied r' hr'
  have hnew := applied_new h₀ h₁ hk' (congrArg Entry.op he')
  exact not_pending_of_applied h₀ h₁ hk' ⟨_, fence', origin', he'⟩ hnew ht
    (List.mem_singleton.mp hp)

theorem Claimed.left (h₀ : Seeded c₀) (h : (fleet D).Reaches cond c₀ c) {k : Call Op Resp ℕ}
    (hk : k ∈ c.log) (hc : Claimed id w k.entry) : LeftPending id k := by
  obtain ⟨expected, startedAt, fence, origin, he⟩ := hc
  obtain ⟨l, hl⟩ := placed hk
  obtain ⟨t, -, -, hlic⟩ := logged_licensed h₀ h hl
  rw [show k.op = _ from congrArg Entry.op he] at hlic
  obtain ⟨-, -, rfl, -⟩ := hlic
  exact ⟨_, fence, origin, he⟩

theorem claimed_once (h₀ : Seeded c₀) (h : (fleet D).Reaches cond c₀ c) (id : TaskId) :
    Once (fun k => ∃ w, Claimed id w k.entry) c.log := by
  rintro k l hk ⟨w, hc⟩ k' hk' ⟨v, hv⟩
  have hkl : k ∈ c.log := hk.subset List.mem_cons_self
  have hkl' : k' ∈ c.log := hk.subset (List.mem_cons_of_mem _ hk')
  exact left_once h₀ h id k l hk (hc.left h₀ h hkl) k' hk' (hv.left h₀ h hkl')

/-- A task ends once. -/
theorem ended_once (h₀ : Seeded c₀) (h : (fleet D).Reaches cond c₀ c) (id : TaskId) :
    Once (fun k => ∃ new, Applied id new k.entry ∧ new.phase.isTerminal = true) c.log := by
  rintro k l hk ⟨new, ⟨expected, fence, origin, he⟩, hnew⟩ k' hk' ⟨old, ha, hold⟩
  have hn : ¬ k :: l <:+ c₀.log := by
    rw [h₀.fresh.log, List.suffix_nil]
    exact List.cons_ne_nil k l
  obtain ⟨c₁, c₂, ch, h₁, -, hs, rfl, ⟨r, -, hr⟩, -⟩ := h.step_of_log hk hn
  have hent : (⟨k.op, r.resp⟩ : Entry Op Resp) = _ := (congrArg (Entry.mk k.op) hr).trans he
  obtain ⟨r', hr', -, -⟩ := ran_as r hent
  obtain ⟨-, t, ht, hp, -⟩ := ran_applied r' hr'
  obtain ⟨-, hallowed, -⟩ := ran_licensed h₀ h₁ r'
  obtain ⟨t₀, rfl, hstatus, hseen⟩ := applied_seen h₀ h₁ k' hk' id old ha
  have hterminal : t₀.isTerminal = true := by
    rw [Task.isTerminal, Task.phase, hstatus]
    exact hold
  have hsame : t.phase = old.phase := by
    rw [Task.phase, (hseen.2 t ht).ended hterminal, hstatus]
  have hmove := hallowed t.phase hp
  rw [hsame, TaskPhase.terminal_iff_no_successor.mp hold] at hmove
  cases hmove

def Handed (id : TaskId) (k : Call Op Resp ℕ) : Prop :=
  ∃ req, k.op = .acp (.dispatchEntry req) ∧ req.taskId = id

def Spawned (id : TaskId) (k : Call Op Resp ℕ) : Prop :=
  ∃ link connection req cwd, k.op = .acp (.spawnPrompt link connection req cwd) ∧ req.taskId = id

/-- A task is handed to the transport at most once in a run. -/
theorem handed_once (h₀ : Seeded c₀) (h : (fleet D).Reaches cond c₀ c) (id : TaskId) :
    Once (Handed id) c.log := by
  apply Once.follows Minor (claimed_once h₀ h id)
  · rintro k ⟨req, hop, -⟩ hm
    rw [hop] at hm
    cases hm
  · rintro k l hk ⟨req, hop, hi⟩
    obtain ⟨t, -, -, hl⟩ := logged_licensed h₀ h hk
    rw [hop] at hl
    obtain ⟨⟨h₁, e, he, hg⟩, -⟩ := hl
    refine ⟨h₁, e, hg, ?_⟩
    rintro m rfl
    exact ⟨req.workerId, hi ▸ he⟩

/-- Whoever hands a task over has claimed it before, for the same worker. -/
theorem handed_claimed (h₀ : Seeded c₀) (h : (fleet D).Reaches cond c₀ c) {k : Call Op Resp ℕ}
    {l : FleetLog} (hk : k :: l <:+ c.log) {req : DispatchRequest}
    (ho : k.op = .acp (.dispatchEntry req)) :
    ∃ m ∈ l, m.thread = k.thread ∧ Claimed req.taskId req.workerId m.entry := by
  obtain ⟨t, -, -, hl⟩ := logged_licensed h₀ h hk
  rw [ho] at hl
  obtain ⟨⟨h₁, e, he, hg⟩, -⟩ := hl
  obtain ⟨m, hm, hmt, rfl⟩ := mem_history.mp (hg.mem List.mem_cons_self)
  exact ⟨m, hm, hmt, he⟩

/-- And at most one prompt follows. -/
theorem spawned_once (h₀ : Seeded c₀) (h : (fleet D).Reaches cond c₀ c) (id : TaskId) :
    Once (Spawned id) c.log := by
  apply Once.follows Minor (handed_once h₀ h id)
  · rintro k ⟨link, connection, req, cwd, hop, -⟩ hm
    rw [hop] at hm
    cases hm
  · rintro k l hk ⟨link, connection, req, cwd, hop, hi⟩
    obtain ⟨t, -, -, hl⟩ := logged_licensed h₀ h hk
    rw [hop] at hl
    obtain ⟨h₁, hg⟩ := hl
    refine ⟨h₁, _, hg, ?_⟩
    intro m hm
    exact ⟨req, congrArg Entry.op hm, hi⟩

end Log

end FleetOrchestrator.Scheduler
