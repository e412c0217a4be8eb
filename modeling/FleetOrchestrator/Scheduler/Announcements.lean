import FleetOrchestrator.Scheduler.Lifecycle
import FleetOrchestrator.Scheduler.Pieces

/-! The fleet's events tell each decision on a task once, and only after it was stored. -/

namespace FleetOrchestrator.Scheduler

open Core Tables Store Transport Interleaving Machine

/-- The event tells that the task was moved to the status. -/
def Announces (e : FleetEvent) (id : TaskId) (new : TaskStatus) : Prop :=
  match e, new with
  | .taskDispatched i w _, .dispatched v _ => i = id ∧ w = v
  | .taskCompleted i w result _, .completed r => i = id ∧ w = r.workerId ∧ result = r
  | .taskFailed i failure _, .failed f => i = id ∧ failure = f
  | .taskCancelled i reason _, .cancelled r _ => i = id ∧ reason = r
  | _, _ => False

/-- A decision is told right after the write that stored it. -/
def StoredBefore (e : FleetEvent) (h : History) : Prop :=
  ∃ now id new k h₀, h = ⟨.process .utcNow, now⟩ :: k :: h₀ ∧ Applied id new k ∧ Announces e id new

def ToldOnceStored (h : History) : Op → Prop
  | .store (.appendEvent e) => e.isDecision = true → StoredBefore e h
  | _ => True

section Parts

open Dispatcher

theorem toldStored_plain (h : History) (op : Op) (ho : Plain op) : ToldOnceStored h op := by
  cases op with
  | store o =>
    cases o with
    | appendEvent e =>
      intro he
      exact absurd (he.symm.trans ho) Bool.noConfusion
    | _ => trivial
  | process o => trivial
  | acp o => trivial
  | readSkill file => trivial

theorem toldStored_lenient : Lenient (Abides ToldOnceStored) where
  toComposes := composes_abides toldStored_plain
  check _ := abides_perform fun _ => trivial
  record _ _ := abides_perform fun _ => trivial

theorem appendEvent_told {e : ℤ → FleetEvent} {id : TaskId} {new : TaskStatus}
    {k : Entry Op Resp} {h : History} (hk : Applied id new k)
    (he : ∀ now, Announces (e now) id new) :
    Obeys ToldOnceStored (fun _ _ => True) (appendEvent e) (k :: h) := by
  refine obeys_step trivial fun now => ?_
  refine obeys_step (fun _ => ⟨now, id, new, k, h, rfl, hk, he now⟩) fun r => ?_
  exact obeys_ret trivial

theorem markFailed_told (id : TaskId) (expected : List TaskPhase) (failure : TaskFailure)
    (origin : TransitionOrigin) : Abides ToldOnceStored (markFailed id expected failure origin) := by
  intro h
  refine obeys_step trivial fun fence => ?_
  refine obeys_step trivial fun outcome => ?_
  rcases outcome with e | _ | _ | _ | _
  · exact obeys_ret trivial
  · refine obeys_bind (appendEvent_told ⟨expected, fence, origin, rfl⟩ fun _ => by exact ⟨rfl, rfl⟩) ?_
    intro told h' _
    exact obeys_ret trivial
  all_goals exact obeys_ret trivial

theorem markCompleted_told (id : TaskId) (result : TaskResult) :
    Abides ToldOnceStored (markCompleted id result) := by
  intro h
  refine obeys_step trivial fun fence => ?_
  refine obeys_step trivial fun outcome => ?_
  rcases outcome with e | _ | _ | _ | _
  · exact obeys_ret trivial
  · exact appendEvent_told ⟨[.dispatched], fence, .workerOutcome, rfl⟩ fun _ => by exact ⟨rfl, rfl, rfl⟩
  all_goals exact obeys_ret trivial

theorem writeCancelled_told (id : TaskId) (reason : String) :
    Abides ToldOnceStored (writeCancelled id reason) := by
  intro h
  refine obeys_step trivial fun cancelledAt => ?_
  refine obeys_step trivial fun fence => ?_
  refine obeys_step trivial fun outcome => ?_
  rcases outcome with e | _ | _ | _ | _
  · exact obeys_ret trivial
  · refine obeys_bind (appendEvent_told ⟨[.pending, .dispatched], fence, .controlDecision, rfl⟩
      fun _ => by exact ⟨rfl, rfl⟩) ?_
    intro told h' _
    exact obeys_step trivial fun _ => obeys_ret trivial
  all_goals exact obeys_ret trivial

/-- What a successful claim leaves at the head of the history. -/
theorem claim_told (cfg : ProcessConfig) (task : Task) (w : WorkerId) (h : History) :
    Obeys ToldOnceStored (fun r h' => r = .ok () →
      ∃ startedAt k h₀, h' = k :: h₀ ∧ Applied task.id (.dispatched w startedAt) k)
      (claim cfg task w) h := by
  refine obeys_step trivial fun startedAt => ?_
  refine obeys_step trivial fun fence => ?_
  refine obeys_step trivial fun outcome => ?_
  rcases outcome with e | _ | _ | _ | _
  · exact obeys_ret fun he => nomatch he
  · exact obeys_ret fun _ => ⟨startedAt, _, _, rfl, [.pending], fence, .controlDecision, rfl⟩
  · exact obeys_ret fun he => nomatch he
  · refine obeys_bind (toldStored_lenient.uses
      (plain_of_mere (auditControl_mere _ _ _ _)) _) ?_
    intro audited h' _
    exact obeys_ret fun he => nomatch he
  · exact obeys_ret fun he => nomatch he

theorem handOver_told (task : Task) (w : WorkerId) (harness : SkillLoader.SkillInjection)
    {startedAt : ℤ} {k : Entry Op Resp} {h : History}
    (hk : Applied task.id (.dispatched w startedAt) k) :
    Obeys ToldOnceStored (fun _ _ => True) (handOver task w harness) (k :: h) := by
  refine obeys_bind (appendEvent_told hk fun _ => by exact ⟨rfl, rfl⟩) ?_
  intro told h₁ _
  refine obeys_step trivial fun fence => ?_
  refine obeys_step trivial fun recorded => ?_
  refine obeys_step trivial fun counted => ?_
  refine obeys_bind (acpDispatch_composed toldStored_lenient.toComposes
    (fun _ => abides_perform fun _ => trivial) (fun _ _ _ _ => abides_perform fun _ => trivial)
    (fun _ => abides_perform fun _ => trivial) (fun _ => abides_perform fun _ => trivial) _ _) ?_
  intro sent h₂ _
  cases sent with
  | ok u => exact obeys_ret trivial
  | error e =>
    refine obeys_bind (blameWorker_composed toldStored_lenient w e _) ?_
    intro blamed h₃ _
    refine obeys_bind (markFailed_told _ _ _ _ _) ?_
    intro marked h₄ _
    exact obeys_step trivial fun _ => obeys_ret trivial

theorem claimed_told (cfg : ProcessConfig) (task : Task) (w : WorkerId)
    (harness : SkillLoader.SkillInjection) :
    Abides ToldOnceStored ((claim cfg task w).andThen fun _ => handOver task w harness) := by
  intro h
  refine obeys_andThen (claim_told cfg task w h) (fun _ _ _ => trivial) ?_
  intro u h' hq
  obtain ⟨startedAt, k, h₀, rfl, hk⟩ := hq rfl
  exact handOver_told task w harness hk

theorem program_told (D : Deployment) (p : ℕ) (a : Activity) : Abides ToldOnceStored (program D p a) :=
  program_composed (wholes_of_decisions toldStored_lenient
    (fun _ _ => abides_perform fun _ => trivial) (fun _ => abides_perform fun _ => trivial)
    (abides_perform fun _ => trivial) (fun _ _ _ => abides_perform fun _ => trivial)
    (fun _ => abides_perform fun _ => trivial) (fun _ => abides_perform fun _ => trivial)
    markFailed_told markCompleted_told writeCancelled_told claimed_told) p a

end Parts

section Events

variable {e : FleetEvent} {id : TaskId} {new : TaskStatus}

theorem Announces.ended (h : Announces e id new) {i : TaskId} (hi : e.endOf = some i) :
    i = id ∧ new.phase.isTerminal = true := by
  cases e with
  | taskCompleted j w result at_ | taskFailed j failure at_ | taskCancelled j reason at_ =>
    cases hi
    cases new <;> first | exact ⟨h.1, rfl⟩ | exact h.elim
  | _ => cases hi

theorem Announces.handed (h : Announces e id new) {i : TaskId} (hi : e.dispatchOf = some i) :
    i = id ∧ ∃ w startedAt, new = .dispatched w startedAt := by
  cases e with
  | taskDispatched j w at_ =>
    cases hi
    cases new <;> first | exact ⟨h.1, _, _, rfl⟩ | exact h.elim
  | _ => cases hi

theorem decision_of_end {i : TaskId} (h : e.endOf = some i) : e.isDecision = true := by
  simp [FleetEvent.isDecision, h]

theorem decision_of_dispatch {i : TaskId} (h : e.dispatchOf = some i) : e.isDecision = true := by
  simp [FleetEvent.isDecision, h]

end Events

/-- The events an operation leaves in the store. -/
def appended : Entry Op Resp → List FleetEvent
  | ⟨.store (.appendEvent e), .ok _⟩ => [e]
  | _ => []

/-- All events a run has appended, oldest first. -/
def announced : FleetLog → List FleetEvent
  | [] => []
  | k :: log => announced log ++ appended k.entry

section Appending

variable {D : Deployment} {c c' : FleetConfig} {x : FleetAction}

theorem appended_op {k : Entry Op Resp} {e : FleetEvent} (h : e ∈ appended k) :
    k.op = .store (.appendEvent e) := by
  unfold appended at h
  split at h
  · cases List.mem_singleton.mp h
    rfl
  · cases h

theorem mem_announced {log : FleetLog} {e : FleetEvent} (h : e ∈ announced log) :
    ∃ k l, k :: l <:+ log ∧ e ∈ appended k.entry := by
  induction log with
  | nil => cases h
  | cons k log ih =>
    rcases List.mem_append.mp h with h | h
    · obtain ⟨k', l, hl, he⟩ := ih h
      exact ⟨k', l, hl.trans (List.suffix_cons k log), he⟩
    · exact ⟨k, log, List.suffix_rfl, h⟩

theorem answer_events {b : Backend} {fault : Option StoreError} {o : RowOrder} {s : StoreState}
    (op : StoreOp) : (b.answer fault o s op).2.events =
      s.events ++ appended ⟨.store op, (b.answer fault o s op).1⟩ := by
  cases fault with
  | some e => cases op <;> exact (List.append_nil _).symm
  | none =>
    by_cases ha : ∃ e, op = .appendEvent e
    · obtain ⟨e, rfl⟩ := ha
      rfl
    · have hn : ∀ e, op ≠ .appendEvent e := fun e he => ha ⟨e, he⟩
      have hnone : appended ⟨.store op, (b.answer none o s op).1⟩ = [] := by
        cases op <;> first | rfl | exact absurd rfl (hn _)
      rw [hnone, List.append_nil]
      exact perform_events op hn

theorem disturb_events {d : Disturbance} {w w' : World} (h : disturb d w = some w') :
    w'.store.events = w.store.events := by
  cases d with
  | insertPending t =>
    obtain ⟨w₁, hm, rfl⟩ := Option.map_eq_some_iff.mp h
    obtain ⟨-, -, rfl⟩ := mint_eq hm
    rfl
  | elapse | setWorkers | setAgents | setCredentials | setTemplates | resetBreaker | notify
  | subscribe | loseSession | resumeSession =>
    cases h
    rfl
  | register | connecting | established | consume | pump | openSession =>
    obtain ⟨_, -, rfl⟩ := Option.map_eq_some_iff.mp h
    rfl

theorem exec_events {ch : Choice} {p : ℕ} {op : Op} {w w' : World} {r : Resp op}
    (h : exec D ch p op w = some (r, w')) :
    w'.store.events = w.store.events ++ appended ⟨op, r⟩ := by
  cases op with
  | store o =>
    obtain ⟨rfl, rfl⟩ := exec_store h
    exact answer_events o
  | process o =>
    obtain ⟨-, rfl⟩ := exec_process h
    exact (List.append_nil _).symm
  | acp o =>
    rw [(exec_frame h).2 (fun o hc => by cases hc)]
    exact (List.append_nil _).symm
  | readSkill file =>
    obtain rfl := exec_readSkill h
    exact (List.append_nil _).symm

/-- The store holds the events of the log, after those it had. -/
theorem events_logged {cond : FleetConfig → FleetAction → Prop} {c₀ : FleetConfig} (h₀ : Start c₀)
    (h : (fleet D).Reaches cond c₀ c) :
    c.state.store.events = c₀.state.store.events ++ announced c.log := by
  apply h.invariant (P := fun c =>
    c.state.store.events = c₀.state.store.events ++ announced c.log)
  · rw [h₀.fresh.log]
    exact (List.append_nil _).symm
  · intro c x c' _ _ hs ih
    cases x with
    | start p a =>
      obtain ⟨ha, -, hl⟩ := step_start hs
      rw [(accept_frame ha).1, hl, ih]
    | env d =>
      obtain ⟨hd, -, hl⟩ := step_env hs
      rw [disturb_events hd, hl, ih]
    | run i ch =>
      obtain ⟨op, ⟨r⟩⟩ := step_run hs
      rw [exec_events (ran_exec r), r.log, ih, List.append_assoc]
      rfl

/-- What is logged once is told once. -/
theorem announced_once {log : FleetLog} {P : FleetEvent → Bool}
    (h : Once (fun k => ∃ e ∈ appended k.entry, P e = true) log) :
    ((announced log).filter P).length ≤ 1 := by
  have single (k : Entry Op Resp) : ((appended k).filter P).length ≤ 1 := by
    apply Nat.le_trans (List.length_filter_le P _)
    unfold appended
    split <;> simp
  induction log with
  | nil => exact Nat.zero_le 1
  | cons k log ih =>
    have hbehind := ih fun k' l hl => h k' l (hl.trans (List.suffix_cons k log))
    have hlast := single k.entry
    rw [announced, List.filter_append, List.length_append]
    by_cases hk : ∃ e ∈ appended k.entry, P e = true
    · have hnone : (announced log).filter P = [] := by
        rw [List.filter_eq_nil_iff]
        intro e he hp
        obtain ⟨k', l, hl, hmem⟩ := mem_announced he
        exact h k log List.suffix_rfl hk k' (hl.subset List.mem_cons_self) ⟨e, hmem, hp⟩
      rw [hnone]
      simpa using hlast
    · have hnone : (appended k.entry).filter P = [] := by
        rw [List.filter_eq_nil_iff]
        intro e he hp
        exact hk ⟨e, he, hp⟩
      rw [hnone]
      simpa using hbehind

end Appending

section Runs

variable {D : Deployment} {cond : FleetConfig → FleetAction → Prop} {c₀ c c' : FleetConfig}
  {id : TaskId} {e : FleetEvent}

theorem disciplined_told (D : Deployment) :
    (fleet D).Disciplined (fun _ _ => ToldOnceStored) fun _ _ _ _ => True :=
  fun p a => program_told D p a []

theorem told_stored (h₀ : Start c₀) (h : (fleet D).Reaches cond c₀ c) {k : Call Op Resp ℕ}
    {l : FleetLog} (hk : k :: l <:+ c.log) (ho : k.op = .store (.appendEvent e))
    (he : e.isDecision = true) : StoredBefore e (history l k.thread) := by
  obtain ⟨t, -, -, hl⟩ := logged_licence (disciplined_told D) h₀.fresh h hk
  rw [ho] at hl
  exact hl he

/-- The write behind an event, as the log has it. -/
theorem StoredBefore.logged {i : ℕ} {l : FleetLog} (h : StoredBefore e (history l i)) :
    ∃ new id, Announces e id new ∧ ∃ k ∈ l, Applied id new k.entry := by
  obtain ⟨now, id, new, k, h₀, hh, hk, he⟩ := h
  have hm : k ∈ history l i := by
    rw [hh]
    exact List.mem_cons_of_mem _ List.mem_cons_self
  obtain ⟨m, hlog, -, rfl⟩ := mem_history.mp hm
  exact ⟨new, id, he, m, hlog, hk⟩

/-- What is stored once is told once. -/
theorem told_once {P : TaskStatus → Prop} {Q : FleetEvent → Prop} (h₀ : Start c₀)
    (h : (fleet D).Reaches cond c₀ c)
    (hA : Once (fun k => ∃ new, Applied id new k.entry ∧ P new) c.log)
    (hQ : ∀ e, Q e → e.isDecision = true ∧ ∀ i new, Announces e i new → i = id ∧ P new) :
    Once (fun k => ∃ e, k.op = .store (.appendEvent e) ∧ Q e) c.log := by
  apply Once.follows (· = .process .utcNow) hA
  · rintro k ⟨e, ho, -⟩ hu
    rw [ho] at hu
    cases hu
  · rintro k l hk ⟨e, ho, hq⟩
    obtain ⟨hd, hall⟩ := hQ e hq
    obtain ⟨now, i, new, b, h₁, hh, hb, he⟩ := told_stored h₀ h hk ho hd
    obtain ⟨rfl, hp⟩ := hall i new he
    refine ⟨h₁, b, ?_, ?_⟩
    · rw [hh]
      exact Grew.one rfl
    · rintro m rfl
      exact ⟨new, hb, hp⟩

theorem told_end_once (h₀ : Start c₀) (h : (fleet D).Reaches cond c₀ c) (id : TaskId) :
    Once (fun k => ∃ e, k.op = .store (.appendEvent e) ∧ e.endOf = some id) c.log := by
  apply told_once h₀ h (ended_once h₀.seeded h id)
  intro e he
  refine ⟨decision_of_end he, ?_⟩
  intro i new ha
  obtain ⟨hi, ht⟩ := ha.ended he
  exact ⟨hi.symm, ht⟩

theorem told_dispatch_once (h₀ : Start c₀) (h : (fleet D).Reaches cond c₀ c) (id : TaskId) :
    Once (fun k => ∃ e, k.op = .store (.appendEvent e) ∧ e.dispatchOf = some id) c.log := by
  have claimed {new : TaskStatus} {k : Call Op Resp ℕ} (ha : Applied id new k.entry)
      (hn : ∃ w startedAt, new = .dispatched w startedAt) : ∃ w, Claimed id w k.entry := by
    obtain ⟨w, startedAt, rfl⟩ := hn
    obtain ⟨expected, fence, origin, he⟩ := ha
    exact ⟨w, expected, startedAt, fence, origin, he⟩
  have hA : Once (fun k => ∃ new, Applied id new k.entry ∧
      ∃ w startedAt, new = .dispatched w startedAt) c.log := by
    rintro k l hk ⟨new, ha, hn⟩ k' hk' ⟨new', ha', hn'⟩
    exact claimed_once h₀.seeded h id k l hk (claimed ha hn) k' hk' (claimed ha' hn')
  apply told_once h₀ h hA
  intro e he
  refine ⟨decision_of_dispatch he, ?_⟩
  intro i new ha
  obtain ⟨hi, hn⟩ := ha.handed he
  exact ⟨hi.symm, hn⟩

/-- An end that was stored is the status of the row, as long as there is one. -/
theorem ended_row (h₀ : Start c₀) (h : (fleet D).Reaches cond c₀ c) {k : Call Op Resp ℕ}
    (hk : k ∈ c.log) {new : TaskStatus} (ha : Applied id new k.entry)
    (hn : new.phase.isTerminal = true) {t : Task} (ht : c.state.row id = some t) :
    t.status = new := by
  obtain ⟨t₀, rfl, rfl, hseen⟩ := applied_seen h₀.seeded h k hk id new ha
  exact (hseen.2 t ht).ended hn

/-- Whichever worker a row names, it is the one the task was claimed for. -/
theorem claimed_row (h₀ : Start c₀) (h : (fleet D).Reaches cond c₀ c) {k : Call Op Resp ℕ}
    (hk : k ∈ c.log) {w v : WorkerId} {startedAt : ℤ}
    (ha : Applied id (.dispatched w startedAt) k.entry) {t : Task} (ht : c.state.row id = some t)
    (hv : t.status.workerId? = some v) : v = w := by
  obtain ⟨expected, fence, origin, he⟩ := ha
  obtain ⟨l, hl⟩ := placed hk
  have hn : ¬ k :: l <:+ c₀.log := by
    rw [h₀.fresh.log, List.suffix_nil]
    exact List.cons_ne_nil k l
  obtain ⟨c₁, c₂, ch, h₁, hc, hs, -, ⟨r, -, hr⟩, h₂⟩ := h.step_of_log hl hn
  have hent : (⟨k.op, r.resp⟩ : Entry Op Resp) = _ := (congrArg (Entry.mk k.op) hr).trans he
  obtain ⟨r', hr', -, -⟩ := ran_as r hent
  obtain ⟨-, t₁, -, -, hrow⟩ := ran_applied r' hr'
  exact named_run h₀ (h₁.tail _ hc hs) h₂ hrow transition_status ht hv

/-- What an event tells was stored before, and is what the row says. -/
structure Told (c : FleetConfig) (id : TaskId) (e : FleetEvent) (new : TaskStatus) : Prop where
  announces : Announces e id new
  stored : ∃ k ∈ c.log, Applied id new k.entry
  ended : e.endOf = some id → ∀ t, c.state.row id = some t → t.status = new
  handed : e.dispatchOf = some id → ∃ w startedAt, new = .dispatched w startedAt ∧
    ∀ t v, c.state.row id = some t → t.status.workerId? = some v → v = w

theorem told_of_applied (h₀ : Start c₀) (h : (fleet D).Reaches cond c₀ c) {k : Call Op Resp ℕ}
    (hk : k ∈ c.log) {new : TaskStatus} (ha : Applied id new k.entry) (he : Announces e id new) :
    Told c id e new where
  announces := he
  stored := ⟨k, hk, ha⟩
  ended hi _ ht := ended_row h₀ h hk ha (he.ended hi).2 ht
  handed hi := by
    obtain ⟨-, w, startedAt, rfl⟩ := he.handed hi
    exact ⟨w, startedAt, rfl, fun t v ht hv => claimed_row h₀ h hk ha ht hv⟩

theorem decision_task (he : e.endOf = some id ∨ e.dispatchOf = some id) :
    e.isDecision = true ∧ ∀ i new, Announces e i new → i = id := by
  rcases he with he | he
  · exact ⟨decision_of_end he, fun i new ha => (ha.ended he).1.symm⟩
  · exact ⟨decision_of_dispatch he, fun i new ha => (ha.handed he).1.symm⟩

theorem stored_told (h₀ : Start c₀) (h : (fleet D).Reaches cond c₀ c)
    (he : e.endOf = some id ∨ e.dispatchOf = some id) {l : FleetLog} (hl : l <:+ c.log) {i : ℕ}
    (hs : StoredBefore e (history l i)) : ∃ new, Told c id e new := by
  obtain ⟨new, j, ha, k, hk, hap⟩ := hs.logged
  obtain rfl := (decision_task he).2 j new ha
  exact ⟨new, told_of_applied h₀ h (hl.subset hk) hap ha⟩

/-- The fleet's events on a task: one end and one hand-over at most, each told after it was stored
and as it was stored. -/
theorem events_agree (h₀ : Start c₀) (h : (fleet D).Reaches always c₀ c) (id : TaskId) :
    ∃ new, c.state.store.events = c₀.state.store.events ++ new ∧
      (new.filter fun e => e.endOf = some id).length ≤ 1 ∧
      (new.filter fun e => e.dispatchOf = some id).length ≤ 1 ∧
      (∀ e ∈ new, e.endOf = some id ∨ e.dispatchOf = some id → ∃ status, Told c id e status) ∧
      ∀ c' i ch e, (fleet D).Ran c c' i ch (.store (.appendEvent e)) →
        e.endOf = some id ∨ e.dispatchOf = some id → ∃ status, Told c id e status := by
  refine ⟨announced c.log, events_logged h₀ h, ?_, ?_, ?_, ?_⟩
  · apply announced_once
    rintro k l hk ⟨e, he, hi⟩ k' hk' ⟨e', he', hi'⟩
    exact told_end_once h₀ h id k l hk ⟨e, appended_op he, by simpa using hi⟩ k' hk'
      ⟨e', appended_op he', by simpa using hi'⟩
  · apply announced_once
    rintro k l hk ⟨e, he, hi⟩ k' hk' ⟨e', he', hi'⟩
    exact told_dispatch_once h₀ h id k l hk ⟨e, appended_op he, by simpa using hi⟩ k' hk'
      ⟨e', appended_op he', by simpa using hi'⟩
  · intro e hm he
    obtain ⟨k, l, hl, hmem⟩ := mem_announced hm
    have hs := told_stored h₀ h hl (appended_op hmem) (decision_task he).1
    exact stored_told h₀ h he ((List.suffix_cons k l).trans hl) hs
  · intro c' i ch e r he
    have hs : StoredBefore e (history c.log i) :=
      r.licensed (disciplined_told D) h₀.fresh h (decision_task he).1
    exact stored_told h₀ h he List.suffix_rfl hs

set_option maxRecDepth 10000 in
/-- Both events of a completed task. -/
theorem completion_told : ∃ c,
    (fleet solo).Reaches always initial c ∧
      (c.state.store.events.filter fun e => e.endOf = some ⟨1⟩).length = 1 ∧
      (c.state.store.events.filter fun e => e.dispatchOf = some ⟨1⟩).length = 1 ∧
      ∀ e ∈ c.state.store.events, e.endOf = some ⟨1⟩ ∨ e.dispatchOf = some ⟨1⟩ →
        ∃ status, Told c ⟨1⟩ e status := by
  have hrun : (fleet solo).Reaches always initial ((fleet solo).after initial soloCompletion) :=
    after_reaches _
  refine ⟨_, hrun, rfl, rfl, ?_⟩
  obtain ⟨new, hn, -, -, hall, -⟩ := events_agree initial_start hrun ⟨1⟩
  intro e he
  rw [hn] at he
  exact hall e he

end Runs

end FleetOrchestrator.Scheduler
