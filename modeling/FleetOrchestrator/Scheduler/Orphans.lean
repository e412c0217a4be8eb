import FleetOrchestrator.Scheduler.Pieces
import FleetOrchestrator.Scheduler.Records

/-! A sweep ends the sessions of ended tasks, which it tells by the session's id alone. -/

namespace FleetOrchestrator.Scheduler

open Core Tables Store Transport Interleaving Machine

/-- The row names the session, or some process has it in flight for the task. -/
def Claims (w : World) (id : TaskId) (s : SessionId) : Prop :=
  (∃ t, w.row id = some t ∧ t.acpSessionId = some s) ∨
    ∃ p link l, ∃ entry ∈ l.sessions, (w.transport p).link? link = some l ∧ entry.taskId = id ∧
      entry.sessionId = s

/-- A task is under way in this session of the worker. -/
def RunsOn (w : World) (v : WorkerId) (s : SessionId) : Prop :=
  ∃ id t startedAt, w.row id = some t ∧ t.status = .dispatched v startedAt ∧ Claims w id s

/-- The last answer the activity got when it looked up a session's owner. -/
def ownerFound : History → Option Task
  | [] => none
  | ⟨.store (.findTaskByAcpSession _), .ok found⟩ :: _ => found
  | _ :: h => ownerFound h

/-- A session is ended on behalf of an owner who was found to have ended. -/
def Orphaned (h : History) : Op → Prop
  | .acp (.sendCancel link connection s) => ∃ owner held w h₀, owner.isTerminal = true ∧
      h = ⟨.acp (.cloneConnection link), some connection⟩ ::
        ⟨.acp (.findCancelTarget ⟨owner.id, some held, some w⟩), .at link s⟩ ::
        ⟨.store (.findTaskByAcpSession held), .ok (some owner)⟩ :: h₀
  | _ => True

section Targets

variable {t : TransportState} {req : CancelRequest} {link : ℕ} {s : SessionId}

theorem inFlight_at (h : t.inFlightTarget req.taskId = some (.at link s)) :
    ∃ l, ∃ entry ∈ l.sessions, t.link? link = some l ∧ entry.taskId = req.taskId ∧
      entry.sessionId = s := by
  obtain ⟨i, -, hi⟩ := List.exists_of_findSome?_eq_some h
  split at hi
  · split at hi
    · next l hl =>
      obtain ⟨entry, he, hat⟩ := Option.map_eq_some_iff.mp hi
      cases hat
      have htask := List.find?_some he
      exact ⟨l, entry, List.mem_of_find?_eq_some he, hl, of_decide_eq_true htask, rfl⟩
    · cases hi
  · cases hi

theorem cancelTarget_at (h : t.cancelTarget req = .at link s) :
    (∃ l, ∃ entry ∈ l.sessions, t.link? link = some l ∧ entry.taskId = req.taskId ∧
      entry.sessionId = s) ∨ req.knownSession = some s := by
  unfold TransportState.cancelTarget at h
  split at h
  · next target ht =>
    rw [h] at ht
    exact .inl (inFlight_at ht)
  · split at h
    · next sessionId w hs hw =>
      split at h
      · cases h
        exact .inr hs
      · cases h
    · cases h

end Targets

section Parts

open Dispatcher Reconciler

variable {D : Deployment}

theorem orphaned_plain (h : History) (op : Op) (ho : Plain op) : Orphaned h op := by
  cases op with
  | acp o =>
    cases o with
    | sendCancel => cases ho
    | _ => trivial
  | store o => trivial
  | process o => trivial
  | readSkill file => trivial

theorem orphaned_silent : Silent (Abides Orphaned) where
  toComposes := composes_abides orphaned_plain
  check _ := abides_perform fun _ => trivial
  record _ _ := abides_perform fun _ => trivial
  event _ := abides_perform fun _ => trivial

theorem orphaned_failed (id : TaskId) (expected : List TaskPhase) (failure : TaskFailure) :
    Abides Orphaned (markFailed id expected failure .controlDecision) :=
  markFailed_composed orphaned_silent fun _ => abides_perform fun _ => trivial

theorem claimed_orphaned (cfg : ProcessConfig) (task : Task) (w : WorkerId)
    (harness : SkillLoader.SkillInjection) :
    Abides Orphaned ((claim cfg task w).andThen fun _ => handOver task w harness) := by
  have free {op : Op} (ho : ∀ h, Orphaned h op) : Abides Orphaned (call op) := abides_perform ho
  apply orphaned_silent.andThen
  · exact claim_composed orphaned_silent.toComposes (fun _ _ => free fun _ => trivial) cfg
  · intro claimed
    have handed (req : DispatchRequest) : Abides Orphaned (AcpTransport.dispatch req) :=
      acpDispatch_composed orphaned_silent.toComposes (fun _ => free fun _ => trivial)
        (fun _ _ _ _ => free fun _ => trivial) (fun _ => free fun _ => trivial)
        (fun _ => free fun _ => trivial) req
    exact handOver_composed orphaned_silent (free fun _ => trivial) (free fun _ => trivial) handed
      orphaned_failed task w harness

theorem orphaned_parts (D : Deployment) : Parts D (Abides Orphaned) where
  toComposes := orphaned_silent.toComposes
  markFailed := orphaned_failed
  dispatchTo := dispatchTo_composed orphaned_silent.toLenient orphaned_failed
    (fun _ _ => abides_perform fun _ => trivial) (fun _ => abides_perform fun _ => trivial)
    claimed_orphaned

theorem cancel_orphaned {owner : Task} {held : SessionId} {w : WorkerId} {h : History}
    (ho : owner.isTerminal = true) :
    Obeys Orphaned (fun _ _ => True) (AcpTransport.cancel ⟨owner.id, some held, some w⟩)
      (⟨.store (.findTaskByAcpSession held), .ok (some owner)⟩ :: h) := by
  refine obeys_step trivial fun target => ?_
  cases target with
  | unreachable => exact obeys_ret trivial
  | noSession => exact obeys_ret trivial
  | «at» link s =>
    refine obeys_step trivial fun connection => ?_
    cases connection with
    | none => exact obeys_ret trivial
    | some connection =>
      refine obeys_step ⟨owner, held, w, h, ho, rfl⟩ fun sent => ?_
      exact obeys_ret trivial

theorem judgeSession_orphaned (cfg : ProcessConfig) (w : WorkerId) (sessionId : SessionId)
    (summary : ReconcileSummary) : Abides Orphaned (judgeSession cfg w sessionId summary) := by
  intro h
  have told (action : String) (target : String × String) (detail : List (String × AuditValue)) :
      Abides Orphaned (auditDecision cfg action target detail) :=
    orphaned_silent.uses (plain_of_mere (auditDecision_mere cfg action target detail))
  refine obeys_step trivial fun found => ?_
  rcases found with e | _ | owner
  · exact obeys_ret trivial
  · exact obeys_bind (told _ _ _ _) fun _ _ _ => obeys_ret trivial
  · dsimp only
    split
    · next ho =>
      refine obeys_bind (cancel_orphaned ho) fun delivery h₁ _ => ?_
      split
      · exact obeys_bind (told _ _ _ _) fun _ _ _ => obeys_ret trivial
      all_goals exact obeys_ret trivial
    · exact obeys_ret trivial

theorem reconcileOnce_orphaned (D : Deployment) (cfg : ProcessConfig) :
    Abides Orphaned (reconcileOnce D cfg) :=
  reconcileOnce_composed (orphaned_parts D) judgeSession_orphaned cfg

theorem program_orphaned (D : Deployment) (p : ℕ) (a : Activity) :
    Obeys (fun h op => a = .reconcile → Orphaned h op) (fun _ _ => True) (program D p a) [] := by
  by_cases ha : a = .reconcile
  · subst ha
    have hsweep : Abides Orphaned (program D p .reconcile) :=
      abides_bind (reconcileOnce_orphaned D (D.process p)) fun _ => abides_ret _
    exact obeys_mono (hsweep []) (fun h op ho _ => ho) fun _ _ hq => hq
  · exact obeys_any (fun h op hr => absurd hr ha) fun _ _ => trivial

end Parts

/-- Whoever claims the session about to be ended is the task it was looked up for. -/
def Sole (c : FleetConfig) : FleetAction → Prop
  | .run i _ =>
    match c.threads[i]? with
    | some ⟨_, .reconcile, .call (.acp (.sendCancel _ _ s)) _⟩ =>
      ∀ id, Claims c.state id s → (ownerFound (history c.log i)).map Task.id = some id
    | _ => True
  | _ => True

section Runs

variable {D : Deployment} {cond : FleetConfig → FleetAction → Prop} {c₀ c c' : FleetConfig}
  {i : ℕ} {ch : Choice} {s : SessionId}

theorem disciplined_orphaned (D : Deployment) :
    (fleet D).Disciplined (fun _ a h op => a = .reconcile → Orphaned h op) fun _ _ _ _ => True :=
  program_orphaned D

theorem ran_found {held : SessionId} {t : Task}
    (r : (fleet D).Ran c c' i ch (.store (.findTaskByAcpSession held)))
    (hr : r.resp = .ok (some t)) :
    c.state.row t.id = some t ∧ t.acpSessionId = some held := by
  have ha := (exec_store (ran_exec r)).1
  rw [hr] at ha
  cases hf : ch.fault with
  | some e =>
    rw [hf] at ha
    cases ha
  | none =>
    rw [hf] at ha
    exact find_session (Except.ok.inj ha).symm

/-- The session a cancel ends is the one it was sent for, or one in flight for the task. -/
theorem ran_target {req : CancelRequest} {link : ℕ}
    (r : (fleet D).Ran c c' i ch (.acp (.findCancelTarget req))) (hr : r.resp = .at link s) :
    Claims c.state req.taskId s ∨ req.knownSession = some s := by
  obtain ⟨w₁, t, -, hp, -⟩ := exec_acp (ran_exec r)
  rw [hr] at hp
  have htarget : (c.state.transport r.party).cancelTarget req = .at link s :=
    congrArg Prod.fst (Option.some.inj hp)
  rcases cancelTarget_at htarget with ⟨l, entry, he, hl, ht, hs⟩ | hk
  · exact .inl (.inr ⟨r.party, link, l, entry, he, hl, ht, hs⟩)
  · exact .inr hk

theorem seen_ended {t u : Task} (hs : Seen t c) (ht : t.isTerminal = true)
    (hu : c.state.row t.id = some u) {w : WorkerId} {startedAt : ℤ} :
    u.status ≠ .dispatched w startedAt := by
  intro hd
  have hlater := (hs.2 u hu).ended ht
  have hphase : u.isTerminal = true := (isTerminal_of_status hlater).trans ht
  rw [Task.isTerminal, Task.phase, hd] at hphase
  cases hphase

/-- A sweep ends no session of a task under way, where nobody but the owner it found claims the
session; and it ends none that was never claimed. -/
theorem orphans_ended (h₀ : Seeded c₀) (h : (fleet D).Reaches Sole c₀ c) {link connection : ℕ}
    (r : (fleet D).Ran c c' i ch (.acp (.sendCancel link connection s))) (ha : r.act = .reconcile)
    (hc : Sole c (.run i ch)) :
    (∀ w, ¬ RunsOn c.state w s) ∧
    ∃ owner c₁ c₂, (fleet D).Reaches Sole c₀ c₁ ∧ (fleet D).Reaches Sole c₁ c₂ ∧
      (fleet D).Reaches Sole c₂ c ∧ c₁.state.row owner.id = some owner ∧
      owner.isTerminal = true ∧ Claims c₂.state owner.id s := by
  obtain ⟨owner, held, w, h₁, hend, hh⟩ := r.licensed (disciplined_orphaned D) h₀.fresh h ha
  have htarget : ⟨.acp (.findCancelTarget ⟨owner.id, some held, some w⟩), .at link s⟩ ::
      ⟨.store (.findTaskByAcpSession held), .ok (some owner)⟩ :: h₁ <:+ history c.log i := by
    rw [hh]
    exact List.suffix_cons _ _
  obtain ⟨c₂, c₃, ch₂, r₂, hr₂, hh₂, hreach₂, hnext₂, hrest⟩ := h.at_history h₀.fresh htarget
  have hlook : ⟨.store (.findTaskByAcpSession held), .ok (some owner)⟩ :: h₁ <:+
      history c₂.log i := by
    rw [hh₂]
  obtain ⟨c₁, c₁', ch₁, r₁, hr₁, -, hreach₁, hnext₁, hreach₁'⟩ :=
    hreach₂.at_history h₀.fresh hlook
  obtain ⟨hrow, hsession⟩ := ran_found r₁ hr₁
  have hbetween : (fleet D).Reaches Sole c₁ c₂ := hnext₁.trans hreach₁'
  have hafter : (fleet D).Reaches Sole c₂ c := hnext₂.trans hrest
  constructor
  · rintro v ⟨id, t, startedAt, ht, hd, hclaim⟩
    have hseen := seen_run h₀ hreach₁ (hbetween.trans hafter) (seen_now h₀ hreach₁ hrow)
    simp only [Sole, r.was, ha, hh, ownerFound, Option.map_some, Option.some.injEq] at hc
    rw [← hc id hclaim] at ht
    exact seen_ended hseen hend ht hd
  · rcases ran_target r₂ hr₂ with hclaim | hheld
    · exact ⟨owner, c₁, c₂, hreach₁, hbetween, hafter, hrow, hend, hclaim⟩
    · cases hheld
      exact ⟨owner, c₁, c₁, hreach₁, .refl, hbetween.trans hafter, hrow, hend,
        .inl ⟨owner, hrow, hsession⟩⟩

/-- The session of a completed task is still held by its worker, and a sweep is about to end it. -/
def soloSweep : List FleetAction := soloCompletion ++ [.start 0 .reconcile] ++ steps 4 14 {}

def sweepsNothing (c : FleetConfig) : FleetAction → Bool
  | .run i _ =>
    match c.threads[i]? with
    | some ⟨_, .reconcile, .call (.acp (.sendCancel ..)) _⟩ => false
    | _ => true
  | _ => true

theorem sole_of_nothing {x : FleetAction} (h : sweepsNothing c x = true) : Sole c x := by
  cases x with
  | start p a => trivial
  | env d => trivial
  | run i ch =>
    simp only [sweepsNothing] at h
    simp only [Sole]
    split at h
    · cases h
    · trivial

theorem claims_of_rows {w : World} {id : TaskId} (h : Claims w id s)
    (hl : ∀ p, (w.transport p).links.all (fun l => l.sessions = []) = true) :
    ∃ t, w.row id = some t ∧ t.acpSessionId = some s := by
  rcases h with hrow | ⟨p, link, l, entry, he, hlink, -, -⟩
  · exact hrow
  · have hnone := List.all_eq_true.mp (hl p) l (List.mem_of_getElem? hlink)
    rw [of_decide_eq_true hnone] at he
    cases he

set_option maxRecDepth 10000 in
theorem orphan_ended : ∃ c c' : FleetConfig, (fleet solo).Reaches Sole initial c ∧
    ∃ r : (fleet solo).Ran c c' 4 {} (.acp (.sendCancel 0 0 "session")),
      r.act = .reconcile ∧ ∀ w, ¬ RunsOn c.state w "session" := by
  have hrun : (fleet solo).replayWhile sweepsNothing initial soloSweep =
      some ((fleet solo).after initial soloSweep) := rfl
  have hreach := (replayWhile_reaches hrun).mono fun _ _ hx => sole_of_nothing hx
  let r : (fleet solo).Ran ((fleet solo).after initial soloSweep)
      ((fleet solo).after initial (soloSweep ++ steps 4 1 {})) 4 {}
        (.acp (.sendCancel 0 0 "session")) :=
    ⟨0, .reconcile, _, (), rfl, rfl, rfl, rfl⟩
  have hsole : Sole ((fleet solo).after initial soloSweep) (.run 4 {}) := by
    have hlinks (p : ℕ) : (((fleet solo).after initial soloSweep).state.transport p).links.all
        (fun l => l.sessions = []) = true := by
      cases p with
      | zero => rfl
      | succ p => rfl
    have hfound : (ownerFound (history ((fleet solo).after initial soloSweep).log 4)).map Task.id =
        some ⟨1⟩ := rfl
    have hrows : ((fleet solo).after initial soloSweep).state.store.tasks.rows.map Task.id =
        [⟨1⟩] := rfl
    simp only [Sole, r.was]
    intro id hclaim
    obtain ⟨t, ht, -⟩ := claims_of_rows hclaim hlinks
    obtain ⟨hmem, hid⟩ := Keyed.get_eq_some.mp ht
    have hmem := List.mem_map_of_mem (f := Task.id) hmem
    rw [hrows, hid] at hmem
    rw [hfound, List.mem_singleton.mp hmem]
  exact ⟨_, _, hreach, r, rfl, (orphans_ended initial_start.seeded hreach r rfl hsole).1⟩

/-- The first worker is away and a second one is there. -/
def twoWorkers : WorkerTable where
  rows := [
    { id := ⟨0⟩, name := "worker", status := .offline, registeredAt := 0, incarnationStartedAt := 0 },
    { id := ⟨1⟩, name := "second", registeredAt := 0, incarnationStartedAt := 0 }]
  nodup := by decide

/-- The second worker's session for the second task has the id of the first task's session; when
the first worker is back, a sweep looks at both. -/
def soloShared : List FleetAction :=
  soloCompletion ++
    [.env (.setWorkers twoWorkers), .env (.register 0 ⟨1⟩ 4), .env (.established 0 1 1 true),
      .start 0 (.submit (soloTask 2 []))] ++ steps 4 37 {} ++
    steps 5 5 { acp := { newSession := .opened "session" } } ++
    [.env (.pump 0 0), .start 0 (.workerEvent (.sessionOpened ⟨2⟩ "session"))] ++ steps 6 2 {} ++
    [.start 0 .reconcile] ++ steps 7 26 {}

set_option maxRecDepth 20000 in
/-- The sweep ends the session of the second task, which its worker is at work on. -/
theorem running_ended : ∃ c c' : FleetConfig, (fleet solo).Reaches always initial c ∧
    (∃ r : (fleet solo).Ran c c' 7 {} (.acp (.sendCancel 1 1 "session")), r.act = .reconcile) ∧
    ((c.state.transport 0).link? 1).map WorkerSession.workerId = some ⟨1⟩ ∧
    RunsOn c.state ⟨1⟩ "session" := by
  have hrow : (((fleet solo).after initial soloShared).state.row ⟨2⟩).map
      (fun t => (t.status, t.acpSessionId)) = some (.dispatched ⟨1⟩ 0, some "session") := rfl
  obtain ⟨t, ht, hs⟩ := Option.map_eq_some_iff.mp hrow
  obtain ⟨hstatus, hsession⟩ := Prod.mk.inj hs
  refine ⟨(fleet solo).after initial soloShared,
    (fleet solo).after initial (soloShared ++ steps 7 1 {}), after_reaches _,
    ⟨⟨0, .reconcile, _, (), rfl, rfl, rfl, rfl⟩, rfl⟩, rfl, ?_⟩
  exact ⟨⟨2⟩, t, 0, ht, hstatus, .inl ⟨t, ht, hsession⟩⟩

end Runs

end FleetOrchestrator.Scheduler
