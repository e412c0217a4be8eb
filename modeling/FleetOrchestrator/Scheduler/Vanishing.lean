import FleetOrchestrator.Scheduler.Lifecycle

/-! A task is taken for vanished when its worker no longer lists the session recorded for it; the
worker is asked once, and may have opened the session since. -/

namespace FleetOrchestrator.Scheduler

open Core Tables Store Transport Interleaving Machine

/-- The worker has held the session ever since it opened it. -/
def Unbroken (h : Host) (s : SessionId) : Prop := s ∈ h.held ∧ s ∉ h.interrupted

section Hosts

/-- What a worker has opened it holds, or has once stopped holding. -/
def Accounted (h : Host) : Prop := ∀ s ∈ h.opened, s ∈ h.held ∨ s ∈ h.interrupted

structure HostStep (h h' : Host) : Prop where
  opened : h.opened ⊆ h'.opened
  interrupted : h.interrupted ⊆ h'.interrupted
  accounted : Accounted h → Accounted h'

theorem hostStep_refl (h : Host) : HostStep h h :=
  ⟨List.Subset.refl _, List.Subset.refl _, fun ha => ha⟩

theorem HostStep.trans {h₁ h₂ h₃ : Host} (h : HostStep h₁ h₂) (h' : HostStep h₂ h₃) :
    HostStep h₁ h₃ :=
  ⟨List.Subset.trans h.opened h'.opened, List.Subset.trans h.interrupted h'.interrupted,
    fun ha => h'.accounted (h.accounted ha)⟩

variable {h h' : Host} {s : SessionId}

theorem openSession_some (ho : h.openSession s = some h') :
    h' = { h with opened := s :: h.opened, held := s :: h.held } := by
  unfold Host.openSession at ho
  split at ho
  · cases ho
  · exact (Option.some.inj ho).symm

theorem hostStep_open (ho : h.openSession s = some h') : HostStep h h' := by
  obtain rfl := openSession_some ho
  refine ⟨List.subset_cons_self _ _, List.Subset.refl _, fun ha u hu => ?_⟩
  rcases List.mem_cons.mp hu with rfl | hu
  · exact .inl List.mem_cons_self
  · exact (ha u hu).imp (List.mem_cons_of_mem _) id

theorem hostStep_lose (h : Host) (s : SessionId) : HostStep h (h.lose s) := by
  have hkept : h.interrupted ⊆ (h.lose s).interrupted := by
    unfold Host.lose
    dsimp only
    split
    · exact List.subset_cons_self _ _
    · exact List.Subset.refl _
  refine ⟨List.Subset.refl _, hkept, fun ha u hu => ?_⟩
  rcases ha u hu with hheld | hgone
  · by_cases hu : u = s
    · subst hu
      right
      simp [Host.lose, hheld]
    · left
      exact List.mem_filter.mpr ⟨hheld, by simpa using hu⟩
  · exact .inr (hkept hgone)

theorem hostStep_resume (h : Host) (s : SessionId) : HostStep h (h.resume s) := by
  unfold Host.resume
  split
  · refine ⟨List.Subset.refl _, List.Subset.refl _, fun ha u hu => ?_⟩
    exact (ha u hu).imp (List.mem_cons_of_mem _) id
  · exact hostStep_refl h

theorem Unbroken.not_missing (hu : Unbroken h' s) (ha : Accounted h) (hs : HostStep h h')
    (ho : s ∈ h.opened) : s ∈ h.held :=
  (ha s ho).resolve_right fun hi => hu.2 (hs.interrupted hi)

end Hosts

section Steps

variable {D : Deployment} {cond : FleetConfig → FleetAction → Prop} {c₀ c c' : FleetConfig}
  {x : FleetAction} {v : WorkerId} {s : SessionId}

theorem hostStep_set {w : World} {u : Host} (hu : HostStep (w.host v) u) (y : WorkerId) :
    HostStep (w.host y) ((w.setHost v u).host y) := by
  unfold World.setHost
  dsimp only
  split
  · next hy =>
    subst hy
    exact hu
  · exact hostStep_refl _

theorem disturb_hosts {e : Disturbance} {w w' : World} (h : disturb e w = some w') (y : WorkerId) :
    HostStep (w.host y) (w'.host y) := by
  cases e with
  | openSession v s =>
    obtain ⟨u, hu, rfl⟩ := Option.map_eq_some_iff.mp h
    exact hostStep_set (hostStep_open hu) y
  | loseSession v s =>
    cases h
    exact hostStep_set (hostStep_lose _ _) y
  | resumeSession v s =>
    cases h
    exact hostStep_set (hostStep_resume _ _) y
  | insertPending t =>
    obtain ⟨w₁, hm, rfl⟩ := Option.map_eq_some_iff.mp h
    obtain ⟨-, -, rfl⟩ := mint_eq hm
    exact hostStep_refl _
  | elapse | setWorkers | setAgents | setCredentials | setTemplates | resetBreaker | notify
  | subscribe =>
    cases h
    exact hostStep_refl _
  | register | connecting | established | consume | pump =>
    obtain ⟨t, -, rfl⟩ := Option.map_eq_some_iff.mp h
    exact hostStep_refl _

theorem exec_hosts {ch : Choice} {p : ℕ} {op : Op} {w w' : World} {r : Resp op}
    (h : exec D ch p op w = some (r, w')) (y : WorkerId) : HostStep (w.host y) (w'.host y) := by
  cases op with
  | store o =>
    obtain ⟨-, rfl⟩ := exec_store h
    exact hostStep_refl _
  | process o =>
    obtain ⟨-, rfl⟩ := exec_process h
    exact hostStep_refl _
  | readSkill file =>
    obtain rfl := exec_readSkill h
    exact hostStep_refl _
  | acp o =>
    obtain ⟨w₁, t, hh, -, rfl⟩ := exec_acp h
    rcases hostEffect_cases hh with rfl | ⟨v, -, -, s, u, -, -, hu, rfl⟩
    · exact hostStep_refl _
    · exact hostStep_set (hostStep_open hu) y

theorem step_hosts (hs : (fleet D).step c x = some c') (y : WorkerId) :
    HostStep (c.state.host y) (c'.state.host y) := by
  cases x with
  | start p a =>
    rw [(accept_frame (step_start hs).1).2.1]
    exact hostStep_refl _
  | env e => exact disturb_hosts (step_env hs).1 y
  | run i ch =>
    obtain ⟨op, ⟨r⟩⟩ := step_run hs
    exact exec_hosts (ran_exec r) y

theorem run_hosts {c₁ c₂ : FleetConfig} (h : (fleet D).Reaches cond c₁ c₂) (y : WorkerId) :
    HostStep (c₁.state.host y) (c₂.state.host y) := by
  apply h.invariant (P := fun c => HostStep (c₁.state.host y) (c.state.host y)) (hostStep_refl _)
  intro c x c' _ _ hs hp
  exact hp.trans (step_hosts hs y)

theorem accounted (h₀ : Start c₀) (h : (fleet D).Reaches cond c₀ c) (y : WorkerId) :
    Accounted (c.state.host y) := by
  apply (run_hosts h y).accounted
  rw [h₀.pristine.host y]
  intro u hu
  cases hu

theorem ran_opens {i : ℕ} {ch : Choice} {connection : ℕ} {cwd : String}
    (r : (fleet D).Ran c c' i ch (.acp (.newSession v connection cwd)))
    (hr : r.resp = .opened s) : s ∈ (c'.state.host v).opened := by
  obtain ⟨w₁, t, hh, hp, hw⟩ := exec_acp (ran_exec r)
  have hopened : ch.acp.newSession = .opened s := (congrArg Prod.fst (Option.some.inj hp)).trans hr
  simp only [hostEffect, hopened, Option.map_eq_some_iff] at hh
  obtain ⟨u, hu, rfl⟩ := hh
  rw [hw, World.setProcess_host, World.setHost_self, openSession_some hu]
  exact List.mem_cons_self

theorem ran_asks {i : ℕ} {ch : Choice} {connection : ℕ} {live : List SessionId} {more : Bool}
    (r : (fleet D).Ran c c' i ch (.acp (.askSessions v connection)))
    (hr : r.resp = .listed live more) : live = (c.state.host v).held := by
  obtain ⟨w₁, t, -, hp, -⟩ := exec_acp (ran_exec r)
  have hanswer := (congrArg Prod.fst (Option.some.inj hp)).trans hr
  cases hl : ch.acp.list with
  | listed more' =>
    simp only [hl, ListAnswer.listed.injEq] at hanswer
    exact hanswer.1.symm
  | refused message agentAnswer =>
    simp only [hl] at hanswer
    cases hanswer
  | timedOut =>
    simp only [hl] at hanswer
    cases hanswer

end Steps

section Sessions

/-- A prompt asks for its session at the worker of its request. -/
def AsksItsWorker (a : Activity) : Op → Prop
  | .acp (.newSession w _ _) => ∀ link connection req cwd, a = .prompt link connection req cwd →
      w = req.workerId
  | _ => True

theorem flushSession_asks {a : Activity} (link : ℕ) (s : SessionId) :
    Uses (AsksItsWorker a) (AcpTransport.flushSession link s) := by
  refine uses_step trivial fun found => ?_
  cases found with
  | none => exact uses_ret _
  | some q => exact uses_step trivial fun _ => uses_perform trivial

theorem followSession_asks {a : Activity} (link connection : ℕ) (req : DispatchRequest) (started : ℤ)
    (reply : NewSessionReply) :
    Uses (AsksItsWorker a) (AcpTransport.followSession link connection req started reply) := by
  have failing (error : String) (observation : FailureObservation) :
      Uses (AsksItsWorker a) (AcpTransport.failed req error observation) := uses_perform trivial
  cases reply with
  | refused message => exact failing _ _
  | timedOut => exact failing _ _
  | opened s =>
    refine uses_step trivial fun queue => ?_
    refine uses_step trivial fun announced => ?_
    refine uses_step trivial fun sent => ?_
    refine uses_step trivial fun reply => ?_
    apply uses_bind (flushSession_asks link s)
    intro flushed
    refine uses_step trivial fun removed => ?_
    refine uses_step trivial fun ended => ?_
    refine uses_step trivial fun output => ?_
    cases reply with
    | finished usage => exact uses_step trivial fun _ => uses_perform trivial
    | refused message =>
      cases removed with
      | true => exact failing _ _
      | false => exact uses_ret _
    | timedOut =>
      cases removed with
      | true => exact uses_step trivial fun _ => failing _ _
      | false => exact uses_ret _

theorem promptTask_asks (link connection : ℕ) (req : DispatchRequest) (cwd : String) :
    Uses (AsksItsWorker (.prompt link connection req cwd))
      (AcpTransport.promptTask link connection req cwd) := by
  have hown : AsksItsWorker (.prompt link connection req cwd)
      (.acp (.newSession req.workerId connection cwd)) := by
    intro link' connection' req' cwd' ha
    cases ha
    rfl
  refine uses_step trivial fun started => ?_
  refine uses_step hown fun reply => ?_
  apply uses_bind (followSession_asks link connection req started reply)
  intro followed
  exact uses_perform trivial

theorem disciplined_asks (D : Deployment) :
    (fleet D).Disciplined (fun _ a _ op => AsksItsWorker a op) fun _ _ _ _ => True := by
  intro p a
  cases a with
  | prompt link connection req cwd =>
    have hu : Uses (AsksItsWorker _) (program D p (.prompt link connection req cwd)) :=
      uses_bind (promptTask_asks link connection req cwd) fun _ => uses_ret _
    exact obeys_conseq (obeys_of_uses hu fun _ _ ho => ho) fun _ _ _ => trivial
  | _ =>
    refine obeys_any (fun h op => ?_) fun _ _ => trivial
    cases op with
    | acp o =>
      cases o with
      | newSession => exact fun link connection req cwd ha => by cases ha
      | _ => trivial
    | _ => trivial

end Sessions

section Recorded

variable {D : Deployment} {cond : FleetConfig → FleetAction → Prop} {c₀ c c' : FleetConfig}
  {x : FleetAction} {id : TaskId} {w : WorkerId} {s : SessionId} {t : Task}

theorem openedIn_mem {h : History} (ho : openedIn h = some s) : ∃ v connection cwd,
    (⟨.acp (.newSession v connection cwd), .opened s⟩ : Entry Op Resp) ∈ h := by
  fun_induction openedIn h with
  | case1 => cases ho
  | case2 v connection cwd s' h =>
    cases ho
    exact ⟨v, connection, cwd, List.mem_cons_self⟩
  | case3 e h _ ih =>
    obtain ⟨v, connection, cwd, hm⟩ := ih ho
    exact ⟨v, connection, cwd, List.mem_cons_of_mem _ hm⟩

theorem insertedIn_at {h : History} (hi : insertedIn h = some s) : ∃ link id v q h₀,
    (⟨.acp (.insertSession link s id v), q⟩ : Entry Op Resp) :: h₀ <:+ h := by
  fun_induction insertedIn h with
  | case1 => cases hi
  | case2 link s' id v q h =>
    cases hi
    exact ⟨link, id, v, q, h, List.suffix_rfl⟩
  | case3 e h _ ih =>
    obtain ⟨link, id, v, q, h₀, hs⟩ := ih hi
    exact ⟨link, id, v, q, h₀, hs.trans (List.suffix_cons _ _)⟩

/-- The worker opened the session for a prompt, as the log has it. -/
def OpenedFor (w : WorkerId) (s : SessionId) (k : Call Op Resp ℕ) : Prop :=
  ∃ connection cwd, k.entry = ⟨.acp (.newSession w connection cwd), .opened s⟩

/-- A session that is told of was opened at the worker its task was claimed for. -/
theorem told_opened (h₀ : Start c₀) (h : (fleet D).Reaches cond c₀ c) {k : Call Op Resp ℕ}
    (hk : k ∈ c.log) (ht : WorkerEvent.sessionOpened id s ∈ told k.entry) :
    ∃ v, (∃ m ∈ c.log, Claimed id v m.entry) ∧ ∃ m ∈ c.log, OpenedFor v s m := by
  obtain ⟨l, hl⟩ := placed hk
  obtain ⟨th, hth, -, hlic⟩ := logged_licensed h₀.seeded h hl
  obtain ⟨thread, party, op, resp⟩ := k
  simp only [Call.entry] at ht
  unfold told at ht
  split at ht
  · next e r he =>
    obtain rfl := List.mem_singleton.mp ht
    obtain rfl : op = _ := congrArg Entry.op he
    obtain ⟨link, connection, req, cwd, hact, rfl, hins⟩ := hlic
    obtain ⟨k₁, hk₁, -, ho₁⟩ := prompt_spawned h₀ h hth hact
    refine ⟨req.workerId, prompt_claimed h₀ h hk₁ ho₁, ?_⟩
    obtain ⟨link', id', v, q, h₁, hs₁⟩ := insertedIn_at hins
    have hs₁' := hs₁.trans (history_suffix ((List.suffix_cons _ _).trans hl) thread)
    obtain ⟨k₂, l₂, hl₂, hthread, he₂, hh₂⟩ := of_history_at hs₁'
    obtain ⟨th₂, hth₂, -, hlic₂⟩ := logged_licensed h₀.seeded h hl₂
    rw [show k₂.op = _ from congrArg Entry.op he₂, hthread, hh₂] at hlic₂
    obtain ⟨-, -, -, -, -, -, hopen, -⟩ := hlic₂
    obtain ⟨v', connection', cwd', hm⟩ := openedIn_mem hopen
    rw [← hh₂] at hm
    obtain ⟨k₃, hk₃, hthread₃, he₃⟩ := mem_history.mp hm
    have hk₃' : k₃ ∈ c.log := hl₂.subset (List.mem_cons_of_mem _ hk₃)
    obtain ⟨l₃, hl₃⟩ := placed hk₃'
    obtain ⟨th₃, hth₃, -, hasks⟩ := logged_licence (disciplined_asks D) h₀.fresh h hl₃
    rw [show k₃.op = _ from congrArg Entry.op he₃] at hasks
    rw [hthread₃, hth] at hth₃
    cases hth₃
    obtain rfl : v' = req.workerId := hasks link connection req cwd hact
    exact ⟨k₃, hk₃', connection', cwd', he₃⟩
  · obtain ⟨d, -, hd⟩ := List.mem_map.mp ht
    cases hd
  · cases ht

/-- The channel of a process carries only what the log has it tell. -/
theorem opened_told (h₀ : Start c₀) (h : (fleet D).Reaches cond c₀ c) {p : ℕ}
    (he : WorkerEvent.sessionOpened id s ∈ (c.state.transport p).events) :
    ∃ k ∈ c.log, WorkerEvent.sessionOpened id s ∈ told k.entry := by
  have key : WorkerEvent.sessionOpened id s ∈ (c.state.transport p).events →
      ∃ k ∈ c.log, WorkerEvent.sessionOpened id s ∈ told k.entry := by
    apply h.invariant (P := fun c => WorkerEvent.sessionOpened id s ∈ (c.state.transport p).events →
      ∃ k ∈ c.log, WorkerEvent.sessionOpened id s ∈ told k.entry)
    · intro he
      rw [World.transport, h₀.pristine.process] at he
      cases he
    · intro c x c' _ _ hs ih he
      rcases step_told hs he with he | hi | ⟨k, hk, -, ht⟩
      · obtain ⟨k, hk, ht⟩ := ih he
        exact ⟨k, (step_log hs).subset hk, ht⟩
      · cases hi
      · rw [hk]
        exact ⟨k, List.mem_cons_self, ht⟩
  exact key he

theorem submitted_new (h₀ : Start c₀) (h : (fleet D).Reaches cond c₀ c) {i : ℕ}
    {th : Thread Op Resp ℕ Activity Output} {task : Task} (ht : c.threads[i]? = some th)
    (ha : th.act = .submit task) : IsNew task := by
  have key : ∀ (i : ℕ) (th : Thread Op Resp ℕ Activity Output), c.threads[i]? = some th →
      th.act = .submit task → IsNew task := by
    apply h.invariant (P := fun c => ∀ (i : ℕ) (th : Thread Op Resp ℕ Activity Output),
      c.threads[i]? = some th → th.act = .submit task → IsNew task)
    · intro i th ht
      rw [h₀.fresh.threads] at ht
      cases ht
    · intro c x c' _ _ hs ih i th ht ha
      rcases thread_origin hs ht with ⟨t₀, ht₀, -, ha₀⟩ | ⟨-, ⟨q, a, rfl, rfl, -⟩ | hspawn⟩
      · exact ih i t₀ ht₀ (ha₀.trans ha)
      · obtain rfl : a = .submit task := ha
        exact (mint_eq (step_start hs).1).1
      · obtain ⟨j, ch, op, r, a, hm, -, rfl⟩ := hspawn
        obtain rfl : a = .submit task := ha
        have hm' : Activity.submit task ∈ spawned op r.resp := hm
        unfold spawned at hm'
        split at hm'
        · cases List.mem_singleton.mp hm'
        · cases hm'
  exact key i th ht ha

/-- A row comes to name a session by the recording of it. -/
theorem effect_names {b : Backend} {st : StoreState} {o : StoreOp} {r : o.Reply} {row row' : Option Task}
    {t' : Task} (he : RowEffect b st id o r row row') (ht : row = some t) (ht' : row' = some t')
    (hs : t'.acpSessionId = some s) (hn : t.acpSessionId ≠ some s) : ∃ fence,
      (⟨.store o, r⟩ : Entry Op Resp) = ⟨.store (.recordTaskAcpSession id s fence), .ok true⟩ := by
  cases he with
  | same =>
    cases ht.symm.trans ht'
    exact absurd hs hn
  | inserted => cases ht
  | transition t₀ expected new fence origin hp hf =>
    cases ht
    cases ht'
    rw [(transition_rest new fence st.now _).2.1] at hs
    exact absurd hs hn
  | session t₀ sessionId fence _ hf =>
    cases ht
    cases ht'
    cases hs
    exact ⟨fence, rfl⟩
  | retried | skills =>
    cases ht
    cases ht'
    exact absurd hs hn
  | removed => cases ht'
  | orphaned t₀ other hi =>
    cases ht
    cases ht'
    rw [show (dropParent other t).acpSessionId = t.acpSessionId by unfold dropParent; split <;> rfl]
      at hs
    exact absurd hs hn

/-- A row names a session it did not name before, by the handling of the event that told of it. -/
theorem session_named (h₀ : Start c₀) (h : (fleet D).Reaches cond c₀ c)
    (hs : (fleet D).step c x = some c') {t' : Task} (ht' : c'.state.row id = some t')
    (hsession : t'.acpSessionId = some s) :
    (∃ t, c.state.row id = some t ∧ t.acpSessionId = some s) ∨
      ∃ (i : ℕ) (th : Thread Op Resp ℕ Activity Output), c.threads[i]? = some th ∧
        th.act = .workerEvent (.sessionOpened id s) := by
  cases ht : c.state.row id with
  | none =>
    exfalso
    cases row_appearance h₀.seeded h hs ht ht' with
    | submitted i ch task r hr ha hi hh hrow =>
      obtain ⟨-, -, hnone, -, -⟩ := submitted_new h₀ h r.was ha
      have hinserted : (D.backend.insertedRow (Dispatcher.routed D task)).acpSessionId = none := by
        cases D.backend with
        | mem => exact hnone
        | pg => rfl
      rw [hrow, hinserted] at hsession
      cases hsession
    | inserted hi hn hm =>
      rw [hn.2.2.1] at hsession
      cases hsession
  | some t =>
    by_cases hsame : t.acpSessionId = some s
    · exact .inl ⟨t, rfl, hsame⟩
    right
    cases row_change hs id with
    | kept _ hk =>
      rw [hk, ht] at ht'
      cases ht'
      exact absurd hsession hsame
    | called i ch o r he =>
      obtain ⟨fence, hr⟩ := effect_names he ht ht' hsession hsame
      obtain ⟨r', -, -, -⟩ := ran_as r hr
      exact ⟨i, _, r'.was, ran_licensed h₀.seeded h r'⟩
    | inserted t₀ hi hn hm hk =>
      have hid : t.id = id := Keyed.get_key ht
      exact absurd (rows_spent h₀.seeded h id t ht).1 hm

/-- The session a row names was opened at the worker the task was claimed for. -/
theorem session_opened (h₀ : Start c₀) (h : (fleet D).Reaches cond c₀ c)
    (ht : c.state.row id = some t) (hsession : t.acpSessionId = some s) :
    ∃ v, (∃ m ∈ c.log, Claimed id v m.entry) ∧ ∃ m ∈ c.log, OpenedFor v s m := by
  have key : ∀ t, c.state.row id = some t → t.acpSessionId = some s →
      ∃ v, (∃ m ∈ c.log, Claimed id v m.entry) ∧ ∃ m ∈ c.log, OpenedFor v s m := by
    apply h.invariant (P := fun c => ∀ t, c.state.row id = some t → t.acpSessionId = some s →
      ∃ v, (∃ m ∈ c.log, Claimed id v m.entry) ∧ ∃ m ∈ c.log, OpenedFor v s m)
    · intro t ht
      rw [World.row, h₀.pristine.tasks] at ht
      cases ht
    · intro c x c' hr _ hs ih t ht hsession
      have hlog := (step_log hs).subset
      have known : ∃ v, (∃ m ∈ c.log, Claimed id v m.entry) ∧ ∃ m ∈ c.log, OpenedFor v s m := by
        rcases session_named h₀ hr hs ht hsession with ⟨t₀, ht₀, hs₀⟩ | ⟨i, th, hth, ha⟩
        · exact ih t₀ ht₀ hs₀
        · obtain ⟨k, hk, htold⟩ := opened_told h₀ hr (handled_told h₀ hr hth ha)
          exact told_opened h₀ hr hk htold
      obtain ⟨v, ⟨m, hm, hc⟩, n, hn, ho⟩ := known
      exact ⟨v, ⟨m, hlog hm, hc⟩, n, hlog hn, ho⟩
  exact key t ht hsession

end Recorded

section Vanished

/-- The worker opened the session after the activity's last operation. -/
def OpenedSince (c : FleetConfig) (i : ℕ) (w : WorkerId) (s : SessionId) : Prop :=
  ∃ k l, k :: l <:+ c.log ∧ OpenedFor w s k ∧ history l i = history c.log i

/-- Whoever lists tasks right after asking their worker lists none whose session is newer than the
worker's answer. -/
def Abreast (c : FleetConfig) : FleetAction → Prop
  | .run i _ => ∀ filter w connection answer h t startedAt s,
      c.next i = some (.store (.listTasks filter)) →
      history c.log i = ⟨.acp (.askSessions w connection), answer⟩ :: h →
      c.state.row t.id = some t → t.status = .dispatched w startedAt → t.acpSessionId = some s →
        ¬ OpenedSince c i w s
  | _ => True

variable {D : Deployment} {cond : FleetConfig → FleetAction → Prop} {c₀ c c' : FleetConfig}
  {x : FleetAction} {id : TaskId} {v w : WorkerId} {s : SessionId} {t t' : Task} {i : ℕ}
  {startedAt : ℤ}

theorem opened_host (h₀ : Start c₀) (h : (fleet D).Reaches cond c₀ c) {k : Call Op Resp ℕ}
    (hk : k ∈ c.log) (ho : OpenedFor w s k) : s ∈ (c.state.host w).opened := by
  obtain ⟨connection, cwd, he⟩ := ho
  obtain ⟨c₁, c₂, ch, -, h₂, r, hr⟩ := logged_step h₀.seeded h hk
  obtain ⟨r', hr', -, -⟩ := ran_as r (hr.trans he)
  exact (run_hosts h₂ w).opened (ran_opens r' hr')

/-- The session a dispatched task's row names was opened by the task's own worker. -/
theorem recorded_opened (h₀ : Start c₀) (h : (fleet D).Reaches cond c₀ c)
    (ht : c.state.row id = some t) (hd : t.status = .dispatched w startedAt)
    (hs : t.acpSessionId = some s) : ∃ k ∈ c.log, OpenedFor w s k := by
  obtain ⟨v, ⟨m, hm, hc⟩, k, hk, ho⟩ := session_opened h₀ h ht hs
  obtain rfl : v = w := claimed_worker h₀ h hm hc ht hd
  exact ⟨k, hk, ho⟩

theorem listed_before (h₀ : Start c₀) (h : (fleet D).Reaches cond c₀ c)
    (hl : Listed t (history c.log i)) :
    ∃ c₁, (fleet D).Reaches cond c₀ c₁ ∧ (fleet D).Reaches cond c₁ c ∧
      c₁.state.row t.id = some t := by
  obtain ⟨filter, tasks, hm, ht⟩ := hl
  obtain ⟨h₁, hs⟩ := placed hm
  obtain ⟨c₁, c₂, ch, r, hr, -, hreach, hstep, hrest⟩ := h.at_history h₀.fresh hs
  refine ⟨c₁, hreach, hstep.trans hrest, ran_shows r ?_⟩
  rw [hr]
  exact ht

/-- A worker that was asked after it had opened the session, and did not name it, has let it go. -/
theorem missed_broken (h₀ : Start c₀) {c₁ c₂ : FleetConfig} (h : (fleet D).Reaches cond c₀ c₁)
    {ch : Choice} {connection : ℕ} {live : List SessionId}
    (r : (fleet D).Ran c₁ c₂ i ch (.acp (.askSessions w connection)))
    (hr : r.resp = .listed live false) (hrest : (fleet D).Reaches cond c₁ c)
    (ho : s ∈ (c₁.state.host w).opened) (hl : s ∉ live) : ¬ Unbroken (c.state.host w) s := by
  intro hu
  have hheld := hu.not_missing (accounted h₀ h w) (run_hosts hrest w) ho
  rw [← ran_asks r hr] at hheld
  exact hl hheld

theorem recovery_missed (h₀ : Start c₀) (h : (fleet D).Reaches Abreast c₀ c)
    (hm : MissedByRecovery id v s (history c.log i)) (ht : c.state.row id = some t)
    (hd : t.status = .dispatched w startedAt) :
    v = w ∧ t.acpSessionId = some s ∧ ¬ Unbroken (c.state.host v) s := by
  obtain ⟨h₁, connection, live, filter, tasks, task, hh, hlists, htask, rfl, hs, hlive⟩ := hm
  obtain ⟨c₁, c₂, ch, r, hr, hh₁, hreach, hcond, hstep, hrest⟩ := h.step_history h₀.fresh hh
  have hrow : c₁.state.row task.id = some task := by
    apply ran_shows r
    rw [hr]
    exact htask
  obtain ⟨hworker, hstatus⟩ : workerMatches filter task = true ∧ statusMatches filter task = true := by
    have hlogged : (⟨i, r.party, .store (.listTasks filter), r.resp⟩ : Call Op Resp ℕ) ∈ c₂.log := by
      rw [r.log]
      exact List.mem_cons_self
    apply listed_matches h₀ (hreach.tail _ hcond hstep) hlogged _ htask
    exact congrArg (Entry.mk _) hr
  obtain ⟨startedAt', hd₁⟩ := dispatched_to hlists hworker hstatus
  have hlater : (fleet D).Reaches Abreast c₁ c := (Reaches.single hcond hstep).trans hrest
  have hseen := seen_run h₀.seeded hreach hlater (seen_now h₀.seeded hreach hrow)
  obtain rfl : v = w := seen_same hseen hd₁ ht hd
  refine ⟨rfl, (hseen.2 t ht).session s hs, ?_⟩
  obtain ⟨k, hk, ho⟩ := recorded_opened h₀ hreach hrow hd₁ hs
  obtain ⟨l, hl⟩ := placed hk
  have hasked : ⟨.acp (.askSessions v connection), .listed live false⟩ :: h₁ <:+
      history c₁.log i := by
    rw [hh₁]
  obtain ⟨c₃, c₄, ch₃, r₃, hr₃, hh₃, hreach₃, hnext₃, hrest₃⟩ := hreach.at_history h₀.fresh hasked
  have hplace := hrest₃.log_suffix
  rw [r₃.log] at hplace
  rcases ordered hl hplace with ⟨rfl, -⟩ | hbefore | hafter
  · obtain ⟨connection', cwd, he⟩ := ho
    cases congrArg Entry.op he
  · have hopened := opened_host h₀ hreach₃ (hbefore.subset List.mem_cons_self) ho
    exact missed_broken h₀ hreach₃ r₃ hr₃ ((hnext₃.trans hrest₃).trans hlater) hopened hlive
  · exfalso
    apply hcond filter v connection (.listed live false) h₁ task startedAt' s r.next hh₁ hrow hd₁ hs
    refine ⟨k, l, hl, ho, ?_⟩
    have hin : history l i <:+ history c₁.log i :=
      history_suffix ((List.suffix_cons _ _).trans hl) i
    have hover := history_suffix hafter i
    rw [history_cons_self (⟨i, r₃.party, .acp (.askSessions v connection), r₃.resp⟩ :
      Call Op Resp ℕ), hh₃] at hover
    apply hin.eq_of_length_le
    rw [hh₁]
    exact hover.length_le

theorem sweep_missed (h₀ : Start c₀) (h : (fleet D).Reaches cond c₀ c)
    (hm : MissedBySweep id v s (history c.log i)) (ht : c.state.row id = some t)
    (hd : t.status = .dispatched w startedAt) :
    v = w ∧ t.acpSessionId = some s ∧ ¬ Unbroken (c.state.host v) s := by
  obtain ⟨h₁, connection, live, task, startedAt', hh, hlisted, rfl, hd₁, hs, hlive⟩ := hm
  obtain ⟨c₂, c₃, ch, r, hr, hh₂, hreach, hnext, hrest⟩ := h.at_history h₀.fresh hh
  rw [← hh₂] at hlisted
  obtain ⟨c₁, hreach₁, hlater₁, hrow⟩ := listed_before h₀ hreach hlisted
  have hlater : (fleet D).Reaches cond c₁ c := hlater₁.trans (hnext.trans hrest)
  have hseen := seen_run h₀.seeded hreach₁ hlater (seen_now h₀.seeded hreach₁ hrow)
  obtain rfl : v = w := seen_same hseen hd₁ ht hd
  refine ⟨rfl, (hseen.2 t ht).session s hs, ?_⟩
  obtain ⟨k, hk, ho⟩ := recorded_opened h₀ hreach₁ hrow hd₁ hs
  have hopened := (run_hosts hlater₁ v).opened (opened_host h₀ hreach₁ hk ho)
  exact missed_broken h₀ hreach r hr (hnext.trans hrest) hopened hlive

/-- A task fails for a vanished session only when its worker has let go of the session recorded for
it, where no recovery lists a session newer than the inventory it goes by. -/
theorem vanished_let_go (h₀ : Start c₀) (h : (fleet D).Reaches Abreast c₀ c)
    (hs : (fleet D).step c x = some c') (ht : c.state.row id = some t)
    (ht' : c'.state.row id = some t') (hn : t'.status ≠ t.status) {failure : TaskFailure}
    (hf : t'.status = .failed failure) (hk : failure.kind = .executionVanished)
    (hd : t.status = .dispatched w startedAt) (hsession : t.acpSessionId = some s) :
    ¬ Unbroken (c.state.host w) s := by
  have hid : t.id = id := Keyed.get_key ht
  have hm : t.id ∈ c.state.minted := hid ▸ (rows_spent h₀.seeded h id t ht).1
  obtain ⟨i, ch, expected, new, fence, origin, r, -, -, -, hnew, -⟩ := status_changed hs hm ht ht' hn
  obtain rfl : new = .failed failure := hnew.symm.trans hf
  obtain ⟨-, -, hgrounds⟩ := ran_licensed h₀.seeded h r
  rcases hgrounds with ⟨-, hkind⟩ | ⟨-, -, hmissed⟩
  · exact absurd hk hkind
  · obtain ⟨v, u, -, hrecovery | hsweep⟩ := hmissed hk
    · obtain ⟨rfl, hu, hbroken⟩ := recovery_missed h₀ h hrecovery ht hd
      rw [hsession] at hu
      cases hu
      exact hbroken
    · obtain ⟨rfl, hu, hbroken⟩ := sweep_missed h₀ h hsweep ht hd
      rw [hsession] at hu
      cases hu
      exact hbroken

/-- No task names a session when a worker's tasks are listed behind its answer. -/
def listsUnnamed (c : FleetConfig) : FleetAction → Bool
  | .run i _ =>
    match c.next i, history c.log i with
    | some (.store (.listTasks _)), ⟨.acp (.askSessions ..), _⟩ :: _ =>
      c.state.store.tasks.rows.all fun t => t.acpSessionId.isNone
    | _, _ => true
  | _ => true

theorem abreast_of_unnamed {x : FleetAction} (h : listsUnnamed c x = true) : Abreast c x := by
  cases x with
  | start p a => trivial
  | env d => trivial
  | run i ch =>
    intro filter w connection answer h₁ t startedAt s hn hh ht _ hs _
    simp only [listsUnnamed, hn, hh, List.all_eq_true] at h
    have hnone := h t (Keyed.get_eq_some.mp ht).1
    rw [hs] at hnone
    cases hnone

def soloOpens : Choice := { acp := { newSession := .opened "session", prompt := .finished none } }

/-- The worker loses the session of the first task, and a sweep that has asked it is about to say so. -/
def soloLost : List FleetAction :=
  soloHandOver ++ steps 1 4 soloOpens ++
    [.env (.pump 0 0), .start 0 (.workerEvent (.sessionOpened ⟨1⟩ "session"))] ++ steps 2 2 {} ++
    [.env (.loseSession ⟨0⟩ "session"), .env (.elapse 31000), .start 0 .reconcile] ++ steps 3 12 {}

set_option maxRecDepth 10000 in
theorem lost_session_vanished : ∃ c c' t t' failure, (fleet solo).Reaches Abreast initial c ∧
    (fleet solo).step c (.run 3 {}) = some c' ∧ c.state.row ⟨1⟩ = some t ∧
      c'.state.row ⟨1⟩ = some t' ∧ t'.status = .failed failure ∧
      failure.kind = .executionVanished ∧ ¬ Unbroken (c.state.host ⟨0⟩) "session" := by
  have hrun : (fleet solo).replayWhile listsUnnamed initial soloLost =
      some ((fleet solo).after initial soloLost) := rfl
  have hreach := (replayWhile_reaches hrun).mono fun _ _ hx => abreast_of_unnamed hx
  have hstep : (fleet solo).step ((fleet solo).after initial soloLost) (.run 3 {}) =
      some ((fleet solo).after initial (soloLost ++ [.run 3 {}])) := after_step rfl
  have hrow : (((fleet solo).after initial soloLost).state.row ⟨1⟩).map
      (fun t => (t.status, t.acpSessionId)) = some (.dispatched ⟨0⟩ 0, some "session") := rfl
  have hfailed : (((fleet solo).after initial (soloLost ++ [.run 3 {}])).state.row ⟨1⟩).map
      Task.status = some (.failed (Dispatcher.vanishedSessionFailure ⟨0⟩ "session")) := rfl
  obtain ⟨t, ht, hs⟩ := Option.map_eq_some_iff.mp hrow
  obtain ⟨t', ht', hf⟩ := Option.map_eq_some_iff.mp hfailed
  obtain ⟨hd, hsession⟩ := Prod.mk.inj hs
  have hn : t'.status ≠ t.status := by
    rw [hf, hd]
    exact TaskStatus.noConfusion
  exact ⟨_, _, t, t', _, hreach, hstep, ht, ht', hf, rfl,
    vanished_let_go initial_start hreach hstep ht ht' hn hf rfl hd hsession⟩

/-- A first dispatch has asked the worker; another one then opens a session for the second task,
which the first finds when it lists the worker's tasks. -/
def soloOvertaken : List FleetAction :=
  soloSetup ++ [.start 0 (.submit (soloTask 1 []))] ++ steps 0 19 {} ++
    [.start 0 (.submit (soloTask 2 []))] ++ steps 1 37 {} ++ steps 2 4 soloOpens ++
    [.env (.pump 0 0), .start 0 (.workerEvent (.sessionOpened ⟨2⟩ "session"))] ++ steps 3 2 {} ++
    steps 0 2 {}

set_option maxRecDepth 10000 in
/-- The second task fails as vanished, while its worker holds its session as it always did. -/
theorem held_session_vanished : ∃ c c' t t' startedAt failure,
    (fleet solo).Reaches always initial c ∧ (fleet solo).step c (.run 0 {}) = some c' ∧
      c.state.row ⟨2⟩ = some t ∧ t.status = .dispatched ⟨0⟩ startedAt ∧
      t.acpSessionId = some "session" ∧ c'.state.row ⟨2⟩ = some t' ∧ t'.status = .failed failure ∧
      failure.kind = .executionVanished ∧ Unbroken (c.state.host ⟨0⟩) "session" := by
  have hstep : (fleet solo).step ((fleet solo).after initial soloOvertaken) (.run 0 {}) =
      some ((fleet solo).after initial (soloOvertaken ++ [.run 0 {}])) := after_step rfl
  refine ⟨_, _, _, _, 0, _, after_reaches _, hstep, rfl, rfl, rfl, rfl, rfl, rfl, ?_, ?_⟩
  · exact List.mem_singleton_self _
  · exact List.not_mem_nil

end Vanished

end FleetOrchestrator.Scheduler
