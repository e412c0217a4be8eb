import FleetOrchestrator.Scheduler.Queues

/-! The barrier that stands between the last notification of a session and the result. -/

namespace FleetOrchestrator.Scheduler

open Core Store Transport Interleaving Machine

section Course

open Dispatcher AcpTransport

/-- A prompt's history once its text is sent, newest entry first. -/
def begun (link connection : ℕ) (req : DispatchRequest) (cwd : String) (s : SessionId)
    (q : ℕ) (started : ℤ) : History :=
  [⟨.acp (.sendPrompt req.workerId connection s req.prompt), ()⟩,
    ⟨.acp (.broadcast (.sessionOpened req.taskId s)), ()⟩,
    ⟨.acp (.insertSession link s req.taskId req.workerId), q⟩,
    ⟨.acp (.newSession req.workerId connection cwd), .opened s⟩, ⟨.process .utcNow, started⟩]

/-- What the barrier adds to it, once the answer is there. -/
def drained (link : ℕ) (s : SessionId) : Option ℕ → History
  | none => [⟨.acp (.lookupQueue link s), none⟩]
  | some q => [⟨.acp (.awaitFlush q), ()⟩, ⟨.acp (.sendFlush q), ()⟩,
      ⟨.acp (.lookupQueue link s), some q⟩]

/-- How far a prompt is when it does this. -/
def Courses (link connection : ℕ) (req : DispatchRequest) (cwd : String) (h : History) : Op → Prop
  | .acp (.insertSession l s _ _) => l = link ∧ ∃ started,
      h = [⟨.acp (.newSession req.workerId connection cwd), .opened s⟩, ⟨.process .utcNow, started⟩]
  | .acp (.awaitPrompt _ s) => ∃ own started, h = begun link connection req cwd s own started
  | .acp (.sendFlush q) => ∃ s own started reply, h = ⟨.acp (.lookupQueue link s), some q⟩ ::
      ⟨.acp (.awaitPrompt connection s), reply⟩ :: begun link connection req cwd s own started
  | .acp (.broadcast (.completed _ result)) => ∃ s own started reply found removed ended now,
      h = ⟨.process .utcNow, now⟩ :: ⟨.acp (.readOutput own), result.output⟩ ::
        ⟨.process .utcNow, ended⟩ :: ⟨.acp (.removeSession link s), removed⟩ ::
          (drained link s found ++ ⟨.acp (.awaitPrompt connection s), reply⟩ ::
            begun link connection req cwd s own started)
  | _ => True

def FlushesNone (op : Op) : Prop := ∀ q, op ≠ .acp (.sendFlush q)

variable {D : Deployment}

theorem promptTask_courses (link connection : ℕ) (req : DispatchRequest) (cwd : String) :
    Obeys (Courses link connection req cwd) (fun _ _ => True)
      (promptTask link connection req cwd) [] := by
  have told {h : History} (error : String) (observation : FailureObservation) :
      Obeys (Courses link connection req cwd) (fun _ _ => True) (failed req error observation) h :=
    obeys_perform trivial fun _ => trivial
  have flushed (s : SessionId) (own : ℕ) (started : ℤ) (reply : PromptReply) :
      Obeys (Courses link connection req cwd) (fun _ h' => ∃ found, h' = drained link s found ++
        ⟨.acp (.awaitPrompt connection s), reply⟩ :: begun link connection req cwd s own started)
        (flushSession link s) (⟨.acp (.awaitPrompt connection s), reply⟩ ::
          begun link connection req cwd s own started) := by
    refine obeys_step trivial fun queue => ?_
    cases queue with
    | none => exact obeys_ret ⟨none, rfl⟩
    | some q =>
      refine obeys_step ⟨s, own, started, reply, rfl⟩ fun sent => ?_
      exact obeys_perform trivial fun awaited => ⟨some q, rfl⟩
  have followed (started : ℤ) (reply : NewSessionReply) :
      Obeys (Courses link connection req cwd) (fun _ _ => True)
        (followSession link connection req started reply)
        [⟨.acp (.newSession req.workerId connection cwd), reply⟩, ⟨.process .utcNow, started⟩] := by
    cases reply with
    | refused message => exact told _ _
    | timedOut => exact told _ _
    | opened s =>
      refine obeys_step ⟨rfl, started, rfl⟩ fun own => ?_
      refine obeys_step trivial fun announced => ?_
      refine obeys_step trivial fun sent => ?_
      refine obeys_step ⟨own, started, rfl⟩ fun reply => ?_
      apply obeys_bind (flushed s own started reply)
      rintro u h' ⟨found, rfl⟩
      refine obeys_step trivial fun removed => ?_
      refine obeys_step trivial fun ended => ?_
      refine obeys_step trivial fun output => ?_
      cases reply with
      | finished usage =>
        refine obeys_step trivial fun now => ?_
        exact obeys_perform ⟨s, own, started, _, found, removed, ended, now, rfl⟩ fun _ => trivial
      | refused message =>
        cases removed with
        | true => exact told _ _
        | false => exact obeys_ret trivial
      | timedOut =>
        cases removed with
        | true => exact obeys_step trivial fun _ => told _ _
        | false => exact obeys_ret trivial
  refine obeys_step trivial fun started => ?_
  refine obeys_step trivial fun reply => ?_
  refine obeys_bind (followed started reply) fun _ _ _ => ?_
  exact obeys_perform trivial fun _ => trivial

theorem flushesNone_plain (op : Op) (ho : Plain op) : FlushesNone op := by
  rintro q rfl
  cases ho

theorem flushesNone_silent : Silent (fun {α} => @Uses Op Resp α FlushesNone) where
  toComposes := composes_uses.mono flushesNone_plain
  check _ := uses_perform fun _ => Op.noConfusion
  record _ _ := uses_perform fun _ => Op.noConfusion
  event _ := uses_perform fun _ => Op.noConfusion

theorem flushesNone_calls (D : Deployment) :
    Calls D (fun {α} => @Uses Op Resp α FlushesNone) := by
  have free {op : Op} (ho : FlushesNone op) : Uses FlushesNone (call op) := uses_perform ho
  have failed (id : TaskId) (expected : List TaskPhase) (failure : TaskFailure)
      (origin : TransitionOrigin) : Uses FlushesNone (markFailed id expected failure origin) :=
    markFailed_composed flushesNone_silent fun _ => free fun _ => Op.noConfusion
  have sent (req : DispatchRequest) : Uses FlushesNone (AcpTransport.dispatch req) :=
    acpDispatch_composed flushesNone_silent.toComposes (fun _ => free fun _ => by rintro ⟨⟩)
      (fun _ _ _ _ => free fun _ => by rintro ⟨⟩) (fun _ => free fun _ => by rintro ⟨⟩)
      (fun _ => free fun _ => by rintro ⟨⟩) req
  refine calls_of_decisions flushesNone_silent.toLenient (fun _ _ => free fun _ => Op.noConfusion)
    (fun _ => free fun _ => Op.noConfusion) (free fun _ => Op.noConfusion)
    (fun _ _ _ => free fun _ => by rintro ⟨⟩) failed
    (fun _ _ => markCompleted_composed flushesNone_silent fun _ => free fun _ => Op.noConfusion)
    (fun _ _ => writeCancelled_composed flushesNone_silent (free fun _ => Op.noConfusion)
      fun _ _ => free fun _ => Op.noConfusion) ?_
  intro cfg task w harness
  apply flushesNone_silent.andThen
  · exact claim_composed flushesNone_silent.toComposes (fun _ _ => free fun _ => Op.noConfusion) cfg
  · intro claimed
    exact handOver_composed flushesNone_silent (free fun _ => Op.noConfusion)
      (free fun _ => Op.noConfusion) sent (fun _ _ _ => failed _ _ _ _) task w harness

/-- Only the prompts send a barrier, and each keeps to its course. -/
theorem disciplined_courses (D : Deployment) : (fleet D).Disciplined
    (fun _ a h op => (∀ link connection req cwd, a = .prompt link connection req cwd →
        Courses link connection req cwd h op) ∧
      (∀ q, op = .acp (.sendFlush q) → ∃ link connection req cwd,
        a = .prompt link connection req cwd)) fun _ _ _ _ => True := by
  intro p a
  by_cases ha : ∃ link connection req cwd, a = .prompt link connection req cwd
  · obtain ⟨link, connection, req, cwd, rfl⟩ := ha
    have hcourses : Obeys (Courses link connection req cwd) (fun _ _ => True)
        (program D p (.prompt link connection req cwd)) [] :=
      obeys_bind (promptTask_courses link connection req cwd) fun _ _ _ => obeys_ret trivial
    refine obeys_mono hcourses (fun _ _ ho => ⟨?_, fun _ _ => ⟨_, _, _, _, rfl⟩⟩) fun _ _ _ => trivial
    rintro _ _ _ _ ⟨⟩
    exact ho
  · have hnone : Uses FlushesNone (program D p a) :=
      call_composed (flushesNone_calls D) p fun link connection req cwd he => ha ⟨_, _, _, _, he⟩
    refine obeys_conseq (obeys_of_uses hnone fun _ op ho => ⟨?_, ?_⟩) fun _ _ _ => trivial
    · intro link connection req cwd he
      exact absurd ⟨_, _, _, _, he⟩ ha
    · intro q he
      exact absurd he (ho q)

end Course

section Homes

variable {D : Deployment} {cond : FleetConfig → FleetAction → Prop} {c₀ c₁ c c' : FleetConfig}
  {p q link i : ℕ} {w : WorkerId} {s : SessionId} {id : TaskId}
  {th : Thread Op Resp ℕ Activity Output} {k : Call Op Resp ℕ} {l : FleetLog}

/-- What a prompt or a call has done since to the transport of its process. -/
theorem performed_since (h : (fleet D).Reaches cond c₁ c) (ht : c.threads[i]? = some th) {o : AcpOp}
    {a : o.Answer} {h' : History} (hs : (⟨.acp o, a⟩ : Entry Op Resp) :: h' <:+ history c.log i)
    (hn : (⟨.acp o, a⟩ : Entry Op Resp) ∉ history c₁.log i) (hp : th.party = p) :
    ∃ c₂ c₃ : FleetConfig, ∃ ch : Choice, (c₂.state.transport p).perform ch.acp c₂.state.host o =
        some (a, c₃.state.transport p) ∧ history c₂.log i = h' ∧
      (∃ t, c₂.threads[i]? = some t ∧ t.party = p) ∧ (fleet D).Reaches cond c₁ c₂ ∧
      (fleet D).Reaches cond c₂ c₃ ∧ (fleet D).Reaches cond c₃ c := by
  subst hp
  obtain ⟨c₂, c₃, ch, r, hr, hp, hh, h₁, h₂, h₃⟩ := h.done_since ht hs hn
  have hperform := exec_transport (ran_exec r)
  rw [hp, show r.resp = a from hr] at hperform
  exact ⟨c₂, c₃, ch, hperform, hh, ⟨_, r.was, hp⟩, h₁, h₂, h₃⟩

theorem homed (h₀ : Start c₀) (h : (fleet D).Reaches cond c₀ c) (p : ℕ) :
    Homed (c.state.transport p) := by
  apply h.invariant (P := fun c => Homed (c.state.transport p))
  · rw [World.transport, h₀.pristine.process]
    rintro w link ⟨⟩
  · intro c x c' _ _ hs ih
    rcases transport_step hs p with ho | ⟨i, ch, o, rfl, r, -, hperform⟩
    · exact outside_homed ho ih
    · exact perform_homed hperform ih

theorem home_run (h : (fleet D).Reaches cond c c') (hh : home (c.state.transport p) link = some w) :
    home (c'.state.transport p) link = some w := by
  apply h.invariant (P := fun c => home (c.state.transport p) link = some w) hh
  intro c x c' _ _ hs ih
  rcases transport_step hs p with ho | ⟨i, ch, o, rfl, r, -, hperform⟩
  · exact outside_home ho ih
  · exact (perform_home hperform).trans ih

/-- A prompt runs over a connection of the worker it was handed to. -/
theorem prompt_home (h₀ : Start c₀) (h : (fleet D).Reaches cond c₀ c)
    (ht : c.threads[i]? = some th) {connection : ℕ} {req : DispatchRequest} {cwd : String}
    (ha : th.act = .prompt link connection req cwd) :
    home (c.state.transport th.party) link = some req.workerId := by
  obtain ⟨k, hk, hp, ho⟩ := prompt_spawned h₀ h ht ha
  obtain ⟨l, hl⟩ := placed hk
  obtain ⟨t, htk, hparty, hlic⟩ := logged_licensed h₀.seeded h hl
  rw [ho] at hlic
  obtain ⟨h₁, hg⟩ := hlic
  have hbefore : history l k.thread <:+ history c.log k.thread :=
    history_suffix ((List.suffix_cons k l).trans hl) _
  obtain ⟨c₁, c₂, ch, hperform, -, -, hreach, hstep, hrest⟩ :=
    performed_since h htk (hg.suffix.trans hbefore) (by rw [h₀.fresh.log]; simp) rfl
  have hcheck : (c₁.state.transport t.party).dispatchCheck req = .ok (link, cwd) :=
    congrArg Prod.fst (Option.some.inj hperform)
  unfold TransportState.dispatchCheck at hcheck
  split at hcheck
  · cases hcheck
  · split at hcheck
    · cases hcheck
    · next j hj =>
      cases hcheck
      rw [← hp, ← hparty]
      exact home_run (hstep.trans hrest) (homed h₀ hreach t.party _ _ hj)

theorem ran_anew {ch : Choice} {connection : ℕ} {cwd : String}
    (r : (fleet D).Ran c c' i ch (.acp (.newSession w connection cwd)))
    (hr : r.resp = .opened s) : s ∉ (c.state.host w).opened := by
  obtain ⟨w₁, t, hh, hp, -⟩ := exec_acp (ran_exec r)
  have hopened : ch.acp.newSession = .opened s := (congrArg Prod.fst (Option.some.inj hp)).trans hr
  simp only [hostEffect, hopened, Option.map_eq_some_iff] at hh
  obtain ⟨u, hu, -⟩ := hh
  unfold Host.openSession at hu
  split at hu
  · cases hu
  · next hc => exact fun hin => hc (List.contains_iff_mem.mpr hin)

/-- A worker opens no session twice. -/
theorem opened_once (h₀ : Start c₀) (h : (fleet D).Reaches cond c₀ c) (w : WorkerId)
    (s : SessionId) : Once (OpenedFor w s) c.log := by
  intro k l hk ho k' hk' ho'
  obtain ⟨c₁, c₂, ch, hreach, -, -, rfl, ⟨r, -, hr⟩, -⟩ := h.at_call h₀.fresh hk
  obtain ⟨connection, cwd, he⟩ := ho
  have hentry : (⟨k.op, r.resp⟩ : Entry Op Resp) = ⟨.acp (.newSession w connection cwd), .opened s⟩ := by
    rw [hr]
    exact he
  obtain ⟨r', hr', -, -⟩ := ran_as r hentry
  exact ran_anew r' hr' (opened_host h₀ hreach hk' ho')

end Homes

section Entries

variable {D : Deployment} {cond : FleetConfig → FleetAction → Prop} {c₀ c c' : FleetConfig}
  {p q link i : ℕ} {w : WorkerId} {s : SessionId} {id : TaskId}
  {th : Thread Op Resp ℕ Activity Output} {k : Call Op Resp ℕ} {l : FleetLog}

def Enters (p link : ℕ) (s : SessionId) (k : Call Op Resp ℕ) : Prop :=
  k.party = p ∧ ∃ id w, k.op = .acp (.insertSession link s id w)

/-- The session was entered under this queue. -/
def Answers (p q : ℕ) (k : Call Op Resp ℕ) : Prop :=
  k.party = p ∧ ∃ link s id w, k.entry = ⟨.acp (.insertSession link s id w), q⟩

theorem entered_opened (h₀ : Start c₀) (h : (fleet D).Reaches cond c₀ c) (hk : k :: l <:+ c.log)
    (he : Enters p link s k) : ∃ w, home (c.state.transport p) link = some w ∧
      (∃ m ∈ l, m.thread = k.thread ∧ OpenedFor w s m) ∧
      ∀ e ∈ history l k.thread, ∀ i s id w, e.op ≠ .acp (.insertSession i s id w) := by
  obtain ⟨rfl, id, w, ho⟩ := he
  obtain ⟨t, ht, hparty, hlic⟩ := logged_licensed h₀.seeded h hk
  rw [ho] at hlic
  obtain ⟨connection, req, cwd, hact, -⟩ := hlic
  obtain ⟨t', ht', -, hcourse, -⟩ := logged_licence (disciplined_courses D) h₀.fresh h hk
  rw [ht] at ht'
  cases ht'
  have hown := hcourse link connection req cwd hact
  rw [ho] at hown
  obtain ⟨-, started, hh⟩ := hown
  refine ⟨req.workerId, hparty ▸ prompt_home h₀ h ht hact, ?_, ?_⟩
  · have hin : (⟨.acp (.newSession req.workerId connection cwd), .opened s⟩ : Entry Op Resp) ∈
        history l k.thread := by
      rw [hh]
      exact List.mem_cons_self
    obtain ⟨m, hm, hthread, hentry⟩ := mem_history.mp hin
    exact ⟨m, hm, hthread, connection, cwd, hentry⟩
  · intro e hin i s id w
    rw [hh] at hin
    simp only [List.mem_cons, List.not_mem_nil, or_false] at hin
    rcases hin with rfl | rfl
    · rintro ⟨⟩
    · exact Op.noConfusion

/-- Over one connection a session is entered once. -/
theorem entered_once (h₀ : Start c₀) (h : (fleet D).Reaches cond c₀ c) (p link : ℕ)
    (s : SessionId) : Once (Enters p link s) c.log := by
  intro k l hk he k' hk' he'
  obtain ⟨l', hl'⟩ := placed hk'
  have hl : l <:+ c.log := (List.suffix_cons k l).trans hk
  obtain ⟨w, hw, ⟨m, hm, hthread, ho⟩, hnone⟩ := entered_opened h₀ h hk he
  obtain ⟨w', hw', ⟨m', hm', hthread', ho'⟩, -⟩ := entered_opened h₀ h (hl'.trans hl) he'
  obtain rfl : w = w' := Option.some.inj (hw.symm.trans hw')
  have hlog' : m' ∈ c.log := hl.subset (hl'.subset (List.mem_cons_of_mem _ hm'))
  obtain rfl : m = m' := (opened_once h₀ h w s).eq (hl.subset hm) hlog' ho ho'
  obtain ⟨-, id, v, hop⟩ := he'
  have hin : k'.entry ∈ history l k.thread :=
    mem_history.mpr ⟨k', hk', hthread'.symm.trans hthread, rfl⟩
  exact hnone _ hin _ _ _ _ hop

/-- A session in flight was entered under its queue. -/
theorem session_entered (h₀ : Start c₀) (h : (fleet D).Reaches cond c₀ c) :
    ∀ e ∈ sessionsOf (c.state.transport p) link, ∃ k ∈ c.log, k.party = p ∧
      ∃ w, k.entry = ⟨.acp (.insertSession link e.sessionId e.taskId w), e.queue⟩ := by
  apply h.invariant (P := fun c => ∀ e ∈ sessionsOf (c.state.transport p) link, ∃ k ∈ c.log,
    k.party = p ∧ ∃ w, k.entry = ⟨.acp (.insertSession link e.sessionId e.taskId w), e.queue⟩)
  · rw [World.transport, h₀.pristine.process]
    rintro e ⟨⟩
  · intro c x c' _ _ hs ih e he
    have known (hold : e ∈ sessionsOf (c.state.transport p) link) : ∃ k ∈ c'.log, k.party = p ∧
        ∃ w, k.entry = ⟨.acp (.insertSession link e.sessionId e.taskId w), e.queue⟩ := by
      obtain ⟨k, hk, hrest⟩ := ih e hold
      exact ⟨k, (step_log hs).subset hk, hrest⟩
    rcases transport_step hs p with ho | ⟨i, ch, o, rfl, r, hp, hperform⟩
    · exact known (outside_sessions ho ▸ he)
    · rcases perform_sessions hperform he with hold | ⟨w, hentry⟩
      · exact known hold
      · rw [r.log]
        exact ⟨_, List.mem_cons_self, hp, w, hentry⟩

theorem ids_step {x : FleetAction} (hs : (fleet D).step c x = some c') (p : ℕ) :
    (c.state.transport p).queues.map NotifyQueue.taskId <+:
      (c'.state.transport p).queues.map NotifyQueue.taskId := by
  rcases transport_step hs p with ho | ⟨i, ch, o, rfl, r, -, hperform⟩
  · rw [outside_ids ho]
  · rcases perform_ids hperform with hsame | ⟨link, s, id, w, -, hnew⟩
    · rw [hsame]
    · rw [hnew]
      exact List.prefix_append _ _

theorem ids_run (h : (fleet D).Reaches cond c c') (p : ℕ) :
    (c.state.transport p).queues.map NotifyQueue.taskId <+:
      (c'.state.transport p).queues.map NotifyQueue.taskId := by
  apply h.invariant (P := fun c' => (c.state.transport p).queues.map NotifyQueue.taskId <+:
    (c'.state.transport p).queues.map NotifyQueue.taskId) (List.prefix_refl _)
  exact fun _ _ _ _ _ hs ih => ih.trans (ids_step hs p)

/-- Once a session is entered, its queue is there and is the task's. -/
theorem entered_queue (h₀ : Start c₀) (h : (fleet D).Reaches cond c₀ c) (hk : k ∈ c.log)
    (he : k.entry = ⟨.acp (.insertSession link s id w), q⟩) :
    ((c.state.transport k.party).queues.map NotifyQueue.taskId)[q]? = some id := by
  obtain ⟨l, hl⟩ := placed hk
  obtain ⟨t, ht, hparty⟩ := logged_party h₀.fresh h k hk
  obtain ⟨c₁, c₂, ch, hperform, -, -, -, -, hrest⟩ :=
    performed_since h ht (he ▸ history_at hl) (by rw [h₀.fresh.log]; simp) rfl
  obtain ⟨hq, hqueues⟩ := insert_queue hperform
  have hthen : ((c₂.state.transport t.party).queues.map NotifyQueue.taskId)[q]? = some id := by
    rw [hqueues, hq, List.getElem?_map, List.getElem?_append_right (Nat.le_refl _), Nat.sub_self]
    rfl
  rw [← hparty]
  obtain ⟨more, hmore⟩ := ids_run hrest t.party
  rw [← hmore, List.getElem?_append_left (List.getElem?_eq_some_iff.mp hthen).1]
  exact hthen

theorem answered_once (h₀ : Start c₀) (h : (fleet D).Reaches cond c₀ c) (p q : ℕ) :
    Once (Answers p q) c.log := by
  rintro k l hk ⟨rfl, link, s, id, w, he⟩ k' hk' ⟨hp, link', s', id', w', he'⟩
  obtain ⟨c₁, c₂, ch, h₁, -, -, rfl, ⟨r, hparty, hr⟩, -⟩ := h.at_call h₀.fresh hk
  have hentry : (⟨k.op, r.resp⟩ : Entry Op Resp) = ⟨.acp (.insertSession link s id w), q⟩ := by
    rw [hr]
    exact he
  obtain ⟨r', hr', hp', -⟩ := ran_as r hentry
  have hperform := exec_transport (ran_exec r')
  rw [hr'] at hperform
  have hfull : q = (c₁.state.transport r'.party).queues.length := (insert_queue hperform).1
  have hthere := (List.getElem?_eq_some_iff.mp (entered_queue h₀ h₁ hk' he')).1
  rw [List.length_map, hp, ← hparty, ← hp', ← hfull] at hthere
  exact Nat.lt_irrefl q hthere

end Entries

section Barriers

variable {D : Deployment} {cond : FleetConfig → FleetAction → Prop} {c₀ c₁ c₂ c c' : FleetConfig}
  {p q link connection i : ℕ} {s : SessionId} {id : TaskId} {u : NotifyQueue} {text : List Char}
  {th : Thread Op Resp ℕ Activity Output} {k : Call Op Resp ℕ} {l : FleetLog}

def Flushes (p q : ℕ) (k : Call Op Resp ℕ) : Prop := k.party = p ∧ k.op = .acp (.sendFlush q)

/-- What a worker tells of its sessions is never taken for a barrier. -/
def Unfeigned (_ : FleetConfig) (x : FleetAction) : Prop := ¬ Notifies x .flush

theorem lookup_entry {t t' : TransportState} {a : AcpChoice} {hosts : WorkerId → Host}
    (hp : t.perform a hosts (.lookupQueue link s) = some (some q, t')) :
    ∃ e ∈ sessionsOf t link, e.sessionId = s ∧ e.queue = q := by
  have hfound := congrArg Prod.fst (Option.some.inj hp)
  obtain ⟨e, he, rfl⟩ := Option.map_eq_some_iff.mp hfound
  obtain ⟨m, hm, hfind⟩ := Option.bind_eq_some_iff.mp he
  have hs := List.find?_some hfind
  refine ⟨e, ?_, by simpa using hs, rfl⟩
  rw [sessionsOf, hm]
  exact List.mem_of_find?_eq_some hfind

theorem begun_entered (req : DispatchRequest) (cwd : String) (started : ℤ) :
    (⟨.acp (.insertSession link s req.taskId req.workerId), q⟩ : Entry Op Resp) ∈
      begun link connection req cwd s q started :=
  List.mem_cons_of_mem _ (List.mem_cons_of_mem _ List.mem_cons_self)

/-- A prompt puts its barrier into the queue its own session was entered under. -/
theorem flush_own (h₀ : Start c₀) (h : (fleet D).Reaches cond c₀ c) (hk : k :: l <:+ c.log)
    (hf : k.op = .acp (.sendFlush q)) : ∃ link connection req cwd s started reply,
      history l k.thread = ⟨.acp (.lookupQueue link s), some q⟩ ::
        ⟨.acp (.awaitPrompt connection s), reply⟩ ::
          begun link connection req cwd s q started := by
  obtain ⟨th, hth, hparty, hcourse, hprompt⟩ :=
    logged_licence (disciplined_courses D) h₀.fresh h hk
  obtain ⟨link, connection, req, cwd, hact⟩ := hprompt q hf
  have hown := hcourse link connection req cwd hact
  rw [hf] at hown
  obtain ⟨s, own, started, reply, hh⟩ := hown
  have hbefore : history l k.thread <:+ history c.log k.thread :=
    history_suffix ((List.suffix_cons k l).trans hk) _
  obtain ⟨c₁, c₂, ch, hperform, hh₁, -, hreach, hstep, hrest⟩ :=
    performed_since h hth (hh ▸ hbefore) (by rw [h₀.fresh.log]; simp) rfl
  obtain ⟨e, he, hs, hq⟩ := lookup_entry hperform
  obtain ⟨m, hm, hmp, w, hme⟩ := session_entered h₀ hreach e he
  have hin : (⟨.acp (.insertSession link s req.taskId req.workerId), own⟩ : Entry Op Resp) ∈
      history c₁.log k.thread := by
    rw [hh₁]
    exact List.mem_cons_of_mem _ (begun_entered req cwd started)
  obtain ⟨n, hn, hnt, hne⟩ := mem_history.mp hin
  have hlater := (hstep.trans hrest).log_suffix.subset
  obtain ⟨t, ht, hnp⟩ := logged_party h₀.fresh h n (hlater hn)
  rw [hnt, hth] at ht
  cases ht
  have hentered : Enters th.party link s m := ⟨hmp, e.taskId, w, hs ▸ congrArg Entry.op hme⟩
  have hentered' : Enters th.party link s n := ⟨hnp.symm, _, _, congrArg Entry.op hne⟩
  obtain rfl : m = n := (entered_once h₀ hreach _ _ _).eq hm hn hentered hentered'
  rw [hme] at hne
  have hsame : e.queue = own := eq_of_heq (Entry.mk.inj hne).2
  rw [hq] at hsame
  subst hsame
  exact ⟨link, connection, req, cwd, s, started, reply, hh⟩

/-- A queue holds one barrier in its life. -/
theorem flushed_once (h₀ : Start c₀) (h : (fleet D).Reaches cond c₀ c) (p q : ℕ) :
    Once (Flushes p q) c.log := by
  have owner {k : Call Op Resp ℕ} {l : FleetLog} (hk : k :: l <:+ c.log) (hf : Flushes p q k) :
      (∃ m ∈ c.log, m.thread = k.thread ∧ Answers p q m) ∧
        ∀ e ∈ history l k.thread, e.op ≠ .acp (.sendFlush q) := by
    obtain ⟨hp, ho⟩ := hf
    obtain ⟨link, connection, req, cwd, s, started, reply, hh⟩ := flush_own h₀ h hk ho
    constructor
    · have hin : (⟨.acp (.insertSession link s req.taskId req.workerId), q⟩ : Entry Op Resp) ∈
          history l k.thread := by
        rw [hh]
        exact List.mem_cons_of_mem _ (List.mem_cons_of_mem _ (begun_entered req cwd started))
      obtain ⟨m, hm, hmt, hme⟩ := mem_history.mp hin
      have hm' : m ∈ c.log := hk.subset (List.mem_cons_of_mem _ hm)
      obtain ⟨t, ht, htp⟩ := logged_party h₀.fresh h m hm'
      obtain ⟨t', ht', htp'⟩ := logged_party h₀.fresh h k (hk.subset List.mem_cons_self)
      rw [hmt, ht'] at ht
      cases ht
      exact ⟨m, hm', hmt, htp.symm.trans (htp'.trans hp), link, s, _, _, hme⟩
    · intro e he
      simp only [hh, begun, List.mem_cons, List.not_mem_nil, or_false] at he
      rcases he with rfl | rfl | rfl | rfl | rfl | rfl | rfl <;> rintro ⟨⟩
  intro k l hk hf k' hk' hf'
  obtain ⟨l', hl'⟩ := placed hk'
  obtain ⟨⟨m, hm, hthread, ha⟩, hnone⟩ := owner hk hf
  obtain ⟨⟨m', hm', hthread', ha'⟩, -⟩ :=
    owner (hl'.trans ((List.suffix_cons k l).trans hk)) hf'
  obtain rfl : m = m' := (answered_once h₀ h p q).eq hm hm' ha ha'
  have hin : k'.entry ∈ history l k.thread :=
    mem_history.mpr ⟨k', hk', hthread'.symm.trans hthread, rfl⟩
  exact hnone _ hin hf'.2

theorem queue_step {x : FleetAction} (hs : (fleet D).step c x = some c') (p : ℕ)
    (hu : (c.state.transport p).queues[q]? = some u) : ∃ new u',
      (c'.state.transport p).queues[q]? = some u' ∧ Turned new u u' ∧
        (.flush ∈ new → Notifies x .flush ∨ ∃ k ∈ c'.log, Flushes p q k) := by
  rcases transport_step hs p with ho | ⟨i, ch, o, rfl, r, hp, hperform⟩
  · obtain ⟨new, u', hu', ht, hn⟩ := outside_turned ho hu
    exact ⟨new, u', hu', ht, fun hm => .inl (hn _ hm)⟩
  · obtain ⟨new, u', hu', ht, hn⟩ := perform_turned hperform hu
    refine ⟨new, u', hu', ht, fun hm => .inr ⟨⟨i, r.party, .acp o, r.resp⟩, ?_, hp, ?_⟩⟩
    · rw [r.log]
      exact List.mem_cons_self
    · exact congrArg Op.acp (hn _ hm)

theorem queue_run {P : NotifyQueue → Prop} (h : (fleet D).Reaches cond c c')
    (hstep : ∀ new u u', Turned new u u' → P u → P u')
    (hu : (c.state.transport p).queues[q]? = some u) (hP : P u) :
    ∃ u', (c'.state.transport p).queues[q]? = some u' ∧ P u' := by
  apply h.invariant (P := fun c => ∃ u, (c.state.transport p).queues[q]? = some u ∧ P u) ⟨u, hu, hP⟩
  rintro c x c' - - hs ⟨u, hu, hP⟩
  obtain ⟨new, u', hu', ht, -⟩ := queue_step hs p hu
  exact ⟨u', hu', hstep new u u' ht hP⟩

/-- A queue that comes with a step is empty. -/
theorem queue_new {x : FleetAction} (hs : (fleet D).step c x = some c') (p : ℕ)
    (hn : (c.state.transport p).queues[q]? = none)
    (hu : (c'.state.transport p).queues[q]? = some u) : ¬ HasBarrier u := by
  have there : q < ((c'.state.transport p).queues.map NotifyQueue.taskId).length := by
    rw [List.length_map]
    exact (List.getElem?_eq_some_iff.mp hu).1
  have absent : ¬ q < ((c.state.transport p).queues.map NotifyQueue.taskId).length := by
    rw [List.length_map, Nat.not_lt]
    exact List.getElem?_eq_none_iff.mp hn
  rcases transport_step hs p with ho | ⟨i, ch, o, rfl, r, -, hperform⟩
  · exact absurd (outside_ids ho ▸ there) absent
  · rcases perform_ids hperform with hsame | ⟨link, s, id, w, rfl, -⟩
    · exact absurd (hsame ▸ there) absent
    · obtain ⟨-, hqueues⟩ := insert_queue hperform
      rw [hqueues, List.getElem?_append_right (List.getElem?_eq_none_iff.mp hn)] at hu
      obtain rfl := List.mem_singleton.mp (List.mem_of_getElem? hu)
      rintro (⟨⟨⟩⟩ | ⟨⟨⟩⟩)

theorem barred_flushed (h₀ : Start c₀) (h : (fleet D).Reaches Unfeigned c₀ c) (p : ℕ) :
    ∀ (q : ℕ) u, (c.state.transport p).queues[q]? = some u → HasBarrier u →
      ∃ k ∈ c.log, Flushes p q k := by
  apply h.invariant (P := fun c => ∀ (q : ℕ) u, (c.state.transport p).queues[q]? = some u →
    HasBarrier u → ∃ k ∈ c.log, Flushes p q k)
  · intro q u hu
    rw [World.transport, h₀.pristine.process] at hu
    cases hu
  · intro c x c' _ hx hs ih q u' hu' hb
    cases hq : (c.state.transport p).queues[q]? with
    | none => exact absurd hb (queue_new hs p hq hu')
    | some u =>
      obtain ⟨new, u'', hu'', ht, hn⟩ := queue_step hs p hq
      obtain rfl : u' = u'' := Option.some.inj (hu'.symm.trans hu'')
      rcases ht.barred hb with hold | hm
      · obtain ⟨k, hk, hf⟩ := ih q u hq hold
        exact ⟨k, (step_log hs).subset hk, hf⟩
      · exact (hn hm).resolve_left hx

theorem events_run (h : (fleet D).Reaches cond c c') (p : ℕ) :
    (c.state.transport p).events <+: (c'.state.transport p).events := by
  apply h.invariant (P := fun c' => (c.state.transport p).events <+: (c'.state.transport p).events)
    (List.prefix_refl _)
  intro c₁ x c₂ _ _ hs ih
  obtain ⟨new, hstreams, -⟩ := step_streams hs p
  cases hstreams with
  | told _ he _ =>
    rw [he]
    exact ih.trans (List.prefix_append _ _)
  | followed he _ => rwa [he]

theorem queue_of_id {t : TransportState}
    (h : (t.queues.map NotifyQueue.taskId)[q]? = some id) :
    ∃ u, t.queues[q]? = some u ∧ u.taskId = id := by
  rw [List.getElem?_map] at h
  exact Option.map_eq_some_iff.mp h

theorem arrived_run (h : (fleet D).Reaches cond c c') (p : ℕ)
    (hu : (c'.state.transport p).queues[q]? = some u) :
    arrived (c.state.transport p) q <+: said u := by
  unfold arrived
  cases hq : (c.state.transport p).queues[q]? with
  | none => exact List.nil_prefix
  | some v =>
    obtain ⟨u', hu', hpre⟩ := queue_run (P := fun u => said v <+: said u) h
      (fun _ _ _ ht hs => hs.trans ht.said) hq (List.prefix_refl _)
    rw [hu] at hu'
    cases hu'
    exact hpre

/-- What is put behind a barrier that holds is in the queue's buffer when the barrier is over. -/
theorem barrier_holds (h : (fleet D).Reaches cond c₁ c) {a : AcpChoice} {hosts : WorkerId → Host}
    {t' : TransportState} (hu : (c₁.state.transport p).queues[q]? = some u) (hb : Behind text u)
    (hp : (c.state.transport p).perform a hosts (.awaitFlush q) = some ((), t')) :
    ∃ u', (c.state.transport p).queues[q]? = some u' ∧ text <+: u'.outputBuf.toList := by
  obtain ⟨u', hu', hb'⟩ := queue_run (P := Behind text) h (fun _ _ _ ht hs => ht.behind hs) hu hb
  refine ⟨u', hu', hb'.over ?_⟩
  simp only [TransportState.perform, hu', Option.map_some, Option.getD_some] at hp
  by_contra hf
  rw [if_neg hf] at hp
  cases hp

/-- A prompt that completes behind a barrier put it into its own queue once it was answered, waited
for it, and read the queue's buffer then. -/
theorem completed_course (h₀ : Start c₀) (h₂ : (fleet D).Reaches cond c₀ c₂)
    (hrun : (fleet D).Reaches cond c₂ c) {ch : Choice} {result : TaskResult}
    (r : (fleet D).Ran c c' i ch (.acp (.broadcast (.completed id result))))
    (hq : (⟨.acp (.sendFlush q), ()⟩ : Entry Op Resp) ∈ history c.log i)
    (hn : ∀ e ∈ history c₂.log i, ∀ q, e.op ≠ .acp (.sendFlush q) ∧ e.op ≠ .acp (.awaitFlush q) ∧
      e.op ≠ .acp (.readOutput q)) :
    ∃ c₃ c₃' c₄ c₅ : FleetConfig, ∃ ch₃ ch₄ ch₅ : Choice, ∃ t₄ t₅ link s w,
      (c₃.state.transport r.party).perform ch₃.acp c₃.state.host (.sendFlush q) =
        some ((), c₃'.state.transport r.party) ∧
      (c₄.state.transport r.party).perform ch₄.acp c₄.state.host (.awaitFlush q) = some ((), t₄) ∧
      (c₅.state.transport r.party).perform ch₅.acp c₅.state.host (.readOutput q) =
        some (result.output, t₅) ∧
      (∀ e ∈ history c₃.log i, e.op ≠ .acp (.sendFlush q)) ∧
      (⟨i, r.party, .acp (.insertSession link s id w), q⟩ : Call Op Resp ℕ) ∈ c₃.log ∧
      (fleet D).Reaches cond c₂ c₃ ∧ (fleet D).Reaches cond c₃ c₃' ∧
      (fleet D).Reaches cond c₃' c₄ ∧ (fleet D).Reaches cond c₄ c₅ ∧ (fleet D).Reaches cond c₅ c := by
  have h : (fleet D).Reaches cond c₀ c := h₂.trans hrun
  obtain ⟨link, connection, req, cwd, hact, rfl, -⟩ := r.licensed (fleet_disciplined D) h₀.fresh h
  obtain ⟨s, own, started, reply, found, removed, ended, now, hh⟩ :=
    (r.licensed (disciplined_courses D) h₀.fresh h).1 link connection req cwd hact
  obtain rfl : found = some q := by
    cases found with
    | none => simp [hh, drained, begun] at hq
    | some q' =>
      obtain rfl : q = q' := by simpa [hh, drained, begun] using hq
      rfl
  generalize hb : (⟨.acp (.lookupQueue link s), some q⟩ ::
      ⟨.acp (.awaitPrompt connection s), reply⟩ :: begun link connection req cwd s own started :
        History) = before
  have hread : ⟨.acp (.readOutput own), result.output⟩ :: ⟨.process .utcNow, ended⟩ ::
      ⟨.acp (.removeSession link s), removed⟩ :: ⟨.acp (.awaitFlush q), ()⟩ ::
        ⟨.acp (.sendFlush q), ()⟩ :: before <:+ history c.log i := by
    rw [hh, ← hb]
    exact List.suffix_cons _ _
  obtain ⟨c₅, c₅', ch₅, hp₅, hh₅, ⟨t₅, ht₅, hparty₅⟩, h₂₅, h₅, h₅c⟩ :=
    performed_since hrun r.was hread (fun hin => (hn _ hin own).2.2 rfl) rfl
  have hawait : ⟨.acp (.awaitFlush q), ()⟩ :: ⟨.acp (.sendFlush q), ()⟩ :: before <:+
      history c₅.log i := by
    rw [hh₅]
    exact ⟨[_, _], rfl⟩
  obtain ⟨c₄, c₄', ch₄, hp₄, hh₄, ⟨t₄, ht₄, hparty₄⟩, h₂₄, h₄, h₄₅⟩ :=
    performed_since h₂₅ ht₅ hawait (fun hin => (hn _ hin q).2.1 rfl) hparty₅
  have hflush : ⟨.acp (.sendFlush q), ()⟩ :: before <:+ history c₄.log i := hh₄ ▸ List.suffix_rfl
  obtain ⟨c₃, c₃', ch₃, hp₃, hh₃, ⟨t₃, ht₃, hparty₃⟩, h₂₃, h₃, h₃₄⟩ :=
    performed_since h₂₄ ht₄ hflush (fun hin => (hn _ hin q).1 rfl) hparty₄
  -- the queue it reads is the one the barrier was put into
  obtain ⟨k, l, hk, hthread, he, hl⟩ := of_history_at hflush
  obtain ⟨link', n, req', cwd', s', started', reply', hh'⟩ :=
    flush_own h₀ (h₂.trans h₂₄) hk (congrArg Entry.op he)
  rw [hthread, hl, ← hb] at hh'
  obtain rfl : own = q := by
    simp only [begun, List.cons.injEq, Entry.mk.injEq, Op.acp.injEq] at hh'
    exact eq_of_heq hh'.2.2.2.2.1.2
  rw [← hb] at hh₃
  refine ⟨c₃, c₃', c₄, c₅, ch₃, ch₄, ch₅, _, _, link, s, req.workerId, hp₃, hp₄, hp₅, ?_, ?_, h₂₃, h₃,
    h₃₄, h₄.trans h₄₅, h₅.trans h₅c⟩
  · intro e he
    simp only [hh₃, begun, List.mem_cons, List.not_mem_nil, or_false] at he
    rcases he with rfl | rfl | rfl | rfl | rfl | rfl | rfl <;> rintro ⟨⟩
  · have hin : (⟨.acp (.insertSession link s req.taskId req.workerId), own⟩ : Entry Op Resp) ∈
        history c₃.log i := by
      rw [hh₃]
      exact List.mem_cons_of_mem _ (List.mem_cons_of_mem _ (begun_entered req cwd started))
    have hlogged := of_history h₀.fresh (h₂.trans h₂₃) ht₃ hin
    rwa [show t₃.party = r.party from hparty₃] at hlogged

/-- All that a worker had told of a session when its prompt was answered is in the result the task
completes with, where the session was still in flight; and the result is what was published. -/
theorem result_whole (h₀ : Start c₀) (h₁ : (fleet D).Reaches Unfeigned c₀ c₁) {ch₁ ch : Choice}
    {result : TaskResult} (r₁ : (fleet D).Ran c₁ c₂ i ch₁ (.acp (.awaitPrompt connection s)))
    (hs₁ : (fleet D).step c₁ (.run i ch₁) = some c₂) (h₂ : (fleet D).Reaches Unfeigned c₂ c)
    (r : (fleet D).Ran c c' i ch (.acp (.broadcast (.completed id result))))
    (hq : (⟨.acp (.sendFlush q), ()⟩ : Entry Op Resp) ∈ history c.log i) :
    arrived (c₁.state.transport r.party) q <+: result.output.toList ∧
      ∃ texts, numbered texts <+: outputs id (c.state.transport r.party).events ∧
        result.output = String.join texts := by
  have h₁₂ : (fleet D).Reaches Unfeigned c₁ c₂ := .single (by rintro ⟨_, _, _, ⟨⟩⟩) hs₁
  have h₀₂ : (fleet D).Reaches Unfeigned c₀ c₂ := h₁.trans h₁₂
  have h : (fleet D).Reaches Unfeigned c₀ c := h₀₂.trans h₂
  -- the prompt has only begun when it is answered
  have hbefore : ∀ e ∈ history c₂.log i, ∀ q, e.op ≠ .acp (.sendFlush q) ∧
      e.op ≠ .acp (.awaitFlush q) ∧ e.op ≠ .acp (.readOutput q) := by
    obtain ⟨link, n, req, cwd, hact, -⟩ := r.licensed (fleet_disciplined D) h₀.fresh h
    obtain ⟨t, ht, -, hsame⟩ := (h₁₂.trans h₂).thread r₁.was
    rw [r.was] at ht
    cases ht
    obtain ⟨own, started, hbegun⟩ := (r₁.licensed (disciplined_courses D) h₀.fresh h₁).1 link n req
      cwd (hsame.symm.trans hact)
    intro e he q
    simp only [r₁.after.2, hbegun, begun, List.mem_cons, List.not_mem_nil, or_false] at he
    rcases he with rfl | rfl | rfl | rfl | rfl | rfl <;> refine ⟨?_, ?_, ?_⟩ <;> rintro ⟨⟩
  obtain ⟨c₃, c₃', c₄, c₅, ch₃, ch₄, ch₅, t₄, t₅, link, s', w, hsend, hawait, hread, hfirst, hown, h₂₃,
    h₃, h₃₄, h₄₅, h₅⟩ := completed_course h₀ h₀₂ h₂ r hq hbefore
  have h₀₃ : (fleet D).Reaches Unfeigned c₀ c₃ := h₀₂.trans h₂₃
  obtain ⟨u, hu, -⟩ := queue_of_id (entered_queue h₀ h₀₃ hown rfl)
  have hfree : ¬ HasBarrier u := by
    intro hb
    obtain ⟨k, hk, hf⟩ := barred_flushed h₀ h₀₃ r.party q u hu hb
    have hsent := of_history h₀.fresh h r.was hq
    have hlater : k ∈ c.log := (h₃.trans (h₃₄.trans (h₄₅.trans h₅))).log_suffix.subset hk
    have hsame := (flushed_once h₀ h r.party q).eq hlater hsent hf ⟨rfl, rfl⟩
    exact hfirst _ (mem_history.mpr ⟨k, hk, congrArg Call.thread hsame, rfl⟩) hf.2
  have hput : c₃'.state.transport r.party = (c₃.state.transport r.party).modifyQueue q
      fun u => { u with pending := u.pending ++ [.flush] } :=
    (congrArg Prod.snd (Option.some.inj hsend)).symm
  obtain ⟨u', hu', hbehind⟩ : ∃ u', (c₃'.state.transport r.party).queues[q]? = some u' ∧
      Behind (arrived (c₁.state.transport r.party) q) u' := by
    rw [hput, queue_modify hu, if_pos rfl]
    exact ⟨_, rfl, behind_put hfree rfl rfl rfl (arrived_run (h₁₂.trans h₂₃) r.party hu)⟩
  obtain ⟨u₄, hu₄, hpre⟩ := barrier_holds h₃₄ hu' hbehind hawait
  obtain ⟨u₅, hu₅, hpre₅⟩ := queue_run
    (P := fun u => arrived (c₁.state.transport r.party) q <+: u.outputBuf.toList) h₄₅
    (fun _ _ _ ht hs => hs.trans ht.buffer) hu₄ hpre
  have hout : u₅.outputBuf = result.output := by
    have hanswer := congrArg Prod.fst (Option.some.inj hread)
    rwa [hu₅] at hanswer
  have h₃₅ := h₃.trans (h₃₄.trans h₄₅)
  obtain ⟨v, hv, hid⟩ := queue_of_id (entered_queue h₀ (h₀₃.trans h₃₅) (h₃₅.log_suffix.subset hown) rfl)
  obtain rfl : u₅ = v := Option.some.inj (hu₅.symm.trans hv)
  obtain ⟨texts, ho, -, hb⟩ := (tidy h₀ (h₀₃.trans h₃₅) r.party).fed q u₅ hu₅
  refine ⟨hout ▸ hpre₅, texts, ?_, hout.symm.trans hb⟩
  rw [← ho, hid]
  exact (events_run h₅ r.party).filterMap _

def unfeigned : FleetAction → Bool
  | .env (.notify _ _ _ .flush) => false
  | _ => true

theorem unfeigned_of {x : FleetAction} (h : unfeigned x = true) : Unfeigned c x := by
  rintro ⟨p, link, s, rfl⟩
  cases h

/-- The worker has told two pieces, of which one is still in the queue. -/
def soloTold : List FleetAction :=
  soloSent ++ [.env (.notify 0 0 "session" (.chunk "all ")), .env (.consume 0 0),
    .env (.notify 0 0 "session" (.chunk "done"))]

def soloReply : List FleetAction := [.run 1 soloOpens]

/-- The prompt is answered and goes on to its report. -/
def soloReport : List FleetAction :=
  steps 1 2 {} ++ [.env (.consume 0 0), .env (.consume 0 0)] ++ steps 1 5 {}

set_option maxRecDepth 10000 in
theorem solo_whole : ∃ c c' : FleetConfig, ∃ result, (fleet solo).Reaches Unfeigned initial c ∧
    Nonempty ((fleet solo).Ran c c' 1 {} (.acp (.broadcast (.completed ⟨1⟩ result)))) ∧
      "all done".toList <+: result.output.toList := by
  have h₁ : (fleet solo).Reaches Unfeigned initial ((fleet solo).after initial soloTold) := by
    have hrun : (fleet solo).replayWhile (fun _ => unfeigned) initial soloTold =
        some ((fleet solo).after initial soloTold) := rfl
    exact (replayWhile_reaches hrun).mono fun _ _ hx => unfeigned_of hx
  have hs : (fleet solo).step ((fleet solo).after initial soloTold) (.run 1 soloOpens) =
      some ((fleet solo).after initial (soloTold ++ soloReply)) := rfl
  have h₂ : (fleet solo).Reaches Unfeigned ((fleet solo).after initial (soloTold ++ soloReply))
      ((fleet solo).after initial (soloTold ++ soloReply ++ soloReport)) := by
    have hrun : (fleet solo).replayWhile (fun _ => unfeigned)
        ((fleet solo).after initial (soloTold ++ soloReply)) soloReport =
          some ((fleet solo).after initial (soloTold ++ soloReply ++ soloReport)) := rfl
    exact (replayWhile_reaches hrun).mono fun _ _ hx => unfeigned_of hx
  obtain ⟨r₁⟩ : Nonempty ((fleet solo).Ran ((fleet solo).after initial soloTold)
      ((fleet solo).after initial (soloTold ++ soloReply)) 1 soloOpens
        (.acp (.awaitPrompt 0 "session"))) := ⟨⟨_, _, _, _, rfl, rfl, rfl, rfl⟩⟩
  obtain ⟨c', result, r, hp⟩ : ∃ c' result, ∃ r : (fleet solo).Ran
      ((fleet solo).after initial (soloTold ++ soloReply ++ soloReport)) c' 1 {}
        (.acp (.broadcast (.completed ⟨1⟩ result))), r.party = 0 :=
    ⟨(fleet solo).after initial (soloTold ++ soloReply ++ soloReport ++ steps 1 1 {}), _,
      ⟨_, _, _, _, rfl, rfl, rfl, rfl⟩, rfl⟩
  have hq : (⟨.acp (.sendFlush 0), ()⟩ : Entry Op Resp) ∈ history ((fleet solo).after initial
      (soloTold ++ soloReply ++ soloReport)).log 1 :=
    mem_history.mpr ⟨⟨1, 0, .acp (.sendFlush 0), ()⟩, by repeat constructor, rfl, rfl⟩
  obtain ⟨hpre, -⟩ := result_whole initial_start h₁ r₁ hs h₂ r hq
  rw [hp] at hpre
  exact ⟨_, c', result, h₁.trans ((Machine.Reaches.single (by rintro ⟨_, _, _, ⟨⟩⟩) hs).trans h₂),
    ⟨r⟩, hpre⟩

end Barriers

end FleetOrchestrator.Scheduler
