import FleetOrchestrator.Scheduler.Barrier

/-! The end of a prompt is told, by the prompt or by whoever cleared its session away. -/

namespace FleetOrchestrator.Scheduler

open Core Store Transport Interleaving Machine

/-- What can take a session out of flight. -/
def Clears (link : ℕ) (s : SessionId) : AcpOp → Prop
  | .removeSession i s' => i = link ∧ s' = s
  | .failDrained i drained _ => i = link ∧ ∃ d ∈ drained, d.1 = s
  | .insertSession i s' _ _ => i = link ∧ s' = s
  | _ => False

section Flight

variable {t t' : TransportState} {link i : ℕ} {e : InFlightSession} {a : AcpChoice}
  {hosts : WorkerId → Host} {o : AcpOp} {r : o.Answer}

theorem sessions_kept {f : WorkerSession → WorkerSession} (he : e ∈ sessionsOf t link)
    (hf : ∀ l, i = link → e ∈ l.sessions → e ∈ (f l).sessions) :
    e ∈ sessionsOf (t.modifyLink i f) link := by
  rw [sessionsOf] at he ⊢
  rw [link_modify]
  split
  · next hi =>
    cases hl : t.link? link with
    | none =>
      rw [hl] at he
      cases he
    | some l =>
      rw [hl] at he
      exact hf l hi he
  · exact he

theorem perform_clears (hp : t.perform a hosts o = some (r, t')) (he : e ∈ sessionsOf t link) :
    e ∈ sessionsOf t' link ∨ Clears link e.sessionId o := by
  have filtered (s : SessionId) (l : WorkerSession) (hs : s ≠ e.sessionId) (hl : e ∈ l.sessions) :
      e ∈ (TransportState.dropSession s l).sessions := by
    refine List.mem_filter.mpr ⟨hl, ?_⟩
    exact decide_eq_true (Ne.symm hs)
  cases o with
  | insertSession i s id w =>
    cases hp
    by_cases hc : i = link ∧ s = e.sessionId
    · exact .inr hc
    · left
      refine sessions_kept he fun l hi hl => ?_
      exact List.mem_append_left _ (filtered s l (fun hs => hc ⟨hi, hs⟩) hl)
  | removeSession i s =>
    cases hp
    by_cases hc : i = link ∧ s = e.sessionId
    · exact .inr hc
    · left
      exact sessions_kept he fun l hi hl => filtered s l (fun hs => hc ⟨hi, hs⟩) hl
  | failDrained i drained reason =>
    cases hp
    by_cases hc : i = link ∧ ∃ d ∈ drained, d.1 = e.sessionId
    · exact .inr hc
    · left
      refine sessions_kept he fun l hi hl => List.mem_filter.mpr ⟨hl, ?_⟩
      rw [Bool.not_eq_true', List.any_eq_false]
      exact fun d hd hs => hc ⟨hi, d, hd, of_decide_eq_true hs⟩
  | tryAcquirePermit i =>
    left
    simp only [TransportState.perform] at hp
    split at hp <;> cases hp
    · exact sessions_kept he fun _ _ hl => hl
    · exact he
  | awaitFlush q =>
    left
    simp only [TransportState.perform] at hp
    split at hp <;> cases hp
    exact he
  | releasePermit | dropConnection | setDisconnected | endCleaning | requestShutdown =>
    left
    cases hp
    exact sessions_kept he fun _ _ hl => hl
  | _ =>
    left
    cases hp
    exact he

end Flight

section Histories

variable {h : History} {s : SessionId}

theorem removedIn_at {removed : Bool} (hr : removedIn h = some removed) : ∃ link s h₀,
    (⟨.acp (.removeSession link s), removed⟩ : Entry Op Resp) :: h₀ <:+ h := by
  fun_induction removedIn h with
  | case1 => cases hr
  | case2 link s r h =>
    cases hr
    exact ⟨link, s, h, List.suffix_rfl⟩
  | case3 e h _ ih =>
    obtain ⟨link, s, h₀, hs⟩ := ih hr
    exact ⟨link, s, h₀, hs.trans (List.suffix_cons _ _)⟩

theorem removedIn_none (hn : removedIn h = none) {e : Entry Op Resp} (he : e ∈ h) (link : ℕ)
    (s : SessionId) : e.op ≠ .acp (.removeSession link s) := by
  fun_induction removedIn h with
  | case1 => cases he
  | case2 => cases hn
  | case3 e' h hother ih =>
    rcases List.mem_cons.mp he with rfl | he
    · obtain ⟨op, r⟩ := e
      rintro rfl
      exact hother _ _ _ rfl
    · exact ih hn he

theorem reported_mem (hr : reportedIn h ≠ 0) : ∃ e r,
    (⟨.acp (.broadcast e), r⟩ : Entry Op Resp) ∈ h ∧ e.isTerminal = true := by
  fun_induction reportedIn h with
  | case1 => exact absurd rfl hr
  | case2 e r h ih =>
    by_cases he : e.isTerminal = true
    · exact ⟨e, r, List.mem_cons_self, he⟩
    · rw [if_neg he, Nat.add_zero] at hr
      obtain ⟨e', r', hm, ht⟩ := ih hr
      exact ⟨e', r', List.mem_cons_of_mem _ hm, ht⟩
  | case3 e h _ ih =>
    obtain ⟨e', r', hm, ht⟩ := ih hr
    exact ⟨e', r', List.mem_cons_of_mem _ hm, ht⟩

end Histories

section Told

variable {D : Deployment} {cond : FleetConfig → FleetAction → Prop} {c₀ c₁ c c' : FleetConfig}
  {p link i : ℕ} {s : SessionId} {k : Call Op Resp ℕ} {l : FleetLog}

theorem ends_of_told {log : FleetLog} {e : WorkerEvent} (hk : k ∈ log) (he : e ∈ told k.entry)
    (ht : e.isTerminal = true) : e ∈ ends k.party log := by
  induction log with
  | nil => cases hk
  | cons m log ih =>
    unfold ends
    rcases List.mem_cons.mp hk with rfl | hk
    · rw [if_pos rfl]
      exact List.mem_append_right _ (List.mem_filter.mpr ⟨he, ht⟩)
    · split
      · exact List.mem_append_left _ (ih hk)
      · exact ih hk

theorem told_on_channel (h₀ : Start c₀) (h : (fleet D).Reaches cond c₀ c) {e : WorkerEvent}
    (hk : k ∈ c.log) (he : e ∈ told k.entry) (ht : e.isTerminal = true) :
    e ∈ (c.state.transport k.party).events := by
  have hends := ends_of_told hk he ht
  rw [← (streamed h₀ h k.party).ends] at hends
  exact (List.mem_filter.mp hends).1

/-- A session that is no longer in flight was taken out of flight. -/
theorem cleared_since (h : (fleet D).Reaches cond c₁ c) {e : InFlightSession}
    (he : e ∈ sessionsOf (c₁.state.transport p) link) : e ∈ sessionsOf (c.state.transport p) link ∨
      ∃ k l o, k :: l <:+ c.log ∧ c₁.log <:+ l ∧ k.party = p ∧ k.op = .acp o ∧
        Clears link e.sessionId o := by
  apply h.invariant (P := fun c => e ∈ sessionsOf (c.state.transport p) link ∨
    ∃ k l o, k :: l <:+ c.log ∧ c₁.log <:+ l ∧ k.party = p ∧ k.op = .acp o ∧
      Clears link e.sessionId o) (.inl he)
  intro c x c' hr _ hs ih
  rcases ih with hin | ⟨k, l, o, hk, hrest⟩
  · rcases transport_step hs p with ho | ⟨i, ch, o, rfl, r, hp, hperform⟩
    · left
      rwa [outside_sessions ho]
    · refine (perform_clears hperform hin).imp_right fun hc => ?_
      exact ⟨⟨i, r.party, .acp o, r.resp⟩, c.log, o, r.log ▸ List.suffix_rfl, hr.log_suffix, hp, rfl, hc⟩
  · exact .inr ⟨k, l, o, hk.trans (step_log hs), hrest⟩

end Told

section Ends

variable {D : Deployment} {cond : FleetConfig → FleetAction → Prop} {c₀ c₁ c c' : FleetConfig}
  {p link connection i : ℕ} {s : SessionId} {id : TaskId} {req : DispatchRequest} {cwd : String}
  {out : Output} {k : Call Op Resp ℕ} {l : FleetLog}

/-- A prompt takes the session out of flight that it had entered, and once. -/
theorem removal_own (h₀ : Start c₀) (h : (fleet D).Reaches cond c₀ c) (hk : k :: l <:+ c.log)
    (ho : k.op = .acp (.removeSession link s)) :
    (∃ m ∈ l, m.thread = k.thread ∧ Enters k.party link s m) ∧
      removedIn (history l k.thread) = none := by
  obtain ⟨t, ht, hparty, hlic⟩ := logged_licensed h₀.seeded h hk
  rw [ho] at hlic
  obtain ⟨connection, req, cwd, hact, hins, hnone⟩ := hlic
  obtain ⟨link', id, v, q, h₁, hsuf⟩ := insertedIn_at hins
  obtain ⟨m, lm, hm, hthread, he, -⟩ := of_history_at hsuf
  have hop : m.op = .acp (.insertSession link' s id v) := congrArg Entry.op he
  obtain ⟨t', ht', hparty', hlic'⟩ :=
    logged_licensed h₀.seeded h (hm.trans ((List.suffix_cons k l).trans hk))
  rw [hthread, ht] at ht'
  cases ht'
  rw [hop] at hlic'
  obtain ⟨connection', req', cwd', hact', -⟩ := hlic'
  rw [hact] at hact'
  cases hact'
  refine ⟨⟨m, hm.subset List.mem_cons_self, hthread, hparty'.symm.trans hparty, id, v, hop⟩, hnone⟩

/-- Whoever clears a connection away knows its sessions by the tasks they were entered for. -/
theorem drained_entered (h₀ : Start c₀) (h : (fleet D).Reaches cond c₀ c) (hk : k :: l <:+ c.log)
    {drained : List (SessionId × TaskId)} {reason : String}
    (ho : k.op = .acp (.failDrained link drained reason)) {d : SessionId × TaskId}
    (hd : d ∈ drained) : ∃ m ∈ c.log, m.party = k.party ∧
      ∃ w, m.op = .acp (.insertSession link d.1 d.2 w) := by
  obtain ⟨t, ht, hparty, hlic⟩ := logged_licensed h₀.seeded h hk
  rw [ho] at hlic
  obtain ⟨-, h₁, hh⟩ := hlic
  have hbefore : history l k.thread <:+ history c.log k.thread :=
    history_suffix ((List.suffix_cons k l).trans hk) _
  obtain ⟨c₁, c₂, ch, hperform, -, -, hreach, hstep, hrest⟩ :=
    performed_since h ht (hh ▸ hbefore) (by rw [h₀.fresh.log]; simp) hparty
  have hlisted : ((((c₁.state.transport k.party).link? link).map fun l =>
      l.sessions.map fun s => (s.sessionId, s.taskId)).getD []) = drained :=
    congrArg Prod.fst (Option.some.inj hperform)
  obtain ⟨e, he, rfl⟩ : ∃ e ∈ sessionsOf (c₁.state.transport k.party) link,
      (e.sessionId, e.taskId) = d := by
    rw [← hlisted] at hd
    unfold sessionsOf
    cases hl : (c₁.state.transport k.party).link? link with
    | none =>
      rw [hl] at hd
      cases hd
    | some n =>
      rw [hl] at hd
      obtain ⟨e, he, hed⟩ := List.mem_map.mp hd
      exact ⟨e, he, hed⟩
  obtain ⟨m, hm, hmp, w, hme⟩ := session_entered h₀ hreach e he
  exact ⟨m, (hstep.trans hrest).log_suffix.subset hm, hmp, w, congrArg Entry.op hme⟩

/-- A session is in flight as soon as a prompt has entered it. -/
theorem entered_in_flight (h₀ : Start c₀) (h : (fleet D).Reaches cond c₀ c) (hk : k :: l <:+ c.log)
    (he : Enters p link s k) : ∃ c₁, c₁.log = k :: l ∧ (fleet D).Reaches cond c₁ c ∧
      ∃ e ∈ sessionsOf (c₁.state.transport p) link, e.sessionId = s := by
  obtain ⟨c₁, c₂, ch, h₁, hc, hs, rfl, ⟨r, hparty, hresp⟩, h₂⟩ := h.at_call h₀.fresh hk
  have hlog : c₂.log = k :: c₁.log := by rw [r.log, hparty, hresp]
  have hlogged : k :: c₁.log <:+ c₂.log := by rw [hlog]
  obtain ⟨v, hv, -⟩ := entered_opened h₀ (h₁.tail _ hc hs) hlogged he
  obtain ⟨rfl, id, w, hop⟩ := he
  obtain ⟨q, he⟩ : ∃ q : ℕ, k.entry = ⟨.acp (.insertSession link s id w), q⟩ := by
    obtain ⟨thread, party, op, resp⟩ := k
    cases hop
    exact ⟨resp, rfl⟩
  have hentry : (⟨k.op, r.resp⟩ : Entry Op Resp) = ⟨.acp (.insertSession link s id w), q⟩ := by
    rw [hresp]
    exact he
  obtain ⟨r', hr', hp', -⟩ := ran_as r hentry
  have hperform := exec_transport (ran_exec r')
  rw [hp', hparty] at hperform
  have ht : _ = c₂.state.transport k.party := congrArg Prod.snd (Option.some.inj hperform)
  refine ⟨c₂, hlog, h₂, ⟨s, id, (c₁.state.transport k.party).queues.length⟩, ?_, rfl⟩
  rw [← ht] at hv ⊢
  change home ((c₁.state.transport k.party).modifyLink link _) link = some v at hv
  change _ ∈ sessionsOf ((c₁.state.transport k.party).modifyLink link _) link
  rw [home, link_modify, if_pos rfl] at hv
  rw [sessionsOf, link_modify, if_pos rfl]
  cases hl : (c₁.state.transport k.party).link? link with
  | none =>
    rw [hl] at hv
    cases hv
  | some n => exact List.mem_append_right _ (List.mem_singleton_self _)

/-- When a prompt finds its session gone, somebody has told the end of its task. -/
theorem cleared_told (h₀ : Start c₀) (h : (fleet D).Reaches cond c₀ c) {ch : Choice}
    (r : (fleet D).Ran c c' i ch (.acp (.removeSession link s))) (hstep : (fleet D).Reaches cond c c')
    (hr : r.resp = false) : ∃ m ∈ c.log, m.thread = i ∧ ∃ id w,
      m.op = .acp (.insertSession link s id w) ∧ ∃ k ∈ c.log, k.party = r.party ∧ ∃ reason,
        TransportState.connectionLost id reason ∈ told k.entry := by
  have hlogged : (⟨i, r.party, .acp (.removeSession link s), r.resp⟩ : Call Op Resp ℕ) :: c.log <:+
      c'.log := by rw [r.log]
  obtain ⟨⟨m, hm, hthread, hentered⟩, hnone⟩ := removal_own h₀ (h.trans hstep) hlogged rfl
  have hthread' : m.thread = i := hthread
  have hentry := hentered
  obtain ⟨-, id, w, hop⟩ := hentry
  refine ⟨m, hm, hthread', id, w, hop, ?_⟩
  obtain ⟨l, hl⟩ := placed hm
  obtain ⟨c₁, hlog, hrest, e, he, rfl⟩ := entered_in_flight h₀ h hl hentered
  have honce := entered_once h₀ h r.party link e.sessionId
  rcases cleared_since hrest he with hin | ⟨k, lk, o, hk, hlater, hp, ho, hclears⟩
  · -- it would have been found
    exfalso
    have hperform := congrArg Prod.fst (Option.some.inj (exec_transport (ran_exec r)))
    rw [hr] at hperform
    unfold sessionsOf at hin
    cases hlk : (c.state.transport r.party).link? link with
    | none =>
      rw [hlk] at hin
      cases hin
    | some n =>
      rw [hlk] at hin
      simp only [hlk, Option.map_some, Option.getD_some, List.any_eq_false, decide_eq_true_eq]
        at hperform
      exact hperform e hin rfl
  · have hmk : m ∈ lk := (hlog ▸ hlater).subset List.mem_cons_self
    cases o with
    | insertSession i' s' id' w' =>
      obtain ⟨rfl, rfl⟩ := hclears
      exact absurd hentered (honce k lk hk ⟨hp, id', w', ho⟩ m hmk)
    | removeSession i' s' =>
      obtain ⟨rfl, rfl⟩ := hclears
      obtain ⟨⟨m', hm', hthread'', hentered'⟩, -⟩ := removal_own h₀ h hk ho
      have hown : Enters r.party i' e.sessionId m' := by
        rw [hp] at hentered'
        exact hentered'
      have hlk : lk <:+ c.log := (List.suffix_cons k lk).trans hk
      obtain rfl : m = m' := honce.eq hm (hlk.subset hm') hentered hown
      have hin : k.entry ∈ history c.log i :=
        mem_history.mpr ⟨k, hk.subset List.mem_cons_self, hthread''.symm.trans hthread', rfl⟩
      exact absurd ho (removedIn_none hnone hin _ _)
    | failDrained i' drained reason =>
      obtain ⟨rfl, d, hd, hds⟩ := hclears
      obtain ⟨m', hm', hparty', w', hop'⟩ := drained_entered h₀ h hk ho hd
      rw [hds] at hop'
      obtain rfl : m = m' := honce.eq hm hm' hentered ⟨hparty'.trans hp, d.2, w', hop'⟩
      rw [hop] at hop'
      cases hop'
      refine ⟨k, hk.subset List.mem_cons_self, hp, reason, ?_⟩
      obtain ⟨thread, party, op, resp⟩ := k
      obtain rfl : op = _ := ho
      exact List.mem_map.mpr ⟨d, hd, rfl⟩
    | _ => exact hclears.elim

/-- A prompt that has returned has left the end of its task on the channel of its process: it told
it itself, or whoever cleared its connection away did. -/
theorem end_never_lost (h₀ : Start c₀) (h : (fleet D).Reaches cond c₀ c)
    (ht : c.threads[i]? = some ⟨p, .prompt link connection req cwd, .ret out⟩) :
    ∃ e ∈ (c.state.transport p).events, e.isTerminal = true ∧ e.taskId = req.taskId := by
  have hends : PromptEnds (history c.log i) := by
    have hout := returned (fleet_disciplined D) h₀.fresh h ht
    cases out with
    | finished => exact hout
    | submitted | cancelled => exact hout.elim
  rcases hends with hone | ⟨-, hremoved, -⟩
  · obtain ⟨e, r, hm, hterm⟩ := reported_mem (h := history c.log i) (by rw [hone]; exact Nat.one_ne_zero)
    have hk := of_history h₀.fresh h ht hm
    refine ⟨e, told_on_channel h₀ h hk List.mem_cons_self hterm, hterm, ?_⟩
    obtain ⟨l, hl⟩ := placed hk
    obtain ⟨t, ht', -, hlic⟩ := logged_licensed h₀.seeded h hl
    rw [show c.threads[i]? = some t from ht'] at ht
    cases ht
    obtain ⟨link', connection', req', cwd', hact, hmay⟩ := hlic
    cases hact
    cases e with
    | completed | failed => exact hmay.1
    | output | toolCall | sessionOpened => cases hterm
  · obtain ⟨link', s, h₁, hsuf⟩ := removedIn_at hremoved
    obtain ⟨c₁, c₂, ch, r, hr, hh, hreach, hstep, hlater⟩ := h.at_history h₀.fresh hsuf
    obtain ⟨m, hm, hthread, id, w, hop, k, hk, hparty, reason, htold⟩ :=
      cleared_told h₀ hreach r hstep hr
    have hlog : c₁.log <:+ c.log := (hstep.trans hlater).log_suffix
    obtain ⟨t, ht', hsame, -⟩ := (hstep.trans hlater).thread r.was
    rw [ht] at ht'
    cases ht'
    have hchannel := told_on_channel h₀ h (hlog.subset hk) htold rfl
    have hp : p = r.party := hsame
    rw [hparty, ← hp] at hchannel
    refine ⟨_, hchannel, rfl, ?_⟩
    obtain ⟨l, hl⟩ := placed (hlog.subset hm)
    obtain ⟨t, ht', -, hlic⟩ := logged_licensed h₀.seeded h hl
    rw [hthread, ht] at ht'
    cases ht'
    rw [hop] at hlic
    obtain ⟨n, req', cwd', hact, hid, -⟩ := hlic
    cases hact
    exact hid

/-- The connection is lost while the worker has the prompt, which then finds its session gone. -/
def soloDropped : List FleetAction :=
  soloHandOver ++ steps 1 5 soloOpens ++ [.start 0 (.connectionEnded 0)] ++ steps 2 5 {} ++
    steps 1 6 { acp := { prompt := .refused "connection lost" } }

theorem dropped_end_kept : ∃ c : FleetConfig, (fleet solo).Reaches always initial c ∧
    removedIn (history c.log 1) = some false ∧
      ∃ e ∈ (c.state.transport 0).events, e.isTerminal = true ∧ e.taskId = ⟨1⟩ := by
  have ht : ((fleet solo).after initial soloDropped).threads[1]? = some ⟨0,
      .prompt 0 0 (Dispatcher.requestFor (soloTask 1 []) ⟨0⟩ "prompt") "/work",
        .ret .finished⟩ := rfl
  exact ⟨_, after_reaches soloDropped, rfl,
    end_never_lost initial_start (after_reaches soloDropped) ht⟩

end Ends

end FleetOrchestrator.Scheduler
