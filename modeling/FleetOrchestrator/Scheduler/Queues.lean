import FleetOrchestrator.Scheduler.Outputs

/-! The connections of a process, and the queues of their sessions. -/

namespace FleetOrchestrator.Scheduler

open Core Store Transport Interleaving Machine

/-- The worker that the connection belongs to. -/
def home (t : TransportState) (link : ℕ) : Option WorkerId :=
  (t.link? link).map WorkerSession.workerId

def sessionsOf (t : TransportState) (link : ℕ) : List InFlightSession :=
  ((t.link? link).map WorkerSession.sessions).getD []

/-- A worker is registered under a connection of its own. -/
def Homed (t : TransportState) : Prop := ∀ w link, t.clients w = some link → home t link = some w

section Connections

variable {t t' : TransportState} {link i : ℕ} {w : WorkerId} {heard : SessionMsg → Prop}

theorem home_modify {f : WorkerSession → WorkerSession} (hf : ∀ l, (f l).workerId = l.workerId) :
    home (t.modifyLink i f) link = home t link := by
  rw [home, link_modify]
  split
  · rw [Option.map_map, funext fun l => show (WorkerSession.workerId ∘ f) l = l.workerId from hf l]
    rfl
  · rfl

theorem sessions_modify {f : WorkerSession → WorkerSession} (hf : ∀ l, (f l).sessions = l.sessions) :
    sessionsOf (t.modifyLink i f) link = sessionsOf t link := by
  rw [sessionsOf, link_modify]
  split
  · rw [Option.map_map, funext fun l => show (WorkerSession.sessions ∘ f) l = l.sessions from hf l]
    rfl
  · rfl

theorem register_links {n : ℕ} (h : register w n t = some t') : t.clients w = none ∧
    t'.links = t.links ++ [{ workerId := w, capacity := n, maxConcurrent := n }] ∧
      t'.clients = fun v => if v = w then some t.links.length else t.clients v := by
  unfold register at h
  split at h
  · cases h
  · next hn =>
    cases h
    exact ⟨hn, rfl, rfl⟩

theorem consume_links {q : ℕ} (h : t.consume q = some t') :
    t'.links = t.links ∧ t'.clients = t.clients := by
  unfold TransportState.consume at h
  split at h
  · cases h
  · split at h <;> cases h <;> exact ⟨rfl, rfl⟩

theorem notify_links (link : ℕ) (s : SessionId) (msg : SessionMsg) :
    (t.notify link s msg).links = t.links ∧ (t.notify link s msg).clients = t.clients := by
  unfold TransportState.notify
  split <;> exact ⟨rfl, rfl⟩

theorem home_links (h : t'.links = t.links) : home t' link = home t link := by
  rw [home, home, TransportState.link?, TransportState.link?, h]

theorem sessions_links (h : t'.links = t.links) : sessionsOf t' link = sessionsOf t link := by
  rw [sessionsOf, sessionsOf, TransportState.link?, TransportState.link?, h]

theorem outside_home (ho : Outside heard t t') (h : home t link = some w) : home t' link = some w := by
  cases ho with
  | followed us => exact h
  | supervised i f hf => rwa [home_modify fun l => (hf l).1]
  | registered v n t' hr =>
    obtain ⟨-, hl, -⟩ := register_links hr
    rw [home, TransportState.link?] at h
    rw [home, TransportState.link?, hl]
    cases hg : t.links[link]? with
    | none =>
      rw [hg] at h
      cases h
    | some l => rwa [List.getElem?_append_left (List.getElem?_eq_some_iff.mp hg).1]
  | notified i s msg => rwa [home_links (notify_links i s msg).1]
  | consumed q t' hc => rwa [home_links (consume_links hc).1]

theorem outside_homed (ho : Outside heard t t') (h : Homed t) : Homed t' := by
  have still (v : WorkerId) (link : ℕ) (hv : t.clients v = some link) : home t' link = some v :=
    outside_home ho (h v link hv)
  have kept (hc : t'.clients = t.clients) : Homed t' := fun v link hv => still v link (hc ▸ hv)
  cases ho with
  | followed us => exact kept rfl
  | supervised i f hf => exact kept rfl
  | notified i s msg => exact kept (notify_links i s msg).2
  | consumed q t' hc => exact kept (consume_links hc).2
  | registered v n t' hr =>
    obtain ⟨-, hl, hc⟩ := register_links hr
    intro u link hu
    rw [hc] at hu
    dsimp only at hu
    by_cases huv : u = v
    · rw [if_pos huv] at hu
      cases hu
      rw [home, TransportState.link?, hl, List.getElem?_append_right (Nat.le_refl _), Nat.sub_self]
      exact congrArg some huv.symm
    · rw [if_neg huv] at hu
      exact still u link hu

theorem outside_sessions (ho : Outside heard t t') : sessionsOf t' link = sessionsOf t link := by
  cases ho with
  | followed us => rfl
  | supervised i f hf => exact sessions_modify fun l => (hf l).2.2.2
  | registered v n t' hr =>
    obtain ⟨-, hl, -⟩ := register_links hr
    rw [sessionsOf, sessionsOf, TransportState.link?, TransportState.link?, hl]
    rcases Nat.lt_or_ge link t.links.length with hi | hi
    · rw [List.getElem?_append_left hi]
    · rw [List.getElem?_append_right hi, List.getElem?_eq_none hi]
      cases hg : link - t.links.length with
      | zero => rfl
      | succ n => rfl
  | notified i s msg => exact sessions_links (notify_links i s msg).1
  | consumed q t' hc => exact sessions_links (consume_links hc).1

variable {a : AcpChoice} {hosts : WorkerId → Host} {o : AcpOp} {r : o.Answer}

theorem perform_home (hp : t.perform a hosts o = some (r, t')) : home t' link = home t link := by
  cases o with
  | tryAcquirePermit i =>
    simp only [TransportState.perform] at hp
    split at hp <;> cases hp
    · exact home_modify fun _ => rfl
    · rfl
  | awaitFlush q =>
    simp only [TransportState.perform] at hp
    split at hp <;> cases hp
    rfl
  | releasePermit | insertSession | removeSession | failDrained | dropConnection | setDisconnected
  | endCleaning | requestShutdown =>
    cases hp
    exact home_modify fun _ => rfl
  | _ =>
    cases hp
    rfl

theorem perform_homed (hp : t.perform a hosts o = some (r, t')) (h : Homed t) : Homed t' := by
  have kept (hc : ∀ w link, t'.clients w = some link → t.clients w = some link) : Homed t' :=
    fun w link hw => (perform_home hp).trans (h w link (hc w link hw))
  cases o with
  | removeClient v =>
    apply kept
    cases hp
    intro w link hw
    dsimp only at hw
    split at hw
    · cases hw
    · exact hw
  | tryAcquirePermit i =>
    apply kept
    simp only [TransportState.perform] at hp
    split at hp <;> cases hp <;> exact fun _ _ hw => hw
  | awaitFlush q =>
    apply kept
    simp only [TransportState.perform] at hp
    split at hp <;> cases hp
    exact fun _ _ hw => hw
  | _ =>
    apply kept
    cases hp
    exact fun _ _ hw => hw

theorem mem_sessions_modify {f : WorkerSession → WorkerSession} {e : InFlightSession}
    (he : e ∈ sessionsOf (t.modifyLink i f) link) :
    e ∈ sessionsOf t link ∨ i = link ∧ ∃ l, t.link? link = some l ∧ e ∈ (f l).sessions := by
  rw [sessionsOf, link_modify] at he
  split at he
  · next hi =>
    cases hl : t.link? link with
    | none =>
      rw [hl] at he
      cases he
    | some l =>
      rw [hl] at he
      exact .inr ⟨hi, l, rfl, he⟩
  · exact .inl he

theorem mem_sessions_same {f : WorkerSession → WorkerSession} {e : InFlightSession}
    (hf : ∀ l, (f l).sessions ⊆ l.sessions) (he : e ∈ sessionsOf (t.modifyLink i f) link) :
    e ∈ sessionsOf t link := by
  rcases mem_sessions_modify he with he | ⟨-, l, hl, he⟩
  · exact he
  · rw [sessionsOf, hl]
    exact hf l he

/-- A session is in flight only once it has been entered. -/
theorem perform_sessions (hp : t.perform a hosts o = some (r, t')) {e : InFlightSession}
    (he : e ∈ sessionsOf t' link) : e ∈ sessionsOf t link ∨
      ∃ w, (⟨.acp o, r⟩ : Entry Op Resp) =
        ⟨.acp (.insertSession link e.sessionId e.taskId w), e.queue⟩ := by
  have dropped (s : SessionId) (l : WorkerSession) :
      (TransportState.dropSession s l).sessions ⊆ l.sessions := List.filter_sublist.subset
  cases o with
  | insertSession i s id w =>
    cases hp
    rcases mem_sessions_modify he with he | ⟨rfl, l, hl, he⟩
    · exact .inl he
    · rcases List.mem_append.mp he with he | he
      · left
        rw [sessionsOf, hl]
        exact dropped s l he
      · cases List.mem_singleton.mp he
        exact .inr ⟨w, rfl⟩
  | removeSession i s =>
    cases hp
    exact .inl (mem_sessions_same (dropped s) he)
  | failDrained i drained reason =>
    cases hp
    refine .inl (mem_sessions_same ?_ he)
    intro l
    exact List.filter_sublist.subset
  | tryAcquirePermit i =>
    simp only [TransportState.perform] at hp
    split at hp <;> cases hp
    · refine .inl (mem_sessions_same ?_ he)
      exact fun l => List.Subset.refl _
    · exact .inl he
  | awaitFlush q =>
    simp only [TransportState.perform] at hp
    split at hp <;> cases hp
    exact .inl he
  | releasePermit | dropConnection | setDisconnected | endCleaning | requestShutdown =>
    cases hp
    refine .inl (mem_sessions_same ?_ he)
    exact fun l => List.Subset.refl _
  | _ =>
    cases hp
    exact .inl he

end Connections

section Queues

def textOf : SessionMsg → List Char
  | .chunk text => text.toList
  | .tool _ | .flush => []

/-- All that was said for a queue, whether its consumer has taken it up or not. -/
def said (u : NotifyQueue) : List Char := u.outputBuf.toList ++ u.pending.flatMap textOf

def arrived (t : TransportState) (q : ℕ) : List Char := ((t.queues[q]?).map said).getD []

/-- What becomes of a queue: more is put into it, or its consumer takes up what comes first. -/
inductive Turned (new : List SessionMsg) (u u' : NotifyQueue) : Prop
  | put (hp : u'.pending = u.pending ++ new) (hb : u'.outputBuf = u.outputBuf)
      (hf : u'.flushed = u.flushed)
  | taken (msg : SessionMsg) (hp : u.pending = msg :: u'.pending)
      (hb : u'.outputBuf.toList = u.outputBuf.toList ++ textOf msg)
      (hf : u'.flushed = (u.flushed || msg = .flush))

/-- What the barrier was put behind is taken up before the barrier. -/
def Behind (text : List Char) (u : NotifyQueue) : Prop :=
  text <+: u.outputBuf.toList ∨ u.flushed = false ∧ ∃ front back,
    u.pending = front ++ .flush :: back ∧ .flush ∉ front ∧
      text <+: u.outputBuf.toList ++ front.flatMap textOf

/-- A barrier was put into the queue. -/
def HasBarrier (u : NotifyQueue) : Prop := .flush ∈ u.pending ∨ u.flushed = true

variable {new : List SessionMsg} {u u' : NotifyQueue} {text : List Char}

theorem turned_refl (u : NotifyQueue) : Turned [] u u :=
  .put (List.append_nil _).symm rfl rfl

theorem Turned.said (h : Turned new u u') : said u <+: said u' := by
  cases h with
  | put hp hb hf =>
    unfold Scheduler.said
    rw [hp, hb, List.flatMap_append, ← List.append_assoc]
    exact List.prefix_append _ _
  | taken msg hp hb hf =>
    unfold Scheduler.said
    rw [hp, hb, List.flatMap_cons, List.append_assoc]

theorem Turned.buffer (h : Turned new u u') : u.outputBuf.toList <+: u'.outputBuf.toList := by
  cases h with
  | put hp hb hf => rw [hb]
  | taken msg hp hb hf =>
    rw [hb]
    exact List.prefix_append _ _

theorem Turned.behind (h : Turned new u u') (hb : Behind text u) : Behind text u' := by
  rcases hb with hpre | ⟨hfree, front, back, hpend, hfront, hpre⟩
  · exact .inl (hpre.trans h.buffer)
  · cases h with
    | put hp hb hf =>
      refine .inr ⟨hf.trans hfree, front, back ++ new, ?_, hfront, hb ▸ hpre⟩
      rw [hp, hpend, List.append_assoc, List.cons_append]
    | taken msg hp hb hf =>
      rw [hpend] at hp
      cases front with
      | nil =>
        left
        rw [hb]
        exact (List.append_nil u.outputBuf.toList ▸ hpre).trans (List.prefix_append _ _)
      | cons m front =>
        obtain ⟨rfl, hrest⟩ := List.cons.inj hp
        have hm : m ≠ .flush := fun he => hfront (he ▸ List.mem_cons_self)
        refine .inr ⟨?_, front, back, hrest.symm, fun hin => hfront (List.mem_cons_of_mem _ hin), ?_⟩
        · rw [hf, hfree, Bool.false_or]
          exact decide_eq_false hm
        · rwa [hb, List.append_assoc, ← List.flatMap_cons]

theorem Turned.barred (h : Turned new u u') (hb : HasBarrier u') : HasBarrier u ∨ .flush ∈ new := by
  cases h with
  | put hp hbuf hf =>
    rcases hb with hm | hd
    · rw [hp] at hm
      exact (List.mem_append.mp hm).imp_left .inl
    · exact .inl (.inr (hf ▸ hd))
  | taken msg hp hbuf hf =>
    left
    rcases hb with hm | hd
    · left
      rw [hp]
      exact List.mem_cons_of_mem _ hm
    · rw [hf, Bool.or_eq_true, decide_eq_true_eq] at hd
      rcases hd with hd | rfl
      · exact .inr hd
      · left
        rw [hp]
        exact List.mem_cons_self

theorem behind_put (hn : ¬ HasBarrier u) (hp : u'.pending = u.pending ++ [.flush])
    (hb : u'.outputBuf = u.outputBuf) (hf : u'.flushed = u.flushed) (hs : text <+: said u) :
    Behind text u' := by
  have hfree : u.flushed = false := Bool.eq_false_iff.mpr fun hd => hn (.inr hd)
  refine .inr ⟨hf.trans hfree, u.pending, [], hp, fun hm => hn (.inl hm), ?_⟩
  rwa [hb]

theorem Behind.over (h : Behind text u) (hf : u.flushed = true) : text <+: u.outputBuf.toList := by
  rcases h with hpre | ⟨hfree, -⟩
  · exact hpre
  · rw [hf] at hfree
    cases hfree

variable {t t' : TransportState} {q i : ℕ}

theorem queue_modify {f : NotifyQueue → NotifyQueue} (hu : t.queues[q]? = some u) :
    (t.modifyQueue i f).queues[q]? = some (if i = q then f u else u) := by
  simp only [TransportState.modifyQueue, List.getElem?_modify, hu]
  split <;> rfl

/-- What is put into one queue leaves the others as they are. -/
theorem turned_put (hu : t.queues[q]? = some u) (msg : SessionMsg) :
    ∃ new u', (t.modifyQueue i fun v => { v with pending := v.pending ++ [msg] }).queues[q]? =
      some u' ∧ Turned new u u' ∧ ∀ m ∈ new, i = q ∧ m = msg := by
  rw [queue_modify hu]
  split
  · next hi =>
    refine ⟨[msg], _, rfl, .put rfl rfl rfl, fun m hm => ⟨hi, List.mem_singleton.mp hm⟩⟩
  · exact ⟨[], u, rfl, turned_refl u, fun m hm => by cases hm⟩

theorem consume_turned (hc : t.consume i = some t') (hu : t.queues[q]? = some u) :
    ∃ u', t'.queues[q]? = some u' ∧ Turned [] u u' := by
  have took {msg : SessionMsg} {rest : List SessionMsg} {v : NotifyQueue}
      {f : NotifyQueue → NotifyQueue} (hv : t.queues[i]? = some v) (hp : v.pending = msg :: rest)
      (hf : (f v).pending = rest ∧ (f v).outputBuf.toList = v.outputBuf.toList ++ textOf msg ∧
        (f v).flushed = (v.flushed || msg = .flush)) :
      ∃ u', (t.modifyQueue i f).queues[q]? = some u' ∧ Turned [] u u' := by
    rw [queue_modify hu]
    split
    · next hi =>
      subst hi
      rw [hv] at hu
      cases hu
      exact ⟨_, rfl, .taken msg (hf.1.symm ▸ hp) hf.2.1 hf.2.2⟩
    · exact ⟨u, rfl, turned_refl u⟩
  unfold TransportState.consume at hc
  split at hc
  · cases hc
  · next v hv =>
    split at hc
    · cases hc
    · next text rest hp =>
      cases hc
      refine took hv hp ⟨rfl, String.toList_append, ?_⟩
      exact (Bool.or_false _).symm
    · next invocation rest hp =>
      cases hc
      refine took hv hp ⟨rfl, (List.append_nil _).symm, ?_⟩
      exact (Bool.or_false _).symm
    · next rest hp =>
      cases hc
      refine took hv hp ⟨rfl, (List.append_nil _).symm, ?_⟩
      exact (Bool.or_true _).symm

theorem insert_queue {a : AcpChoice} {hosts : WorkerId → Host} {link r : ℕ} {s : SessionId}
    {id : TaskId} {w : WorkerId}
    (hp : t.perform a hosts (.insertSession link s id w) = some (r, t')) :
    r = t.queues.length ∧ t'.queues = t.queues ++ [{ taskId := id, workerId := w }] := by
  cases hp
  exact ⟨rfl, rfl⟩

theorem outside_turned {heard : SessionMsg → Prop} (ho : Outside heard t t')
    (hu : t.queues[q]? = some u) :
    ∃ new u', t'.queues[q]? = some u' ∧ Turned new u u' ∧ ∀ m ∈ new, heard m := by
  have same (hq : t'.queues = t.queues) :
      ∃ new u', t'.queues[q]? = some u' ∧ Turned new u u' ∧ ∀ m ∈ new, heard m :=
    ⟨[], u, hq ▸ hu, turned_refl u, fun m hm => by cases hm⟩
  cases ho with
  | followed us => exact same rfl
  | supervised i f hf => exact same rfl
  | registered w n t' hr =>
    unfold register at hr
    split at hr
    · cases hr
    · cases hr
      exact same rfl
  | notified i s msg hsaid =>
    unfold TransportState.notify at same ⊢
    split
    · exact ⟨[], u, hu, turned_refl u, fun m hm => by cases hm⟩
    · obtain ⟨new, u', hu', ht, hn⟩ := turned_put hu msg
      exact ⟨new, u', hu', ht, fun m hm => (hn m hm).2 ▸ hsaid⟩
  | consumed i t' hc =>
    obtain ⟨u', hu', ht⟩ := consume_turned hc hu
    exact ⟨[], u', hu', ht, fun m hm => by cases hm⟩

theorem perform_turned {a : AcpChoice} {hosts : WorkerId → Host} {o : AcpOp} {r : o.Answer}
    (hp : t.perform a hosts o = some (r, t')) (hu : t.queues[q]? = some u) :
    ∃ new u', t'.queues[q]? = some u' ∧ Turned new u u' ∧ ∀ m ∈ new, o = .sendFlush q := by
  have same (hq : t'.queues = t.queues) :
      ∃ new u', t'.queues[q]? = some u' ∧ Turned new u u' ∧ ∀ m ∈ new, o = .sendFlush q :=
    ⟨[], u, hq ▸ hu, turned_refl u, fun m hm => by cases hm⟩
  cases o with
  | insertSession i s id w =>
    cases hp
    refine ⟨[], u, ?_, turned_refl u, fun m hm => by cases hm⟩
    exact (List.getElem?_append_left (List.getElem?_eq_some_iff.mp hu).1).trans hu
  | sendFlush i =>
    cases hp
    obtain ⟨new, u', hu', ht, hn⟩ := turned_put hu .flush
    exact ⟨new, u', hu', ht, fun m hm => congrArg AcpOp.sendFlush (hn m hm).1⟩
  | tryAcquirePermit i =>
    simp only [TransportState.perform] at hp
    split at hp <;> cases hp <;> exact same rfl
  | awaitFlush i =>
    simp only [TransportState.perform] at hp
    split at hp <;> cases hp
    exact same rfl
  | _ =>
    cases hp
    exact same rfl

end Queues

end FleetOrchestrator.Scheduler
