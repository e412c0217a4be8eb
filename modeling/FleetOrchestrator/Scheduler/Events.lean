import FleetOrchestrator.Scheduler.Records

/-! What a process's transport has told, and what each of its subscribers has received of it. -/

namespace FleetOrchestrator.Scheduler

open Core Store Transport Interleaving Machine

/-- The events an operation puts on the channel. -/
def told : Entry Op Resp → List WorkerEvent
  | ⟨.acp (.broadcast e), _⟩ => [e]
  | ⟨.acp (.failDrained _ drained reason), _⟩ =>
    drained.map fun d => TransportState.connectionLost d.2 reason
  | _ => []

/-- What a session says while it runs. -/
def Incidental : WorkerEvent → Prop
  | .output .. | .toolCall .. => True
  | .sessionOpened .. | .completed .. | .failed .. => False

/-- The ends of tasks told at `p`, oldest first. -/
def ends (p : ℕ) : FleetLog → List WorkerEvent
  | [] => []
  | k :: log =>
    if k.party = p then ends p log ++ (told k.entry).filter WorkerEvent.isTerminal
    else ends p log

/-- A subscriber that never fell behind has received all events since it came. -/
structure Followed (events : List WorkerEvent) (u : Subscriber) : Prop where
  start : u.start ≤ u.next
  next : u.next ≤ events.length
  received : u.received ⊆ events
  taken : u.taken ≤ u.received.length
  complete : u.skipped = 0 → u.received = (events.take u.next).drop u.start

section Following

variable {t : TransportState} {events new : List WorkerEvent} {u u' : Subscriber}

theorem Followed.more (h : Followed events u) : Followed (events ++ new) u where
  start := h.start
  next := by
    have := h.next
    rw [List.length_append]
    omega
  received := fun _ he => List.mem_append_left _ (h.received he)
  taken := h.taken
  complete hs := by rw [h.complete hs, List.take_append_of_le_length h.next]

theorem followed_new (events : List WorkerEvent) :
    Followed events { start := events.length, next := events.length } where
  start := Nat.le_refl _
  next := Nat.le_refl _
  received := List.nil_subset _
  taken := Nat.le_refl _
  complete _ := by simp

theorem pump_followed (hp : t.pump u = some u') (h : Followed t.events u) :
    Followed t.events u' := by
  have hstart := h.start
  have hnext := h.next
  unfold TransportState.pump at hp
  split at hp
  · next hfar =>
    cases hp
    refine ⟨?_, ?_, h.received, h.taken, ?_⟩
    · change u.start ≤ t.events.length - eventChannelCapacity
      omega
    · change t.events.length - eventChannelCapacity ≤ t.events.length
      omega
    · intro hs
      change u.skipped + (t.events.length - eventChannelCapacity - u.next) = 0 at hs
      omega
  · obtain ⟨e, he, rfl⟩ := Option.map_eq_some_iff.mp hp
    obtain ⟨hlt, hget⟩ := List.getElem?_eq_some_iff.mp he
    refine ⟨?_, hlt, ?_, ?_, ?_⟩
    · change u.start ≤ u.next + 1
      omega
    · intro x hx
      rcases List.mem_append.mp hx with hx | hx
      · exact h.received hx
      · cases List.mem_singleton.mp hx
        exact List.mem_of_getElem? he
    · change u.taken ≤ (u.received ++ [e]).length
      rw [List.length_append]
      have := h.taken
      omega
    · intro hs
      change u.received ++ [e] = (t.events.take (u.next + 1)).drop u.start
      rw [h.complete hs, List.take_add_one, he, Option.toList_some,
        List.drop_append_of_le_length]
      rw [List.length_take]
      omega

end Following

section Operations

variable {t t' : TransportState} {a : AcpChoice} {hosts : WorkerId → Host} {o : AcpOp}
  {r : o.Answer}

theorem perform_tells (h : t.perform a hosts o = some (r, t')) :
    t'.events = t.events ++ told ⟨.acp o, r⟩ ∧ t'.subscribers = t.subscribers := by
  cases o with
  | broadcast e =>
    cases h
    exact ⟨rfl, rfl⟩
  | failDrained i drained reason =>
    cases h
    exact ⟨rfl, rfl⟩
  | tryAcquirePermit i =>
    simp only [TransportState.perform] at h
    split at h <;> cases h <;> exact ⟨(List.append_nil _).symm, rfl⟩
  | awaitFlush q =>
    simp only [TransportState.perform] at h
    split at h <;> cases h
    exact ⟨(List.append_nil _).symm, rfl⟩
  | _ =>
    cases h
    exact ⟨(List.append_nil _).symm, rfl⟩

theorem gauge_transport (q : Process) (n : ℕ) :
    ({ q with runningGauge := n } : Process).transport = q.transport := rfl

/-- Only transport operations touch the transport. -/
theorem perform_transport (cfg : ProcessConfig) (now : ℤ) (q : Process) (o : ProcessOp) :
    (q.perform cfg now o).2.transport = q.transport := by
  cases o with
  | breakerGet w initial =>
    simp only [Process.perform]
    split <;> rfl
  | breakerCheck w =>
    simp only [Process.perform]
    split <;> rfl
  | breakerRecord w outcome =>
    simp only [Process.perform]
    split <;> rfl
  | reportUnacked agent generation =>
    simp only [Process.perform]
    split <;> rfl
  | incRunning => exact gauge_transport q _
  | decRunning => exact gauge_transport q _
  | _ => rfl

end Operations

/-- What a step does to the events of a transport and to those who follow them. -/
inductive Streams (t t' : TransportState) : List WorkerEvent → Prop
  | told (new : List WorkerEvent) (he : t'.events = t.events ++ new)
      (hs : t'.subscribers = t.subscribers) : Streams t t' new
  | followed (he : t'.events = t.events)
      (hf : (∀ u ∈ t.subscribers, Followed t.events u) → ∀ u ∈ t'.subscribers,
        Followed t.events u) : Streams t t' []

section Steps

variable {t t' : TransportState}

theorem streams_same (he : t'.events = t.events) (hs : t'.subscribers = t.subscribers) :
    Streams t t' [] :=
  .told [] (by rw [he, List.append_nil]) hs

theorem streams_refl (t : TransportState) : Streams t t [] := streams_same rfl rfl

theorem streams_take {e : WorkerEvent} (h : takeEvent e t = some t') : Streams t t' [] := by
  unfold takeEvent at h
  cases hs : t.subscribers with
  | nil =>
    rw [hs] at h
    cases h
  | cons u us =>
    rw [hs] at h
    dsimp only at h
    split at h
    · next hget =>
      cases h
      refine .followed rfl fun hf v hv => ?_
      rcases List.mem_cons.mp hv with rfl | hv
      · have hu := hf u (hs ▸ List.mem_cons_self)
        have hlt := (List.getElem?_eq_some_iff.mp hget).1
        exact ⟨hu.start, hu.next, hu.received, hlt, hu.complete⟩
      · exact hf v (hs ▸ List.mem_cons_of_mem _ hv)
    · cases h

theorem streams_clean {link : ℕ} (h : beginCleaning link t = some t') : Streams t t' [] := by
  unfold beginCleaning at h
  split at h
  · cases h
  · split at h
    · cases h
      exact streams_same rfl rfl
    · cases h

theorem streams_pump {j : ℕ} (h : pumpAt j t = some t') : Streams t t' [] := by
  unfold pumpAt at h
  split at h
  · cases h
  · next u hu =>
    obtain ⟨u', hp, rfl⟩ := Option.map_eq_some_iff.mp h
    refine .followed rfl fun hf v hv => ?_
    rcases List.mem_or_eq_of_mem_set hv with hv | rfl
    · exact hf v hv
    · exact pump_followed hp (hf u (List.mem_of_getElem? hu))

theorem streams_subscribe (t : TransportState) : Streams t t.subscribe [] := by
  refine .followed rfl fun hf v hv => ?_
  rcases List.mem_append.mp hv with hv | hv
  · exact hf v hv
  · cases List.mem_singleton.mp hv
    exact followed_new t.events

theorem incidental_ends {new : List WorkerEvent} (h : ∀ e ∈ new, Incidental e) :
    new.filter WorkerEvent.isTerminal = [] := by
  rw [List.filter_eq_nil_iff]
  intro e he ht
  have hi := h e he
  cases e with
  | output | toolCall | sessionOpened => cases ht
  | completed | failed => cases hi

/-- A consumer tells what it consumes. -/
theorem streams_consume {q : ℕ} (h : t.consume q = some t') :
    ∃ new, Streams t t' new ∧ ∀ e ∈ new, Incidental e := by
  have one {e : WorkerEvent} (he : Incidental e) : ∀ e' ∈ [e], Incidental e' := by
    intro e' hm
    rwa [List.mem_singleton.mp hm]
  unfold TransportState.consume at h
  split at h
  · cases h
  · split at h
    · cases h
    · cases h
      exact ⟨_, .told _ rfl rfl, one trivial⟩
    · cases h
      exact ⟨_, .told _ rfl rfl, one trivial⟩
    · cases h
      exact ⟨[], streams_same rfl rfl, fun _ he => by cases he⟩

variable {D : Deployment} {c c' : FleetConfig} {x : FleetAction}

theorem accept_streams {q : ℕ} {a : Activity} {w w' : World} (h : accept q a w = some w')
    (p : ℕ) : Streams (w.transport p) (w'.transport p) [] := by
  have moved {t : TransportState} (ht : Streams (w.transport q) t []) :
      Streams (w.transport p) ((w.withTransport q t).transport p) [] := by
    unfold World.transport World.withTransport
    by_cases hp : p = q
    · subst hp
      rw [World.setProcess_self]
      exact ht
    · rw [World.setProcess_ne _ _ hp]
      exact streams_refl _
  cases a with
  | submit t =>
    obtain ⟨-, -, rfl⟩ := mint_eq h
    exact streams_refl _
  | workerEvent e =>
    obtain ⟨t, ht, rfl⟩ := Option.map_eq_some_iff.mp h
    exact moved (streams_take ht)
  | connectionEnded link =>
    obtain ⟨t, ht, rfl⟩ := Option.map_eq_some_iff.mp h
    exact moved (streams_clean ht)
  | prompt => cases h
  | cancel | reconcile | deleteTask | acquireLease | renewLease | releaseLease | unregister =>
    cases h
    exact streams_refl _

theorem disturb_streams {e : Disturbance} {w w' : World} (h : disturb e w = some w') (p : ℕ) :
    ∃ new, Streams (w.transport p) (w'.transport p) new ∧
      ∀ e ∈ new, Incidental e := by
  have none : ∀ e ∈ ([] : List WorkerEvent), Incidental e := fun _ he => by cases he
  have kept {w₁ : World} (hw : w₁.process p = w.process p) :
      ∃ new, Streams (w.transport p) (w₁.transport p) new ∧
        ∀ e ∈ new, Incidental e := by
    refine ⟨[], ?_, none⟩
    unfold World.transport
    rw [hw]
    exact streams_refl _
  have moved {q : ℕ} {t : TransportState} (ht : ∃ new, Streams (w.transport q) t new ∧
      ∀ e ∈ new, Incidental e) :
      ∃ new, Streams (w.transport p) ((w.withTransport q t).transport p) new ∧
        ∀ e ∈ new, Incidental e := by
    by_cases hp : p = q
    · subst hp
      unfold World.transport World.withTransport
      rw [World.setProcess_self]
      exact ht
    · exact kept (World.setProcess_ne _ _ hp)
  have same {q : ℕ} {t : TransportState} (he : t.events = (w.transport q).events)
      (hs : t.subscribers = (w.transport q).subscribers) :
      ∃ new, Streams (w.transport p) ((w.withTransport q t).transport p) new ∧
        ∀ e ∈ new, Incidental e := moved ⟨[], streams_same he hs, none⟩
  cases e with
  | elapse | setWorkers | setAgents | setCredentials | setTemplates | loseSession
  | resumeSession =>
    cases h
    exact kept rfl
  | insertPending t =>
    obtain ⟨w₁, hm, rfl⟩ := Option.map_eq_some_iff.mp h
    obtain ⟨-, -, rfl⟩ := mint_eq hm
    exact kept rfl
  | openSession v sessionId =>
    obtain ⟨u, -, rfl⟩ := Option.map_eq_some_iff.mp h
    exact kept rfl
  | resetBreaker q v =>
    cases h
    by_cases hp : p = q
    · subst hp
      refine ⟨[], ?_, none⟩
      unfold World.transport
      rw [World.setProcess_self]
      unfold resetBreaker
      split <;> exact streams_refl _
    · exact kept (World.setProcess_ne _ _ hp)
  | register q v n =>
    obtain ⟨t, ht, rfl⟩ := Option.map_eq_some_iff.mp h
    unfold register at ht
    split at ht
    · cases ht
    · cases ht
      exact same rfl rfl
  | connecting q link =>
    obtain ⟨t, ht, rfl⟩ := Option.map_eq_some_iff.mp h
    unfold connecting at ht
    split at ht
    · cases ht
    · split at ht
      · cases ht
        exact same rfl rfl
      · cases ht
  | established q link connection declaresList =>
    obtain ⟨t, ht, rfl⟩ := Option.map_eq_some_iff.mp h
    unfold established at ht
    split at ht
    · cases ht
    · split at ht
      · cases ht
        exact same rfl rfl
      · cases ht
  | notify q link sessionId msg =>
    cases h
    unfold TransportState.notify
    split
    · exact same rfl rfl
    · exact same rfl rfl
  | consume q queue =>
    obtain ⟨t, ht, rfl⟩ := Option.map_eq_some_iff.mp h
    exact moved (streams_consume ht)
  | subscribe q =>
    cases h
    exact moved ⟨[], streams_subscribe _, none⟩
  | pump q j =>
    obtain ⟨t, ht, rfl⟩ := Option.map_eq_some_iff.mp h
    exact moved ⟨[], streams_pump ht, none⟩

theorem exec_streams {ch : Choice} {q : ℕ} {op : Op} {w w' : World} {r : Resp op}
    (h : exec D ch q op w = some (r, w')) (p : ℕ) :
    Streams (w.transport p) (w'.transport p) (if q = p then told ⟨op, r⟩ else []) := by
  cases op with
  | store o =>
    obtain ⟨-, rfl⟩ := exec_store h
    simp only [told, ite_self]
    exact streams_refl _
  | process o =>
    obtain ⟨-, rfl⟩ := exec_process h
    simp only [told, ite_self]
    by_cases hp : p = q
    · subst hp
      unfold World.transport
      rw [World.setProcess_self, perform_transport]
      exact streams_refl _
    · unfold World.transport
      rw [World.setProcess_ne _ _ hp]
      exact streams_refl _
  | acp o =>
    obtain ⟨w₁, t, hh, ht, rfl⟩ := exec_acp h
    obtain ⟨-, hprocess, -⟩ := hostEffect_rest hh
    unfold World.transport
    by_cases hp : p = q
    · subst hp
      rw [World.setProcess_self, if_pos rfl]
      obtain ⟨he, hs⟩ := perform_tells ht
      exact .told _ he hs
    · rw [World.setProcess_ne _ _ hp, hprocess, if_neg (Ne.symm hp)]
      exact streams_refl _
  | readSkill file =>
    obtain rfl := exec_readSkill h
    simp only [told, ite_self]
    exact streams_refl _

/-- Every step tells what its operation tells, and the followers keep up or fall behind. -/
theorem step_streams (hs : (fleet D).step c x = some c') (p : ℕ) :
    ∃ new, Streams (c.state.transport p) (c'.state.transport p) new ∧
      ends p c'.log = ends p c.log ++ new.filter WorkerEvent.isTerminal := by
  cases x with
  | start q a =>
    obtain ⟨ha, -, hl⟩ := step_start hs
    refine ⟨[], accept_streams ha p, ?_⟩
    rw [hl, List.filter_nil, List.append_nil]
  | env e =>
    obtain ⟨he, -, hl⟩ := step_env hs
    obtain ⟨new, hn, hf⟩ := disturb_streams he p
    exact ⟨new, hn, by rw [hl, incidental_ends hf, List.append_nil]⟩
  | run i ch =>
    obtain ⟨op, ⟨r⟩⟩ := step_run hs
    refine ⟨_, exec_streams (ran_exec r) p, ?_⟩
    rw [r.log, ends]
    dsimp only
    split
    · rfl
    · rw [List.filter_nil, List.append_nil]

end Steps

theorem streams_mem {new : List WorkerEvent} {e : WorkerEvent} (h : Streams t t' new)
    (he : e ∈ t'.events) : e ∈ t.events ∨ e ∈ new := by
  cases h with
  | told _ hevents _ =>
    rw [hevents] at he
    exact List.mem_append.mp he
  | followed hevents _ =>
    rw [hevents] at he
    exact .inl he

/-- What the channel of a process carries after a step. -/
theorem step_told (hs : (fleet D).step c x = some c') {p : ℕ} {e : WorkerEvent}
    (he : e ∈ (c'.state.transport p).events) :
    e ∈ (c.state.transport p).events ∨ Incidental e ∨
      ∃ k, c'.log = k :: c.log ∧ k.party = p ∧ e ∈ told k.entry := by
  cases x with
  | start q a =>
    rcases streams_mem (accept_streams (step_start hs).1 p) he with h | h
    · exact .inl h
    · cases h
  | env d =>
    obtain ⟨new, hn, hi⟩ := disturb_streams (step_env hs).1 p
    rcases streams_mem hn he with h | h
    · exact .inl h
    · exact .inr (.inl (hi e h))
  | run i ch =>
    obtain ⟨op, ⟨r⟩⟩ := step_run hs
    rcases streams_mem (exec_streams (ran_exec r) p) he with h | h
    · exact .inl h
    · split at h
      · next hp => exact .inr (.inr ⟨_, r.log, hp, h⟩)
      · cases h

/-- The ends a transport has told are those of the log, and every subscriber followed them. -/
structure Streamed (p : ℕ) (c : FleetConfig) : Prop where
  ends : (c.state.transport p).events.filter WorkerEvent.isTerminal = ends p c.log
  followed : ∀ u ∈ (c.state.transport p).subscribers, Followed (c.state.transport p).events u

section Runs

variable {D : Deployment} {cond : FleetConfig → FleetAction → Prop} {c₀ c c' : FleetConfig}
  {x : FleetAction} {p : ℕ}

theorem streamed_step (hs : (fleet D).step c x = some c') (h : Streamed p c) : Streamed p c' := by
  obtain ⟨new, hn, hends⟩ := step_streams hs p
  cases hn with
  | told _ he hu =>
    constructor
    · rw [he, List.filter_append, h.ends, hends]
    · rw [he, hu]
      exact fun u hm => (h.followed u hm).more
  | followed he hf =>
    constructor
    · rw [he, h.ends, hends, List.filter_nil, List.append_nil]
    · rw [he]
      exact hf h.followed

theorem streamed (h₀ : Start c₀) (h : (fleet D).Reaches cond c₀ c) (p : ℕ) : Streamed p c := by
  apply h.invariant (P := Streamed p)
  · have ht : c₀.state.transport p = {} := by rw [World.transport, h₀.pristine.process]
    constructor
    · rw [ht, h₀.fresh.log]
      rfl
    · rw [ht]
      intro u hu
      cases hu
  · intro c x c' _ _ hs hp
    exact streamed_step hs hp

theorem mem_ends {log : FleetLog} {e : WorkerEvent} (h : e ∈ ends p log) :
    e.isTerminal = true ∧ ∃ k ∈ log, k.party = p ∧ e ∈ told k.entry := by
  induction log with
  | nil => cases h
  | cons k log ih =>
    have later (hl : e ∈ ends p log) :
        e.isTerminal = true ∧ ∃ k₁ ∈ k :: log, k₁.party = p ∧ e ∈ told k₁.entry := by
      obtain ⟨ht, k₁, hk, hr⟩ := ih hl
      exact ⟨ht, k₁, List.mem_cons_of_mem _ hk, hr⟩
    unfold ends at h
    split at h
    · next hp =>
      rcases List.mem_append.mp h with h | h
      · exact later h
      · obtain ⟨hm, ht⟩ := List.mem_filter.mp h
        exact ⟨ht, k, List.mem_cons_self, hp, hm⟩
    · exact later h

/-- An end told by a transport was told by one of the operations of its process. -/
theorem end_told (h₀ : Start c₀) (h : (fleet D).Reaches cond c₀ c) {e : WorkerEvent}
    (he : e ∈ (c.state.transport p).events) (ht : e.isTerminal = true) :
    ∃ k ∈ c.log, k.party = p ∧ e ∈ told k.entry := by
  apply And.right
  apply mem_ends
  rw [← (streamed h₀ h p).ends]
  exact List.mem_filter.mpr ⟨he, ht⟩

end Runs

/-- What becomes of a transport between the operations of its own process; nothing is heard of
its workers but what is given. -/
inductive Outside (heard : SessionMsg → Prop) (t : TransportState) : TransportState → Prop
  | followed (us : List Subscriber) : Outside heard t { t with subscribers := us }
  | supervised (link : ℕ) (f : WorkerSession → WorkerSession)
      (hf : ∀ l, (f l).workerId = l.workerId ∧ (f l).capacity = l.capacity ∧
        (f l).maxConcurrent = l.maxConcurrent ∧ (f l).sessions = l.sessions) :
      Outside heard t (t.modifyLink link f)
  | registered (w : WorkerId) (n : ℕ) (t' : TransportState) (h : register w n t = some t') :
      Outside heard t t'
  | notified (link : ℕ) (s : SessionId) (msg : SessionMsg) (hm : heard msg) :
      Outside heard t (t.notify link s msg)
  | consumed (q : ℕ) (t' : TransportState) (h : t.consume q = some t') : Outside heard t t'

/-- A worker tells something of one of its sessions. -/
def Notifies (x : FleetAction) (msg : SessionMsg) : Prop :=
  ∃ p link s, x = .env (.notify p link s msg)

section Transports

variable {D : Deployment} {w w' : World} {t t' : TransportState} {p : ℕ}
  {heard : SessionMsg → Prop}

theorem link_modify {link i : ℕ} (f : WorkerSession → WorkerSession) : (t.modifyLink i f).link? link =
    if i = link then (t.link? link).map f else t.link? link := by
  simp only [TransportState.link?, TransportState.modifyLink, List.getElem?_modify]
  split
  · rfl
  · simp

theorem outside_refl (t : TransportState) : Outside heard t t := .followed t.subscribers

theorem outside_moved {q : ℕ} (h : Outside heard (w.transport q) t) :
    Outside heard (w.transport p) ((w.withTransport q t).transport p) := by
  unfold World.transport World.withTransport
  by_cases hp : p = q
  · subst hp
    rw [World.setProcess_self]
    exact h
  · rw [World.setProcess_ne _ _ hp]
    exact outside_refl _

theorem accept_outside {q : ℕ} {a : Activity} (h : accept q a w = some w') (p : ℕ) :
    Outside (Notifies (.start q a)) (w.transport p) (w'.transport p) := by
  cases a with
  | submit t =>
    obtain ⟨-, -, rfl⟩ := mint_eq h
    exact outside_refl _
  | workerEvent e =>
    obtain ⟨t, ht, rfl⟩ := Option.map_eq_some_iff.mp h
    apply outside_moved
    unfold takeEvent at ht
    split at ht
    · cases ht
    · split at ht
      · cases ht
        exact .followed _
      · cases ht
  | connectionEnded i =>
    obtain ⟨t, ht, rfl⟩ := Option.map_eq_some_iff.mp h
    apply outside_moved
    unfold beginCleaning at ht
    split at ht
    · cases ht
    · split at ht
      · cases ht
        exact .supervised _ _ fun _ => ⟨rfl, rfl, rfl, rfl⟩
      · cases ht
  | prompt => cases h
  | cancel | reconcile | deleteTask | acquireLease | renewLease | releaseLease | unregister =>
    cases h
    exact outside_refl _

theorem disturb_outside {e : Disturbance} (h : disturb e w = some w') (p : ℕ) :
    Outside (Notifies (.env e)) (w.transport p) (w'.transport p) := by
  cases e with
  | elapse | setWorkers | setAgents | setCredentials | setTemplates | loseSession
  | resumeSession =>
    cases h
    exact outside_refl _
  | insertPending t =>
    obtain ⟨w₁, hm, rfl⟩ := Option.map_eq_some_iff.mp h
    obtain ⟨-, -, rfl⟩ := mint_eq hm
    exact outside_refl _
  | openSession v sessionId =>
    obtain ⟨u, -, rfl⟩ := Option.map_eq_some_iff.mp h
    exact outside_refl _
  | resetBreaker q v =>
    cases h
    unfold World.transport
    by_cases hp : p = q
    · subst hp
      rw [World.setProcess_self]
      unfold resetBreaker
      split <;> exact outside_refl _
    · rw [World.setProcess_ne _ _ hp]
      exact outside_refl _
  | register q v n =>
    obtain ⟨t, ht, rfl⟩ := Option.map_eq_some_iff.mp h
    exact outside_moved (.registered v n t ht)
  | connecting q i =>
    obtain ⟨t, ht, rfl⟩ := Option.map_eq_some_iff.mp h
    apply outside_moved
    unfold connecting at ht
    split at ht
    · cases ht
    · split at ht
      · cases ht
        exact .supervised _ _ fun _ => ⟨rfl, rfl, rfl, rfl⟩
      · cases ht
  | established q i connection declaresList =>
    obtain ⟨t, ht, rfl⟩ := Option.map_eq_some_iff.mp h
    apply outside_moved
    unfold established at ht
    split at ht
    · cases ht
    · split at ht
      · cases ht
        exact .supervised _ _ fun _ => ⟨rfl, rfl, rfl, rfl⟩
      · cases ht
  | notify q i sessionId msg =>
    cases h
    exact outside_moved (.notified i sessionId msg ⟨q, i, sessionId, rfl⟩)
  | consume q queue =>
    obtain ⟨t, ht, rfl⟩ := Option.map_eq_some_iff.mp h
    exact outside_moved (.consumed queue t ht)
  | subscribe q =>
    cases h
    exact outside_moved (.followed _)
  | pump q j =>
    obtain ⟨t, ht, rfl⟩ := Option.map_eq_some_iff.mp h
    apply outside_moved
    unfold pumpAt at ht
    split at ht
    · cases ht
    · obtain ⟨u, -, rfl⟩ := Option.map_eq_some_iff.mp ht
      exact .followed _

theorem exec_transport {ch : Choice} {o : AcpOp} {r : o.Answer}
    (h : exec D ch p (.acp o) w = some (r, w')) :
    (w.transport p).perform ch.acp w.host o = some (r, w'.transport p) := by
  obtain ⟨w₁, t, -, ht, rfl⟩ := exec_acp h
  rw [ht]
  unfold World.transport
  rw [World.setProcess_self]
  rfl

/-- Only its own process operates on a transport. -/
theorem exec_elsewhere {ch : Choice} {q : ℕ} {op : Op} {r : Resp op}
    (h : exec D ch q op w = some (r, w')) (hn : q = p → ∀ o, op ≠ .acp o) :
    w'.transport p = w.transport p := by
  cases op with
  | store o =>
    obtain ⟨-, rfl⟩ := exec_store h
    rfl
  | process o =>
    obtain ⟨-, rfl⟩ := exec_process h
    unfold World.transport
    by_cases hp : p = q
    · subst hp
      rw [World.setProcess_self, perform_transport]
    · rw [World.setProcess_ne _ _ hp]
  | acp o =>
    obtain ⟨w₁, t, hh, -, rfl⟩ := exec_acp h
    obtain ⟨-, hprocess, -⟩ := hostEffect_rest hh
    have hp : p ≠ q := fun he => hn he.symm o rfl
    unfold World.transport
    rw [World.setProcess_ne _ _ hp, hprocess]
  | readSkill file =>
    obtain rfl := exec_readSkill h
    rfl

variable {c c' : FleetConfig} {x : FleetAction}

/-- A step does an operation of the process on its transport, or lets something else become of it. -/
theorem transport_step (hs : (fleet D).step c x = some c') (p : ℕ) :
    Outside (Notifies x) (c.state.transport p) (c'.state.transport p) ∨
      ∃ i ch o, x = .run i ch ∧ ∃ r : (fleet D).Ran c c' i ch (.acp o), r.party = p ∧
        (c.state.transport p).perform ch.acp c.state.host o =
          some (r.resp, c'.state.transport p) := by
  cases x with
  | start q a => exact .inl (accept_outside (step_start hs).1 p)
  | env e => exact .inl (disturb_outside (step_env hs).1 p)
  | run i ch =>
    obtain ⟨op, ⟨r⟩⟩ := step_run hs
    by_cases hacp : r.party = p ∧ ∃ o, op = .acp o
    · obtain ⟨rfl, o, rfl⟩ := hacp
      exact .inr ⟨i, ch, o, rfl, r, rfl, exec_transport (ran_exec r)⟩
    · left
      rw [exec_elsewhere (ran_exec r) fun hp o ho => hacp ⟨hp, o, ho⟩]
      exact outside_refl _

end Transports

end FleetOrchestrator.Scheduler
