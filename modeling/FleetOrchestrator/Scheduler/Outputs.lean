import FleetOrchestrator.Scheduler.Cancelling
import FleetOrchestrator.Scheduler.Vanishing

/-! What a worker's session says, from its notifications to the result of the task. -/

namespace FleetOrchestrator.Scheduler

open Core Store Transport Interleaving Machine

def outputOf (id : TaskId) : WorkerEvent → Option (ℕ × String)
  | .output i seq text => if i = id then some (seq, text) else none
  | _ => none

/-- The output of a task that was put on the channel, in this order. -/
def outputs (id : TaskId) (events : List WorkerEvent) : List (ℕ × String) :=
  events.filterMap (outputOf id)

def numbered (texts : List String) : List (ℕ × String) := texts.mapIdx Prod.mk

/-- The consumer of the queue has put what it took on the channel, numbered from zero. -/
def Fed (events : List WorkerEvent) (u : NotifyQueue) : Prop :=
  ∃ texts, outputs u.taskId events = numbered texts ∧ u.seq = texts.length ∧
    u.outputBuf = String.join texts

/-- Each task has one queue at most, and only its own says anything for it. -/
structure Tidy (t : TransportState) : Prop where
  once : (t.queues.map NotifyQueue.taskId).Nodup
  fed : ∀ (q : ℕ) u, t.queues[q]? = some u → Fed t.events u
  unheard : ∀ id, id ∉ t.queues.map NotifyQueue.taskId → outputs id t.events = []

section Feeding

variable {t t' : TransportState} {id : TaskId} {q : ℕ} {u : NotifyQueue} {texts texts' : List String}

theorem numbered_append (texts : List String) (text : String) :
    numbered (texts ++ [text]) = numbered texts ++ [(texts.length, text)] :=
  List.mapIdx_concat

theorem numbered_texts (texts : List String) : (numbered texts).map Prod.snd = texts := by
  apply List.ext_getElem?
  intro i
  simp only [numbered, List.getElem?_map, List.getElem?_mapIdx, Option.map_map]
  exact Option.map_id'

theorem numbered_inj (h : numbered texts = numbered texts') : texts = texts' := by
  rw [← numbered_texts texts, h, numbered_texts]

theorem numbered_prefix (h : numbered texts <+: numbered texts') : texts <+: texts' := by
  rw [← numbered_texts texts, ← numbered_texts texts']
  exact h.map Prod.snd

theorem outputs_append (id : TaskId) (events new : List WorkerEvent) :
    outputs id (events ++ new) = outputs id events ++ outputs id new :=
  List.filterMap_append

theorem outputs_silent {new : List WorkerEvent} (h : ∀ e ∈ new, outputOf id e = none) :
    outputs id new = [] := List.filterMap_eq_nil_iff.mpr h

/-- A queue is known by its task. -/
theorem Tidy.same (h : Tidy t) {q' : ℕ} {u' : NotifyQueue} (hu : t.queues[q]? = some u)
    (hu' : t.queues[q']? = some u') (hi : u.taskId = u'.taskId) : q = q' := by
  have hq : (t.queues.map NotifyQueue.taskId)[q]? = some u.taskId := by
    rw [List.getElem?_map, hu, Option.map_some]
  have hq' : (t.queues.map NotifyQueue.taskId)[q']? = some u.taskId := by
    rw [List.getElem?_map, hu', Option.map_some, hi]
  exact (List.getElem?_inj (List.getElem?_eq_some_iff.mp hq).1 h.once).mp (hq.trans hq'.symm)

theorem ids_modify {f : NotifyQueue → NotifyQueue} (hf : ∀ u, (f u).taskId = u.taskId)
    (queues : List NotifyQueue) :
    (queues.modify q f).map NotifyQueue.taskId = queues.map NotifyQueue.taskId := by
  apply List.ext_getElem?
  intro i
  simp only [List.getElem?_map, List.getElem?_modify, Option.map_eq_map, Option.map_map]
  congr 1
  funext u
  simp only [Function.comp]
  split
  · exact hf u
  · rfl

/-- Who neither writes to the buffer nor tells any output leaves things tidy. -/
theorem Tidy.kept (h : Tidy t) {f : NotifyQueue → NotifyQueue}
    (hf : ∀ u, (f u).taskId = u.taskId ∧ (f u).seq = u.seq ∧ (f u).outputBuf = u.outputBuf)
    (hq : t'.queues = t.queues.modify q f)
    (he : ∀ id, outputs id t'.events = outputs id t.events) : Tidy t' := by
  have hids : t'.queues.map NotifyQueue.taskId = t.queues.map NotifyQueue.taskId := by
    rw [hq, ids_modify fun u => (hf u).1]
  refine ⟨hids ▸ h.once, fun i u' hu' => ?_, fun id hid => ?_⟩
  · rw [hq, List.getElem?_modify] at hu'
    obtain ⟨u, hu, hmade⟩ := Option.map_eq_some_iff.mp hu'
    have hsame : u'.taskId = u.taskId ∧ u'.seq = u.seq ∧ u'.outputBuf = u.outputBuf := by
      rw [← hmade]
      split
      · exact hf u
      · exact ⟨rfl, rfl, rfl⟩
    obtain ⟨texts, ho, hs, hb⟩ := h.fed i u hu
    refine ⟨texts, ?_, hsame.2.1.trans hs, hsame.2.2.trans hb⟩
    rw [hsame.1, he, ho]
  · rw [he]
    exact h.unheard id (hids ▸ hid)

theorem Tidy.same_queues (h : Tidy t) (hq : t'.queues = t.queues)
    (he : ∀ id, outputs id t'.events = outputs id t.events) : Tidy t' := by
  refine ⟨hq ▸ h.once, fun i u hu => ?_, fun id hid => ?_⟩
  · obtain ⟨texts, ho, hrest⟩ := h.fed i u (hq ▸ hu)
    exact ⟨texts, (he _).trans ho, hrest⟩
  · rw [he]
    exact h.unheard id (hq ▸ hid)

theorem Tidy.opened (h : Tidy t) {w : WorkerId} (hid : id ∉ t.queues.map NotifyQueue.taskId)
    (hq : t'.queues = t.queues ++ [{ taskId := id, workerId := w }])
    (he : t'.events = t.events) : Tidy t' := by
  have hids : t'.queues.map NotifyQueue.taskId = t.queues.map NotifyQueue.taskId ++ [id] := by
    rw [hq, List.map_append]
    rfl
  refine ⟨?_, fun i u hu => ?_, fun j hj => ?_⟩
  · rw [hids, List.nodup_append]
    refine ⟨h.once, List.nodup_singleton id, ?_⟩
    intro a ha b hb
    rw [List.mem_singleton.mp hb]
    rintro rfl
    exact hid ha
  · rw [he]
    rw [hq] at hu
    rcases Nat.lt_or_ge i t.queues.length with hi | hi
    · rw [List.getElem?_append_left hi] at hu
      exact h.fed i u hu
    · rw [List.getElem?_append_right hi] at hu
      obtain rfl := List.mem_singleton.mp (List.mem_of_getElem? hu)
      exact ⟨[], h.unheard id hid, rfl, rfl⟩
  · rw [he]
    rw [hids] at hj
    exact h.unheard j fun hm => hj (List.mem_append_left _ hm)

/-- The consumer takes up a chunk. -/
theorem Tidy.told (h : Tidy t) {text : String} {f : NotifyQueue → NotifyQueue}
    (hu : t.queues[q]? = some u)
    (hf : ∀ v, (f v).taskId = v.taskId ∧ (f v).seq = v.seq + 1 ∧
      (f v).outputBuf = v.outputBuf ++ text)
    (hq : t'.queues = t.queues.modify q f)
    (he : t'.events = t.events ++ [.output u.taskId u.seq text]) : Tidy t' := by
  have hids : t'.queues.map NotifyQueue.taskId = t.queues.map NotifyQueue.taskId := by
    rw [hq, ids_modify fun u => (hf u).1]
  have hmine : outputs u.taskId [.output u.taskId u.seq text] = [(u.seq, text)] := by
    simp [outputs, outputOf]
  have hothers (i : TaskId) (hi : i ≠ u.taskId) : outputs i t'.events = outputs i t.events := by
    have hsilent : outputs i [.output u.taskId u.seq text] = [] := by
      apply outputs_silent
      intro e hm
      rw [List.mem_singleton.mp hm]
      exact if_neg (Ne.symm hi)
    rw [he, outputs_append, hsilent, List.append_nil]
  refine ⟨hids ▸ h.once, fun i v' hv' => ?_, fun i hi => ?_⟩
  · rw [hq, List.getElem?_modify] at hv'
    obtain ⟨v, hv, hmade⟩ := Option.map_eq_some_iff.mp hv'
    obtain ⟨texts, ho, hs, hb⟩ := h.fed i v hv
    by_cases hiq : q = i
    · subst hiq
      rw [hu] at hv
      cases hv
      rw [if_pos rfl] at hmade
      subst hmade
      obtain ⟨hid, hseq, hbuf⟩ := hf u
      refine ⟨texts ++ [text], ?_, ?_, ?_⟩
      · rw [hid, he, outputs_append, ho, hmine, numbered_append, hs]
      · rw [hseq, hs, List.length_append, List.length_singleton]
      · rw [hbuf, hb, String.join_append]
        simp
    · rw [if_neg hiq] at hmade
      subst hmade
      refine ⟨texts, ?_, hs, hb⟩
      rw [hothers _ fun hsame => hiq (h.same hu hv hsame.symm), ho]
  · have hi' : i ∉ t.queues.map NotifyQueue.taskId := hids ▸ hi
    rw [hothers, h.unheard i hi']
    rintro rfl
    exact hi' (List.mem_map_of_mem (List.mem_of_getElem? hu))

theorem consume_tidy (h : Tidy t) (hc : t.consume q = some t') : Tidy t' := by
  unfold TransportState.consume at hc
  split at hc
  · cases hc
  · next u hu =>
    split at hc
    · cases hc
    · next text rest hp =>
      cases hc
      refine h.told hu ?_ rfl rfl
      exact fun _ => ⟨rfl, rfl, rfl⟩
    · next invocation rest hp =>
      cases hc
      refine h.kept ?_ rfl fun id => ?_
      · exact fun _ => ⟨rfl, rfl, rfl⟩
      · exact (outputs_append _ _ _).trans (List.append_nil _)
    · cases hc
      refine h.kept ?_ rfl fun _ => rfl
      exact fun _ => ⟨rfl, rfl, rfl⟩

end Feeding

section Operations

variable {D : Deployment} {w w' : World} {t t' : TransportState} {p : ℕ}

/-- Of the operations only the notice of a lost connection, and what a prompt tells, could say
anything for a session; none of them does. -/
theorem perform_tidy {a : AcpChoice} {hosts : WorkerId → Host} {o : AcpOp} {r : o.Answer}
    (h : Tidy t) (hp : t.perform a hosts o = some (r, t'))
    (hnew : ∀ link s id w, o = .insertSession link s id w →
      id ∉ t.queues.map NotifyQueue.taskId)
    (htold : ∀ e, o = .broadcast e → ∀ id, outputOf id e = none) : Tidy t' := by
  have silent {new : List WorkerEvent} (hn : ∀ e ∈ new, ∀ id, outputOf id e = none)
      (he : t'.events = t.events ++ new) (id : TaskId) :
      outputs id t'.events = outputs id t.events := by
    have hsilent : outputs id new = [] := outputs_silent fun e hm => hn e hm id
    rw [he, outputs_append, hsilent, List.append_nil]
  cases o with
  | insertSession link s id w =>
    cases hp
    exact h.opened (hnew link s id w rfl) rfl rfl
  | broadcast e =>
    cases hp
    have hsilent : ∀ e' ∈ [e], ∀ id, outputOf id e' = none := by
      intro e' hm id
      rw [List.mem_singleton.mp hm]
      exact htold e rfl id
    apply h.same_queues
    · rfl
    · exact silent hsilent rfl
  | failDrained link drained reason =>
    cases hp
    apply h.same_queues
    · rfl
    · apply silent _ rfl
      intro e hm id
      obtain ⟨d, -, rfl⟩ := List.mem_map.mp hm
      rfl
  | sendFlush q =>
    cases hp
    refine h.kept ?_ rfl fun _ => rfl
    exact fun _ => ⟨rfl, rfl, rfl⟩
  | tryAcquirePermit link =>
    simp only [TransportState.perform] at hp
    split at hp <;> cases hp <;> exact h.same_queues rfl fun _ => rfl
  | awaitFlush q =>
    simp only [TransportState.perform] at hp
    split at hp <;> cases hp
    exact h
  | _ =>
    cases hp
    exact h.same_queues rfl fun _ => rfl

theorem outside_tidy {heard : SessionMsg → Prop} (h : Tidy t) (ho : Outside heard t t') :
    Tidy t' := by
  cases ho with
  | followed us => exact h.same_queues rfl fun _ => rfl
  | supervised i f hf => exact h.same_queues rfl fun _ => rfl
  | registered w n t' hr =>
    unfold register at hr
    split at hr
    · cases hr
    · cases hr
      exact h.same_queues rfl fun _ => rfl
  | notified i s msg =>
    unfold TransportState.notify
    split
    · exact h
    · refine h.kept ?_ rfl fun _ => rfl
      exact fun _ => ⟨rfl, rfl, rfl⟩
  | consumed q t' hc => exact consume_tidy h hc

theorem modify_ids {f : NotifyQueue → NotifyQueue} (hf : ∀ u, (f u).taskId = u.taskId) (q : ℕ) :
    (t.modifyQueue q f).queues.map NotifyQueue.taskId = t.queues.map NotifyQueue.taskId :=
  ids_modify hf t.queues

theorem outside_ids {heard : SessionMsg → Prop} (h : Outside heard t t') :
    t'.queues.map NotifyQueue.taskId = t.queues.map NotifyQueue.taskId := by
  cases h with
  | followed us => rfl
  | supervised i f hf => rfl
  | registered w n t' hr =>
    unfold register at hr
    split at hr
    · cases hr
    · cases hr
      rfl
  | notified i s msg =>
    unfold TransportState.notify
    split
    · rfl
    · apply modify_ids
      exact fun _ => rfl
  | consumed q t' hc =>
    unfold TransportState.consume at hc
    split at hc
    · cases hc
    · split at hc
      · cases hc
      · cases hc
        apply modify_ids
        exact fun _ => rfl
      · cases hc
        apply modify_ids
        exact fun _ => rfl
      · cases hc
        apply modify_ids
        exact fun _ => rfl

theorem perform_ids {a : AcpChoice} {hosts : WorkerId → Host} {o : AcpOp} {r : o.Answer}
    (h : t.perform a hosts o = some (r, t')) :
    t'.queues.map NotifyQueue.taskId = t.queues.map NotifyQueue.taskId ∨
      ∃ link s id w, o = .insertSession link s id w ∧
        t'.queues.map NotifyQueue.taskId = t.queues.map NotifyQueue.taskId ++ [id] := by
  cases o with
  | insertSession link s id w =>
    cases h
    exact .inr ⟨link, s, id, w, rfl, List.map_append⟩
  | sendFlush q =>
    cases h
    left
    apply modify_ids
    exact fun _ => rfl
  | tryAcquirePermit link =>
    simp only [TransportState.perform] at h
    split at h <;> cases h <;> exact .inl rfl
  | awaitFlush q =>
    simp only [TransportState.perform] at h
    split at h <;> cases h
    exact .inl rfl
  | _ =>
    cases h
    exact .inl rfl

end Operations

section Published

variable {D : Deployment} {cond : FleetConfig → FleetAction → Prop} {c₀ c c' : FleetConfig}
  {id : TaskId} {p i : ℕ}

def InsertsFor (id : TaskId) (k : Call Op Resp ℕ) : Prop :=
  ∃ link s w, k.op = .acp (.insertSession link s id w)

theorem insertedIn_none {h : History} (hn : insertedIn h = none) {e : Entry Op Resp} (he : e ∈ h)
    (link : ℕ) (s : SessionId) (w : WorkerId) : e.op ≠ .acp (.insertSession link s id w) := by
  fun_induction insertedIn h with
  | case1 => cases he
  | case2 => cases hn
  | case3 e' h hother ih =>
    rcases List.mem_cons.mp he with rfl | he
    · obtain ⟨op, r⟩ := e
      rintro rfl
      exact hother _ _ _ _ _ rfl
    · exact ih hn he

theorem inserted_once (h₀ : Start c₀) (h : (fleet D).Reaches cond c₀ c) (id : TaskId) :
    Once (InsertsFor id) c.log := by
  have inserter {k : Call Op Resp ℕ} {l : FleetLog} (hk : k :: l <:+ c.log)
      (hi : InsertsFor id k) : ∃ th, c.threads[k.thread]? = some th ∧ IsPromptOf id th.act ∧
        insertedIn (history l k.thread) = none := by
    obtain ⟨link, s, w, ho⟩ := hi
    obtain ⟨th, hth, -, hlic⟩ := logged_licensed h₀.seeded h hk
    rw [ho] at hlic
    obtain ⟨connection, req, cwd, hact, hid, -, -, hnone⟩ := hlic
    exact ⟨th, hth, ⟨link, connection, req, cwd, hact, hid.symm⟩, hnone⟩
  intro k l hk hi k' hk' hi'
  obtain ⟨th, hth, hprompt, hnone⟩ := inserter hk hi
  obtain ⟨l', hl'⟩ := placed hk'
  obtain ⟨th', hth', hprompt', -⟩ := inserter (hl'.trans ((List.suffix_cons k l).trans hk)) hi'
  have hthread : k'.thread = k.thread := prompt_unique h₀ h hth' hth hprompt' hprompt
  obtain ⟨link, s, w, ho⟩ := hi'
  have hmem : k'.entry ∈ history l k.thread := mem_history.mpr ⟨k', hk', hthread, rfl⟩
  exact insertedIn_none hnone hmem link s w ho

/-- A task has a queue only where a session was entered for it. -/
theorem queued_logged (h₀ : Start c₀) (h : (fleet D).Reaches cond c₀ c) (p : ℕ) :
    ∀ id ∈ (c.state.transport p).queues.map NotifyQueue.taskId,
      ∃ k ∈ c.log, k.party = p ∧ InsertsFor id k := by
  apply h.invariant (P := fun c => ∀ id ∈ (c.state.transport p).queues.map NotifyQueue.taskId,
    ∃ k ∈ c.log, k.party = p ∧ InsertsFor id k)
  · intro id hid
    rw [World.transport, h₀.pristine.process] at hid
    cases hid
  · intro c x c' _ _ hs ih id hid
    have known (hold : id ∈ (c.state.transport p).queues.map NotifyQueue.taskId) :
        ∃ k ∈ c'.log, k.party = p ∧ InsertsFor id k := by
      obtain ⟨k, hk, hrest⟩ := ih id hold
      exact ⟨k, (step_log hs).subset hk, hrest⟩
    rcases transport_step hs p with ho | ⟨i, ch, o, rfl, r, hp, hperform⟩
    · exact known (outside_ids ho ▸ hid)
    · rcases perform_ids hperform with hsame | ⟨link, s, i', w, rfl, hnew⟩
      · exact known (hsame ▸ hid)
      · rw [hnew] at hid
        rcases List.mem_append.mp hid with hold | hown
        · exact known hold
        · cases List.mem_singleton.mp hown
          rw [r.log]
          exact ⟨_, List.mem_cons_self, hp, link, s, w, rfl⟩

/-- What a process broadcasts for its prompts is never output. -/
theorem broadcast_silent (h₀ : Start c₀) (h : (fleet D).Reaches cond c₀ c) {ch : Choice}
    {e : WorkerEvent} (r : (fleet D).Ran c c' i ch (.acp (.broadcast e))) (id : TaskId) :
    outputOf id e = none := by
  obtain ⟨link, connection, req, cwd, -, hmay⟩ := r.licensed (fleet_disciplined D) h₀.fresh h
  cases e with
  | output => cases hmay
  | toolCall | sessionOpened | completed | failed => rfl

theorem tidy (h₀ : Start c₀) (h : (fleet D).Reaches cond c₀ c) (p : ℕ) :
    Tidy (c.state.transport p) := by
  apply h.invariant (P := fun c => Tidy (c.state.transport p))
  · rw [World.transport, h₀.pristine.process]
    exact ⟨List.nodup_nil, by rintro q u ⟨⟩, fun id _ => rfl⟩
  · intro c x c' hr hx hs ih
    rcases transport_step hs p with ho | ⟨i, ch, o, rfl, r, rfl, hperform⟩
    · exact outside_tidy ih ho
    · apply perform_tidy ih hperform
      · rintro link s id w rfl hid
        obtain ⟨k, hk, -, hi⟩ := queued_logged h₀ hr _ id hid
        have honce := inserted_once h₀ (hr.tail _ hx hs) id
        rw [r.log] at honce
        exact honce _ c.log List.suffix_rfl ⟨link, s, w, rfl⟩ k hk hi
      · rintro e rfl id
        exact broadcast_silent h₀ hr r id

/-- What a process publishes as the output of a task is numbered from zero without a gap, and it is
what the session's buffer holds. -/
theorem outputs_numbered (h₀ : Start c₀) (h : (fleet D).Reaches cond c₀ c) (p : ℕ) (id : TaskId) :
    ∃ texts, outputs id (c.state.transport p).events = numbered texts ∧
      ∀ u ∈ (c.state.transport p).queues, u.taskId = id → u.outputBuf = String.join texts := by
  have htidy := tidy h₀ h p
  by_cases hid : id ∈ (c.state.transport p).queues.map NotifyQueue.taskId
  · obtain ⟨u, hu, rfl⟩ := List.mem_map.mp hid
    obtain ⟨q, hq⟩ := List.mem_iff_getElem?.mp hu
    obtain ⟨texts, ho, -, hb⟩ := htidy.fed q u hq
    refine ⟨texts, ho, fun v hv hi => ?_⟩
    obtain ⟨q', hq'⟩ := List.mem_iff_getElem?.mp hv
    obtain rfl := htidy.same hq' hq hi
    rw [hq] at hq'
    cases hq'
    exact hb
  · refine ⟨[], htidy.unheard id hid, fun u hu hi => ?_⟩
    exact absurd (List.mem_map.mpr ⟨u, hu, hi⟩) hid

/-- The worker answers in two pieces while its first task runs. -/
def soloAnswered : List FleetAction :=
  soloSent ++ [.env (.notify 0 0 "session" (.chunk "all ")),
    .env (.notify 0 0 "session" (.chunk "done")), .env (.consume 0 0), .env (.consume 0 0)]

set_option maxRecDepth 10000 in
theorem solo_numbered : ∃ c : FleetConfig, (fleet solo).Reaches always initial c ∧
    outputs ⟨1⟩ (c.state.transport 0).events = [(0, "all "), (1, "done")] ∧
      ∃ u ∈ (c.state.transport 0).queues, u.taskId = ⟨1⟩ ∧ u.outputBuf = "all done" := by
  have hreach : (fleet solo).Reaches always initial ((fleet solo).after initial soloAnswered) :=
    after_reaches _
  obtain ⟨u, hu, hi⟩ : ∃ u ∈ (((fleet solo).after initial soloAnswered).state.transport 0).queues,
      u.taskId = ⟨1⟩ := ⟨_, List.mem_cons_self, rfl⟩
  have hout : outputs ⟨1⟩ (((fleet solo).after initial soloAnswered).state.transport 0).events =
      numbered ["all ", "done"] := rfl
  obtain ⟨texts, ho, hb⟩ := outputs_numbered initial_start hreach 0 ⟨1⟩
  rw [hout] at ho
  obtain rfl := numbered_inj ho
  exact ⟨_, hreach, hout, u, hu, hi, hb u hu hi⟩

end Published

end FleetOrchestrator.Scheduler
