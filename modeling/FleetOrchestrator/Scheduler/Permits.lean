import FleetOrchestrator.Scheduler.Events
import FleetOrchestrator.Scheduler.Gauge

/-! The permits of a connection, against the prompts that run over it. -/

namespace FleetOrchestrator.Scheduler

open Core Store Transport Interleaving Machine

/-- What the issuer of the operation holds more of afterwards; a prompt that is started takes its
permit along. -/
def permitStep (link : ℕ) : Entry Op Resp → ℤ
  | ⟨.acp (.tryAcquirePermit i), true⟩ => if i = link then 1 else 0
  | ⟨.acp (.releasePermit i), _⟩ => if i = link then -1 else 0
  | ⟨.acp (.spawnPrompt i ..), _⟩ => if i = link then -1 else 0
  | _ => 0

def Activity.onLink (link : ℕ) : Activity → Bool
  | .prompt i .. => i = link
  | _ => false

/-- A prompt begins with a permit. -/
def share (link : ℕ) (a : Activity) : ℤ := if a.onLink link then 1 else 0

def Single (n : ℤ) : Prop := 0 ≤ n ∧ n ≤ 1

/-- What a thread of the process holds of the connection's permits. -/
def held (p link : ℕ) (t : Thread Op Resp ℕ Activity Output) (h : History) : ℤ :=
  if t.party = p then share link t.act + total (permitStep link) h else 0

section Parts

open Dispatcher AcpTransport

variable {D : Deployment} {link i : ℕ} {h : History}

theorem weightless_plain (op : Op) (ho : Plain op) : Weightless (permitStep link) op := by
  cases op with
  | store o => exact fun _ => rfl
  | process o => exact fun _ => rfl
  | acp o => cases o <;> first | exact fun _ => rfl | cases ho
  | readSkill file => exact fun _ => rfl

theorem single_zero : Single 0 := ⟨Int.le_refl 0, by decide⟩

theorem single_one : Single 1 := ⟨by decide, Int.le_refl 1⟩

theorem permits_silent : Silent (Carries (fun h => total (permitStep link) h = 0)
    (Weighed (permitStep link) Single)) where
  toComposes := (weighed_composes single_zero).mono weightless_plain
  check _ := (weighed_composes single_zero).perform _ fun _ => rfl
  record _ _ := (weighed_composes single_zero).perform _ fun _ => rfl
  event _ := (weighed_composes single_zero).perform _ fun _ => rfl

/-- A dispatch gives its permit to the prompt that it starts, or back. -/
theorem dispatch_permits (req : DispatchRequest) :
    Carries (fun h => total (permitStep link) h = 0) (Weighed (permitStep link) Single)
      (AcpTransport.dispatch req) := by
  intro h hd
  refine weighed_step (fun _ => rfl) single_zero hd fun entry h₁ hd => ?_
  rcases entry with e | ⟨i, cwd⟩
  · exact obeys_ret hd
  · refine weighed_step (fun _ => rfl) single_zero hd fun state h₂ hd => ?_
    cases state with
    | connecting | disconnected => exact obeys_ret hd
    | connected =>
      have hmine : Single (if i = link then 1 else 0) := by
        split
        · exact single_one
        · exact single_zero
      have hturned : total (permitStep link) (⟨.acp (.tryAcquirePermit i), false⟩ :: h₂) = 0 := by
        rw [total_cons, hd]
        rfl
      have hgot : total (permitStep link) (⟨.acp (.tryAcquirePermit i), true⟩ :: h₂) =
          if i = link then 1 else 0 := by
        rw [total_cons, hd, Int.add_zero]
        rfl
      apply obeys_step
      · intro permit
        cases permit with
        | false => exact hturned.symm ▸ single_zero
        | true => exact hgot.symm ▸ hmine
      · intro permit
        cases permit with
        | false => exact obeys_ret hturned
        | true =>
          refine weighed_step (fun _ => rfl) hmine hgot fun connection h₃ hgot => ?_
          have hleft (e : Entry Op Resp) (he : permitStep link e = if i = link then -1 else 0) :
              total (permitStep link) (e :: h₃) = 0 := by
            rw [total_cons, he, hgot]
            split <;> rfl
          cases connection with
          | none =>
            have hback := hleft ⟨.acp (.releasePermit i), ()⟩ rfl
            exact obeys_step (fun _ => hback.symm ▸ single_zero) fun _ => obeys_ret hback
          | some connection =>
            have hgone := hleft ⟨.acp (.spawnPrompt i connection req cwd), ()⟩ rfl
            exact obeys_step (fun _ => hgone.symm ▸ single_zero) fun _ => obeys_ret hgone

theorem permits_calls (D : Deployment) : Calls D
    (Carries (fun h => total (permitStep link) h = 0) (Weighed (permitStep link) Single)) := by
  have free {op : Op} (ho : Weightless (permitStep link) op) :
      Carries (fun h => total (permitStep link) h = 0) (Weighed (permitStep link) Single)
        (call op) := (weighed_composes single_zero).perform op ho
  have hfailed (id : TaskId) (expected : List TaskPhase) (failure : TaskFailure)
      (origin : TransitionOrigin) : Carries (fun h => total (permitStep link) h = 0)
        (Weighed (permitStep link) Single) (markFailed id expected failure origin) :=
    markFailed_composed permits_silent fun _ => free fun _ => rfl
  apply calls_of_decisions permits_silent.toLenient (fun _ _ => free fun _ => rfl)
    (fun _ => free fun _ => rfl) (free fun _ => rfl) (fun _ _ _ => free fun _ => rfl) hfailed
  · exact fun _ _ => markCompleted_composed permits_silent fun _ => free fun _ => rfl
  · exact fun _ _ => writeCancelled_composed permits_silent (free fun _ => rfl)
      fun _ _ => free fun _ => rfl
  · intro cfg task w harness
    apply permits_silent.andThen
    · exact claim_composed permits_silent.toComposes (fun _ _ => free fun _ => rfl) cfg
    · intro claimed
      exact handOver_composed permits_silent (free fun _ => rfl) (free fun _ => rfl)
        dispatch_permits (fun _ _ _ => hfailed _ _ _ _) task w harness

theorem follow_weightless (connection : ℕ) (req : DispatchRequest) (started : ℤ)
    (reply : NewSessionReply) : Uses (Weightless (permitStep link))
      (followSession i connection req started reply) :=
  followSession_composed (composes_uses.mono weightless_plain)
    (fun _ _ _ => uses_perform fun _ => rfl) (fun _ => uses_perform fun _ => rfl) i connection req
    started reply

/-- A prompt over another connection has nothing to do with the permits of this one. -/
theorem prompt_elsewhere (hi : i ≠ link) (connection : ℕ) (req : DispatchRequest) (cwd : String) :
    Uses (Weightless (permitStep link)) (finishing (promptTask i connection req cwd)) := by
  apply uses_bind
  · refine uses_step (fun _ => rfl) fun started => ?_
    refine uses_step (fun _ => rfl) fun reply => ?_
    refine uses_bind (follow_weightless connection req started reply) fun _ => ?_
    exact uses_perform fun _ => if_neg hi
  · exact fun _ => uses_ret _

/-- A prompt keeps its permit until it has nothing left to do. -/
theorem prompt_permit (connection : ℕ) (req : DispatchRequest) (cwd : String) :
    Obeys (fun h op => Weighed (permitStep link) (fun n => Single (1 + n)) h op ∧
        total (permitStep link) h = 0) (fun _ h => 1 + total (permitStep link) h = 0)
      (finishing (promptTask link connection req cwd)) [] := by
  have kept {h : History} {op : Op} (hd : total (permitStep link) h = 0)
      (ho : Weightless (permitStep link) op) :
      Weighed (permitStep link) (fun n => Single (1 + n)) h op ∧
        total (permitStep link) h = 0 := by
    refine ⟨fun r => ?_, hd⟩
    rw [total_weightless ho, hd]
    exact single_one
  refine obeys_bind (Q := fun _ h => 1 + total (permitStep link) h = 0) ?_ fun _ h hd => obeys_ret hd
  refine obeys_step (kept rfl fun _ => rfl) fun started => ?_
  refine obeys_step (kept rfl fun _ => rfl) fun reply => ?_
  refine obeys_bind (obeys_mono (obeys_weightless (follow_weightless connection req started reply))
    (fun h op ho => kept ho.1 ho.2) fun _ _ hq => hq) ?_
  intro _ h (hd : total (permitStep link) h = 0)
  have hback (r : Unit) : 1 + total (permitStep link) (⟨.acp (.releasePermit link), r⟩ :: h) = 0 := by
    rw [total_cons, hd, Int.add_zero]
    exact congrArg (1 + ·) (if_pos rfl)
  have hlast : Weighed (permitStep link) (fun n => Single (1 + n)) h
      (.acp (.releasePermit link)) := by
    intro r
    rw [hback]
    exact single_zero
  exact ⟨⟨hlast, hd⟩, hback⟩

/-- No thread ever holds less than no permit or more than one, nor any once it has ended; a prompt
holds what it began with before each of its operations. -/
theorem disciplined_permits (D : Deployment) (link : ℕ) : (fleet D).Disciplined
    (fun _ a h op => Weighed (permitStep link) (fun n => Single (share link a + n)) h op ∧
      (a.isPrompt = true → total (permitStep link) h = 0))
    fun _ a _ h => share link a + total (permitStep link) h = 0 := by
  intro p a
  have called (ha : a.isPrompt = false) :
      Obeys (fun h op => Weighed (permitStep link) (fun n => Single (share link a + n)) h op ∧
        (a.isPrompt = true → total (permitStep link) h = 0))
        (fun _ h => share link a + total (permitStep link) h = 0) (program D p a) [] := by
    have hz : share link a = 0 := by cases a <;> first | rfl | cases ha
    have hcall : ∀ i connection req cwd, a ≠ .prompt i connection req cwd := by
      rintro i connection req cwd rfl
      cases ha
    apply obeys_mono (call_composed (permits_calls D) p hcall [] rfl)
    · intro h op ho
      refine ⟨fun r => ?_, fun ht => absurd (ha.symm.trans ht) Bool.false_ne_true⟩
      change Single (share link a + _)
      rw [hz, Int.zero_add]
      exact ho r
    · intro _ h hd
      rw [hz, hd]
      rfl
  cases a with
  | prompt i connection req cwd =>
    by_cases hi : i = link
    · subst hi
      have hs : share i (.prompt i connection req cwd) = 1 := if_pos (decide_eq_true rfl)
      apply obeys_mono (prompt_permit connection req cwd)
      · intro h op ho
        refine ⟨fun r => ?_, fun _ => ho.2⟩
        change Single (share i (.prompt i connection req cwd) + _)
        rw [hs]
        exact ho.1 r
      · intro _ h hq
        change share i (.prompt i connection req cwd) + _ = 0
        rw [hs]
        exact hq
    · have hz : share link (.prompt i connection req cwd) = 0 :=
        if_neg (by simpa [Activity.onLink] using hi)
      apply obeys_mono (obeys_weightless (prompt_elsewhere hi connection req cwd))
      · rintro h op ⟨hd, ho⟩
        refine ⟨fun r => ?_, fun _ => hd⟩
        change Single (share link (.prompt i connection req cwd) + _)
        rw [hz, total_weightless ho, hd]
        exact single_zero
      · intro _ h hd
        change share link (.prompt i connection req cwd) + _ = 0
        rw [hz, hd]
        rfl
  | _ => exact called rfl

end Parts

/-- How many permits of a connection are out. -/
def permitsOut (l : WorkerSession) : ℤ := l.maxConcurrent - l.capacity

def taken (t : TransportState) (link : ℕ) : ℤ := ((t.link? link).map permitsOut).getD 0

/-- What an operation changes about it. -/
def takenStep (link : ℕ) (e : Entry Op Resp) : ℤ :=
  permitStep link e + ((spawned e.op e.resp).map (share link)).sum

section Slots

variable {t t' : TransportState} {link i : ℕ}

theorem taken_modify {f : WorkerSession → WorkerSession} (hf : ∀ l, permitsOut (f l) = permitsOut l) :
    taken (t.modifyLink i f) link = taken t link := by
  rw [taken, link_modify]
  split
  · rw [Option.map_map, funext fun l => show (permitsOut ∘ f) l = permitsOut l from hf l]
    rfl
  · rfl

theorem taken_same (h : t'.links = t.links) : taken t' link = taken t link := by
  rw [taken, taken, TransportState.link?, TransportState.link?, h]

theorem taken_grow {new : List WorkerSession} (hn : ∀ l ∈ new, permitsOut l = 0)
    (h : t'.links = t.links ++ new) : taken t' link = taken t link := by
  rw [taken, taken, TransportState.link?, TransportState.link?, h]
  rcases Nat.lt_or_ge link t.links.length with hl | hl
  · rw [List.getElem?_append_left hl]
  · rw [List.getElem?_append_right hl, List.getElem?_eq_none hl]
    cases hg : new[link - t.links.length]? with
    | none => rfl
    | some l => exact hn l (List.mem_of_getElem? hg)

theorem taken_acquire {a : AcpChoice} {hosts : WorkerId → Host} {r : Bool}
    (h : t.perform a hosts (.tryAcquirePermit i) = some (r, t')) :
    taken t' link = taken t link + takenStep link ⟨.acp (.tryAcquirePermit i), r⟩ := by
  simp only [TransportState.perform] at h
  split at h
  · next hfree =>
    cases h
    have hstep : takenStep link ⟨.acp (.tryAcquirePermit i), true⟩ = if i = link then 1 else 0 :=
      Int.add_zero _
    rw [hstep, taken, link_modify, taken]
    by_cases hi : i = link
    · subst hi
      rw [if_pos rfl, if_pos rfl]
      cases hl : t.link? i with
      | none =>
        rw [hl] at hfree
        cases hfree
      | some l =>
        have hpos : 0 < l.capacity := by simpa [hl] using hfree
        simp only [Option.map_some, Option.getD_some, permitsOut]
        omega
    · rw [if_neg hi, if_neg hi, Int.add_zero]
  · cases h
    exact (Int.add_zero _).symm

theorem taken_release {a : AcpChoice} {hosts : WorkerId → Host} {r : Unit}
    (h : t.perform a hosts (.releasePermit i) = some (r, t'))
    (hout : i = link → 0 < taken t link) :
    taken t' link = taken t link + takenStep link ⟨.acp (.releasePermit i), r⟩ := by
  cases h
  have hstep : takenStep link ⟨.acp (.releasePermit i), ()⟩ = if i = link then -1 else 0 :=
    Int.add_zero _
  rw [hstep, taken, link_modify]
  by_cases hi : i = link
  · subst hi
    have hpos := hout rfl
    rw [if_pos rfl, if_pos rfl]
    cases hl : t.link? i with
    | none =>
      rw [taken, hl] at hpos
      cases hpos
    | some l =>
      simp only [taken, hl, Option.map_some, Option.getD_some, permitsOut]
      omega
  · rw [if_neg hi, if_neg hi, Int.add_zero]
    rfl

/-- The permits that are out after an operation, if none is given back that was not out. -/
theorem perform_taken {a : AcpChoice} {hosts : WorkerId → Host} {o : AcpOp} {r : o.Answer}
    (h : t.perform a hosts o = some (r, t')) (hout : o = .releasePermit link → 0 < taken t link) :
    taken t' link = taken t link + takenStep link ⟨.acp o, r⟩ := by
  have still (hz : takenStep link ⟨.acp o, r⟩ = 0) (ht : taken t' link = taken t link) :
      taken t' link = taken t link + takenStep link ⟨.acp o, r⟩ := by rw [hz, ht, Int.add_zero]
  cases o with
  | tryAcquirePermit i => exact taken_acquire h
  | releasePermit i => exact taken_release h fun hi => hout (hi ▸ rfl)
  | spawnPrompt i connection req cwd =>
    cases h
    apply still _ rfl
    change (if i = link then (-1 : ℤ) else 0) + ((if decide (i = link) = true then 1 else 0) + 0) = 0
    by_cases hi : i = link
    · simp [hi]
    · simp [hi]
  | awaitFlush q =>
    simp only [TransportState.perform] at h
    split at h <;> cases h
    exact still rfl rfl
  | insertSession i sessionId taskId w =>
    cases h
    exact still rfl (taken_modify fun _ => rfl)
  | removeSession i sessionId =>
    cases h
    exact still rfl (taken_modify fun _ => rfl)
  | failDrained i drained reason =>
    cases h
    exact still rfl (taken_modify fun _ => rfl)
  | dropConnection i | setDisconnected i | endCleaning i | requestShutdown i =>
    cases h
    exact still rfl (taken_modify fun _ => rfl)
  | _ =>
    cases h
    exact still rfl rfl

end Slots

section Worlds

variable {D : Deployment} {w w' : World} {t t' : TransportState} {p link : ℕ}

theorem outside_taken {heard : SessionMsg → Prop} (h : Outside heard t t') :
    taken t' link = taken t link := by
  cases h with
  | followed us => rfl
  | supervised i f hf =>
    apply taken_modify
    intro l
    rw [permitsOut, permitsOut, (hf l).2.1, (hf l).2.2.1]
  | registered w n t' h =>
    unfold register at h
    split at h
    · cases h
    · cases h
      apply taken_grow _ rfl
      intro l hl
      cases List.mem_singleton.mp hl
      exact Int.sub_self _
  | notified i s msg =>
    unfold TransportState.notify
    split <;> rfl
  | consumed q t' h =>
    unfold TransportState.consume at h
    split at h
    · cases h
    · split at h <;> cases h <;> rfl

theorem exec_taken {ch : Choice} {q : ℕ} {op : Op} {r : Resp op}
    (h : exec D ch q op w = some (r, w'))
    (hout : q = p → op = .acp (.releasePermit link) → 0 < taken (w.transport p) link) :
    taken (w'.transport p) link =
      taken (w.transport p) link + if q = p then takenStep link ⟨op, r⟩ else 0 := by
  have elsewhere (hz : (if q = p then takenStep link ⟨op, r⟩ else 0) = 0)
      (hn : q = p → ∀ o, op ≠ .acp o) : taken (w'.transport p) link =
        taken (w.transport p) link + if q = p then takenStep link ⟨op, r⟩ else 0 := by
    rw [hz, exec_elsewhere h hn, Int.add_zero]
  cases op with
  | acp o =>
    by_cases hq : q = p
    · subst hq
      rw [if_pos rfl]
      exact perform_taken (exec_transport h) fun ho => hout rfl (congrArg Op.acp ho)
    · exact elsewhere (if_neg hq) fun hp => absurd hp hq
  | store | process | readSkill =>
    apply elsewhere
    · split <;> rfl
    · intro _ o ho
      cases ho

end Worlds

/-- A prompt that still runs over this connection of the process. -/
def prompting (p link : ℕ) (t : Thread Op Resp ℕ Activity Output) : Bool :=
  t.party = p && t.act.onLink link && match t.prog with
    | .ret _ => false
    | .call .. => true

/-- A call of the process's dispatcher that has not returned. -/
def calling (p : ℕ) (t : Thread Op Resp ℕ Activity Output) : Bool :=
  t.party = p && !t.act.isPrompt && match t.prog with
    | .ret _ => false
    | .call .. => true

section Runs

variable {D : Deployment} {cond : FleetConfig → FleetAction → Prop} {c₀ c c' : FleetConfig}
  {p link i : ℕ} {t : Thread Op Resp ℕ Activity Output}

theorem held_single (h₀ : Start c₀) (h : (fleet D).Reaches cond c₀ c)
    (ht : c.threads[i]? = some t) : Single (held p link t (history c.log i)) := by
  unfold held
  split
  · cases hh : history c.log i with
    | nil =>
      rw [total_nil, Int.add_zero, share]
      split
      · exact single_one
      · exact single_zero
    | cons e h' =>
      have hs : e :: h' <:+ history c.log i := by rw [hh]
      obtain ⟨c₁, c₂, ch, r, hr, hh₁, hreach, -, -, hrest⟩ := h.step_history h₀.fresh hs
      have hweighed := (r.licensed (disciplined_permits D link) h₀.fresh hreach).1 e.resp
      rwa [hh₁, ← (r.still hrest ht).2] at hweighed
  · exact single_zero

/-- What a step changes about the permits its party holds. -/
theorem census_held {ch : Choice} {op : Op} (r : (fleet D).Ran c c' i ch op) (hw : LogWithin c) :
    census (held p link) c' =
      census (held p link) c + if r.party = p then takenStep link ⟨op, r.resp⟩ else 0 := by
  rw [census_ran r hw, Int.add_assoc]
  congr 1
  by_cases hp : r.party = p
  · have hmove : held p link ⟨r.party, r.act, r.cont r.resp⟩ (⟨op, r.resp⟩ :: history c.log i) -
        held p link ⟨r.party, r.act, .call op r.cont⟩ (history c.log i) =
          permitStep link ⟨op, r.resp⟩ := by
      simp only [held, hp, if_true, total_cons]
      omega
    have hnew (a : Activity) : held p link ((fleet D).thread r.party a) [] = share link a := by
      simp only [held, thread, hp, if_true, total_nil, Int.add_zero]
    rw [if_pos hp, hmove, takenStep, funext hnew]
    rfl
  · have hnew (a : Activity) : held p link ((fleet D).thread r.party a) [] = 0 := by
      simp only [held, thread, hp, if_false]
    rw [if_neg hp, funext hnew]
    simp [held, hp]

theorem released_out (h₀ : Start c₀) (h : (fleet D).Reaches cond c₀ c) {ch : Choice}
    (r : (fleet D).Ran c c' i ch (.acp (.releasePermit link))) (hp : r.party = p) :
    0 < census (held p link) c := by
  have hafter := ((r.licensed (disciplined_permits D link) h₀.fresh h).1 ()).1
  have hstep : permitStep link ⟨.acp (.releasePermit link), ()⟩ = -1 := if_pos rfl
  have hmine : held p link ⟨r.party, r.act, .call _ r.cont⟩ (history c.log i) ≤
      census (held p link) c :=
    le_census (fun j t ht => (held_single h₀ h ht).1) r.was
  rw [total_cons, hstep] at hafter
  rw [held, if_pos hp] at hmine
  change share link r.act + _ ≤ _ at hmine
  omega

/-- The permits that are out are those the threads hold. -/
theorem taken_held (h₀ : Start c₀) (h : (fleet D).Reaches cond c₀ c) (p link : ℕ) :
    taken (c.state.transport p) link = census (held p link) c := by
  apply h.invariant (P := fun c => taken (c.state.transport p) link = census (held p link) c)
  · have ht : c₀.state.transport p = {} := by rw [World.transport, h₀.pristine.process]
    rw [ht, census, h₀.fresh.threads]
    rfl
  · intro c x c' hreach hcond hs ih
    have hwithin := within_of_reaches h₀.fresh hreach
    cases x with
    | start q a =>
      have ha : a.onLink link = false := by
        cases a with
        | prompt => cases (step_start hs).1
        | _ => rfl
      have hnew : held p link ((fleet D).thread q a) [] = 0 := by
        change (if q = p then share link a + 0 else 0) = 0
        rw [share, ha, if_neg Bool.false_ne_true, Int.add_zero, ite_self]
      rw [outside_taken (accept_outside (step_start hs).1 p), ih, census_start hs hwithin, hnew, Int.add_zero]
    | env e => rw [outside_taken (disturb_outside (step_env hs).1 p), ih, census_env hs]
    | run i ch =>
      obtain ⟨op, ⟨r⟩⟩ := step_run hs
      have hout (hp : r.party = p) (ho : op = .acp (.releasePermit link)) :
          0 < taken (c.state.transport p) link := by
        subst ho
        rw [ih]
        exact released_out h₀ hreach r hp
      rw [exec_taken (ran_exec r) hout, ih, census_held r hwithin]

theorem prompting_holds (h₀ : Start c₀) (h : (fleet D).Reaches cond c₀ c)
    (ht : c.threads[i]? = some t) :
    (if prompting p link t then 1 else 0) ≤ held p link t (history c.log i) := by
  split
  · next hp =>
    obtain ⟨q, a, x⟩ := t
    simp only [prompting, Bool.and_eq_true, decide_eq_true_eq] at hp
    obtain ⟨⟨hq, ha⟩, hx⟩ := hp
    cases x with
    | ret out => cases hx
    | call op k =>
      have hprompt : a.isPrompt = true := by cases a <;> first | rfl | cases ha
      have hzero := (threads_obey (disciplined_permits D link) h₀.fresh h i _ ht).1.2 hprompt
      rw [held, if_pos hq, share, if_pos ha, hzero]
      decide
  · exact (held_single h₀ h ht).1

theorem held_running (h₀ : Start c₀) (h : (fleet D).Reaches cond c₀ c)
    (ht : c.threads[i]? = some t) : held p link t (history c.log i) ≤
      (if prompting p link t then 1 else 0) + if calling p t then 1 else 0 := by
  obtain ⟨hlow, hhigh⟩ : Single (held p link t (history c.log i)) := held_single h₀ h ht
  obtain ⟨q, a, x⟩ := t
  by_cases hq : q = p
  · cases x with
    | ret out =>
      have hnone : share link a + total (permitStep link) (history c.log i) = 0 :=
        returned (disciplined_permits D link) h₀.fresh h ht
      rw [held, if_pos hq, hnone]
      split <;> split <;> decide
    | call op k =>
      by_cases ha : a.isPrompt = true
      · have hzero := (threads_obey (disciplined_permits D link) h₀.fresh h i _ ht).1.2 ha
        have hshare : held p link ⟨q, a, .call op k⟩ (history c.log i) = share link a := by
          rw [held, if_pos hq, hzero, Int.add_zero]
        rw [hshare, share]
        simp only [prompting, calling, hq, ha]
        split <;> simp_all
      · have hcalling : calling p (⟨q, a, .call op k⟩ : Thread Op Resp ℕ Activity Output) = true := by
          simp [calling, hq, ha]
        rw [if_pos hcalling]
        split <;> omega
  · rw [held, if_neg hq]
    split <;> split <;> decide

/-- However the calls and the prompts of a process interleave, the permits of a connection that are
not free are held, one each, by the prompts that run over it and by calls that have not returned. -/
theorem permits_kept (h₀ : Start c₀) (h : (fleet D).Reaches cond c₀ c) {l : WorkerSession}
    (hl : (c.state.transport p).link? link = some l) :
    l.capacity + c.threads.countP (prompting p link) ≤ l.maxConcurrent ∧
      l.maxConcurrent ≤
        l.capacity + c.threads.countP (prompting p link) + c.threads.countP (calling p) := by
  have hout : permitsOut l = census (held p link) c := by
    rw [← taken_held h₀ h p link, taken, hl]
    rfl
  have hlow : (c.threads.countP (prompting p link) : ℤ) ≤ census (held p link) c := by
    rw [← census_count]
    exact census_le fun i t ht => prompting_holds h₀ h ht
  have hhigh : census (held p link) c ≤
      c.threads.countP (prompting p link) + c.threads.countP (calling p) := by
    rw [← census_count, ← census_count, ← census_add]
    exact census_le fun i t ht => held_running h₀ h ht
  rw [permitsOut] at hout
  omega

/-- With the first task handed over, three of the four permits are free. -/
theorem solo_permits : ∃ c : FleetConfig, ∃ l, (fleet solo).Reaches always initial c ∧
    (c.state.transport 0).link? 0 = some l ∧ l.capacity = 3 ∧ l.maxConcurrent = 4 ∧
      c.threads.countP (prompting 0 0) = 1 ∧ c.threads.countP (calling 0) = 0 := by
  have hreach : (fleet solo).Reaches always initial ((fleet solo).after initial soloHandOver) :=
    after_reaches _
  obtain ⟨l, hl, hfree, hmax⟩ : ∃ l, (((fleet solo).after initial soloHandOver).state.transport
      0).link? 0 = some l ∧ l.capacity = 3 ∧ l.maxConcurrent = 4 := ⟨_, rfl, rfl, rfl⟩
  have hcalls : ((fleet solo).after initial soloHandOver).threads.countP (calling 0) = 0 := rfl
  obtain ⟨hlow, hhigh⟩ := permits_kept initial_start hreach hl
  exact ⟨_, l, hreach, hl, hfree, hmax, by omega, hcalls⟩

end Runs

end FleetOrchestrator.Scheduler
