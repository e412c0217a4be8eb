import FleetOrchestrator.Interleaving.Totals
import FleetOrchestrator.Scheduler.Pieces
import FleetOrchestrator.Scheduler.Records
import FleetOrchestrator.Scheduler.Tracks

/-! The running gauge of a process against the tasks it has handed over. -/

namespace FleetOrchestrator.Scheduler

open Core Tables Store Transport Interleaving Machine

def gaugeStep : Entry Op Resp → ℤ
  | ⟨.process .incRunning, _⟩ => 1
  | ⟨.process .decRunning, _⟩ => -1
  | _ => 0

/-- The gauge goes down with this write: for an end its worker tells, whatever becomes of the
write, and for a cancellation that is stored. -/
def lowers (new : TaskStatus) (origin : TransitionOrigin)
    (r : Except StoreError TransitionOutcome) : Bool :=
  match origin, new with
  | .workerOutcome, .completed _ | .workerOutcome, .failed _ => true
  | .controlDecision, .cancelled .. => r = .ok .applied
  | _, _ => false

def openStep : Entry Op Resp → ℤ
  | ⟨.acp (.spawnPrompt ..), _⟩ => 1
  | ⟨.store (.compareAndSetTaskStatus _ _ new _ origin), r⟩ => if lowers new origin r then -1 else 0
  | _ => 0

def lag (e : Entry Op Resp) : ℤ := gaugeStep e - openStep e

/-- By how much an activity has the gauge too high at this point. -/
def due (h : History) : ℤ := total lag h

def Neutral (op : Op) : Prop := ∀ r : Resp op, lag ⟨op, r⟩ = 0

/-- The gauge is not lowered before it was raised. -/
def Owed (h : History) (op : Op) : Prop := ∀ r : Resp op, 0 ≤ due (⟨op, r⟩ :: h)

section Parts

open Dispatcher

variable {D : Deployment} {α : Type} {x : M α} {h : History}

@[simp] theorem due_cons (e : Entry Op Resp) (h : History) : due (e :: h) = lag e + due h :=
  total_cons lag e h

theorem neutral_plain (op : Op) (ho : Plain op) : Neutral op := by
  cases op with
  | store o => cases o <;> first | exact fun _ => rfl | cases ho
  | process o => cases o <;> first | exact fun _ => rfl | cases ho
  | acp o => cases o <;> first | exact fun _ => rfl | cases ho
  | readSkill file => exact fun _ => rfl

theorem obeys_neutral (hx : Uses Neutral x) (hd : 0 ≤ due h) :
    Obeys Owed (fun _ h' => due h' = due h) x h :=
  weighed_uses hx hd

theorem settles_neutral : Composes Neutral (Carries (fun h => due h = 0) Owed) := by
  have hzero : (0 : ℤ) ≤ 0 := Int.le_refl 0
  exact weighed_composes hzero

theorem neutral_silent : Silent (fun {α} => @Uses Op Resp α Neutral) where
  toComposes := composes_uses.mono neutral_plain
  check _ := uses_perform fun _ => rfl
  record _ _ := uses_perform fun _ => rfl
  event _ := uses_perform fun _ => rfl

theorem settles_silent : Silent (Carries (fun h => due h = 0) Owed) where
  toComposes := settles_neutral.mono neutral_plain
  check _ := settles_neutral.perform _ fun _ => rfl
  record _ _ := settles_neutral.perform _ fun _ => rfl
  event _ := settles_neutral.perform _ fun _ => rfl

theorem neutral_failed (id : TaskId) (expected : List TaskPhase) (failure : TaskFailure) :
    Uses Neutral (markFailed id expected failure .controlDecision) :=
  markFailed_composed neutral_silent fun _ => uses_perform fun _ => rfl

theorem neutral_step {β : Type} {op : Op} {f : Resp op → M β} {Q : β → History → Prop} {d : ℤ}
    (ho : Neutral op) (h₀ : 0 ≤ d) (hd : due h = d)
    (hf : ∀ r h', due h' = d → Obeys Owed Q (f r) h') : Obeys Owed Q (call op >>= f) h :=
  weighed_step ho h₀ hd hf

theorem neutral_bind {β : Type} {f : α → M β} {Q : β → History → Prop} {d : ℤ}
    (hx : Uses Neutral x) (h₀ : 0 ≤ d) (hd : due h = d)
    (hf : ∀ a h', due h' = d → Obeys Owed Q (f a) h') : Obeys Owed Q (x >>= f) h :=
  weighed_bind hx h₀ hd hf

theorem dec_settles (hd : due h = 1) :
    Obeys Owed (fun _ h' => due h' = 0) (call (.process .decRunning)) h := by
  have hlag (r : Unit) : lag ⟨.process .decRunning, r⟩ = -1 := rfl
  apply obeys_perform
  · intro r
    rw [due_cons, hlag, hd]
    decide
  · intro r
    rw [due_cons, hlag, hd]
    rfl

theorem acpDispatch_due (req : DispatchRequest) (hd : due h = 1) :
    Obeys Owed (fun r h' => due h' = if r.isOk then 0 else 1) (AcpTransport.dispatch req) h := by
  refine neutral_step (fun _ => rfl) (by decide) hd fun entry h₁ hd => ?_
  rcases entry with e | ⟨link, cwd⟩
  · exact obeys_ret hd
  · refine neutral_step (fun _ => rfl) (by decide) hd fun state h₂ hd => ?_
    cases state with
    | connecting | disconnected => exact obeys_ret hd
    | connected =>
      refine neutral_step (fun _ => rfl) (by decide) hd fun permit h₃ hd => ?_
      cases permit with
      | false => exact obeys_ret hd
      | true =>
        refine neutral_step (fun _ => rfl) (by decide) hd fun connection h₄ hd => ?_
        cases connection with
        | none => exact neutral_step (fun _ => rfl) (by decide) hd fun _ h₅ hd => obeys_ret hd
        | some connection =>
          have hlag (r : Unit) : lag ⟨.acp (.spawnPrompt link connection req cwd), r⟩ = -1 := rfl
          apply obeys_step
          · intro r
            rw [due_cons, hlag, hd]
            decide
          · intro r
            apply obeys_ret
            rw [due_cons, hlag, hd]
            rfl

theorem handOver_settles (task : Task) (w : WorkerId) (harness : SkillLoader.SkillInjection) :
    Carries (fun h => due h = 0) Owed (handOver task w harness) := by
  intro h hd
  have htold : Uses Neutral (appendEvent (.taskDispatched task.id w)) :=
    appendEvent_composed neutral_silent _
  refine neutral_bind htold (by decide) hd fun _ h₁ hd => ?_
  refine neutral_step (fun _ => rfl) (by decide) hd fun fence h₂ hd => ?_
  refine neutral_step (fun _ => rfl) (by decide) hd fun recorded h₃ hd => ?_
  have hraised : due (⟨.process .incRunning, ()⟩ :: h₃) = 1 := by
    rw [due_cons, hd]
    rfl
  refine obeys_step (fun r => (hraised.symm ▸ by decide : 0 ≤ due (_ :: h₃))) fun _ => ?_
  refine obeys_bind (acpDispatch_due _ hraised) fun sent h₄ hd => ?_
  cases sent with
  | ok u => exact obeys_ret hd
  | error e =>
    have hd : due h₄ = 1 := hd
    have hblamed : Uses Neutral (blameWorker w e) :=
      blameWorker_composed neutral_silent.toLenient w e
    refine neutral_bind hblamed (by decide) hd fun _ h₅ hd => ?_
    refine neutral_bind (neutral_failed _ _ _) (by decide) hd fun _ h₆ hd => ?_
    exact obeys_bind (dec_settles hd) fun _ h₇ hd => obeys_ret hd

theorem lag_write (id : TaskId) (expected : List TaskPhase) (new : TaskStatus)
    (fence : Option ControlFence) (origin : TransitionOrigin)
    (r : Except StoreError TransitionOutcome) :
    lag ⟨.store (.compareAndSetTaskStatus id expected new fence origin), r⟩ =
      if lowers new origin r then 1 else 0 := by
  change 0 - (if lowers new origin r then (-1 : ℤ) else 0) = _
  split <;> rfl

/-- After the write of an end that an event tells, the gauge is one too high. -/
theorem told_step {β : Type} {id : TaskId} {new : TaskStatus} {fence : Option ControlFence}
    {f : Except StoreError TransitionOutcome → M β} {Q : β → History → Prop}
    (hn : ∀ r, lowers new .workerOutcome r = true) (hd : due h = 0)
    (hf : ∀ r h', due h' = 1 → Obeys Owed Q (f r) h') :
    Obeys Owed Q
      (call (.store (.compareAndSetTaskStatus id [.dispatched] new fence .workerOutcome)) >>= f)
      h := by
  have hone (r : Except StoreError TransitionOutcome) :
      due (⟨.store (.compareAndSetTaskStatus id [.dispatched] new fence .workerOutcome), r⟩ :: h) =
        1 := by
    rw [due_cons, hd, lag_write, if_pos (hn r)]
    rfl
  exact obeys_step (fun r => (hone r).symm ▸ by decide) fun r => hf r _ (hone r)

theorem completed_settles (id : TaskId) (result : TaskResult) :
    Carries (fun h => due h = 0) Owed (reportCompleted id result) := by
  intro h hd
  have hrecorded : Uses Neutral (recordOnBreaker result.workerId .success) :=
    recordOnBreaker_composed neutral_silent.toLenient _ _
  have hmarked {h : History} (hd : due h = 0) :
      Obeys Owed (fun _ h' => due h' = 1) (markCompleted id result) h := by
    refine neutral_step (fun _ => rfl) (by decide) hd fun fence h₁ hd => ?_
    refine told_step (fun _ => rfl) hd fun outcome h₂ hd => ?_
    rcases outcome with e | _ | _ | _ | _
    case ok.applied =>
      have htold : Uses Neutral (appendEvent (.taskCompleted id result.workerId result)) :=
        appendEvent_composed neutral_silent _
      exact obeys_conseq (obeys_neutral htold (by omega)) fun _ h₃ hq => hq.trans hd
    all_goals exact obeys_ret hd
  refine neutral_bind hrecorded (by decide) hd fun _ h₁ hd => ?_
  exact obeys_bind (hmarked hd) fun _ h₂ hd => dec_settles hd

theorem failed_settles (id : TaskId) (error : String) (observation : FailureObservation) :
    Carries (fun h => due h = 0) Owed (handleFailed id error observation) := by
  intro h hd
  have hmarked (failure : TaskFailure) {h : History} (hd : due h = 0) :
      Obeys Owed (fun _ h' => due h' = 1) (markFailed id [.dispatched] failure .workerOutcome)
        h := by
    refine neutral_step (fun _ => rfl) (by decide) hd fun fence h₁ hd => ?_
    refine told_step (fun _ => rfl) hd fun outcome h₂ hd => ?_
    rcases outcome with e | _ | _ | _ | _
    case ok.applied =>
      have htold : Uses Neutral (appendEvent (.taskFailed id failure)) :=
        appendEvent_composed neutral_silent _
      exact neutral_bind htold (by decide) hd fun _ h₃ hd => obeys_ret hd
    all_goals exact obeys_ret hd
  refine neutral_bind (neutral_silent.uses (plain_of_mere (currentWorkerOf_mere id))) (by decide) hd
    fun worker h₁ hd => ?_
  refine neutral_bind (recordFailureOf_composed neutral_silent.toLenient worker) (by decide) hd
    fun _ h₂ hd => ?_
  exact obeys_bind (hmarked _ hd) fun _ h₃ hd => dec_settles hd

theorem writeCancelled_settles (id : TaskId) (reason : String) :
    Carries (fun h => due h = 0) Owed (writeCancelled id reason) := by
  intro h hd
  refine neutral_step (fun _ => rfl) (by decide) hd fun cancelledAt h₁ hd => ?_
  refine neutral_step (fun _ => rfl) (by decide) hd fun fence h₂ hd => ?_
  have hlag (r : Except StoreError TransitionOutcome) :
      due (⟨.store (.compareAndSetTaskStatus id [.pending, .dispatched]
        (.cancelled reason cancelledAt) fence .controlDecision), r⟩ :: h₂) =
          if r = .ok .applied then 1 else 0 := by
    rw [due_cons, hd]
    rcases r with e | _ | _ | _ | _ <;> rfl
  refine obeys_step (fun r => ?_) fun outcome => ?_
  · rw [hlag]
    split <;> omega
  have hd := hlag outcome
  rcases outcome with e | _ | _ | _ | _
  case ok.applied =>
    have htold : Uses Neutral (appendEvent (.taskCancelled id reason)) :=
      appendEvent_composed neutral_silent _
    rw [if_pos rfl] at hd
    refine neutral_bind htold (by decide) hd fun _ h₄ hd => ?_
    exact obeys_bind (dec_settles hd) fun _ h₅ hd => obeys_ret hd
  all_goals exact obeys_ret hd

theorem settles_wholes (D : Deployment) :
    Wholes D (Carries (fun h => due h = 0) Owed) := by
  have free {op : Op} (ho : Neutral op) : Carries (fun h => due h = 0) Owed (call op) :=
    settles_neutral.perform op ho
  have hfailed (id : TaskId) (expected : List TaskPhase) (failure : TaskFailure) :
      Carries (fun h => due h = 0) Owed (markFailed id expected failure .controlDecision) :=
    settles_neutral.uses (neutral_failed id expected failure)
  have hclaimed (cfg : ProcessConfig) (task : Task) (w : WorkerId)
      (harness : SkillLoader.SkillInjection) : Carries (fun h => due h = 0) Owed
        ((claim cfg task w).andThen fun _ => handOver task w harness) := by
    apply settles_neutral.andThen
    · exact claim_composed settles_silent.toComposes (fun _ _ => free fun _ => rfl) cfg
    · intro claimed
      exact handOver_settles task w harness
  have hcancel (link connection : ℕ) (sessionId : SessionId) :
      Carries (fun h => due h = 0) Owed (call (.acp (.sendCancel link connection sessionId))) :=
    free fun _ => rfl
  exact {
    toComposes := settles_silent.toComposes
    markFailed := hfailed
    dispatchTo := dispatchTo_composed settles_silent.toLenient hfailed
      (fun _ _ => free fun _ => rfl) (fun _ => free fun _ => rfl) hclaimed
    completed := completed_settles
    failed := failed_settles
    cancel := fun cfg id reason =>
      cancel_composed settles_silent.toComposes hcancel (writeCancelled_settles id reason) cfg
    judgeSession := judgeSession_composed settles_silent.toComposes hcancel
    prompt := promptTask_composed settles_silent.toComposes hcancel (fun _ => free fun _ => rfl)
      fun _ => free fun _ => rfl }

/-- A dispatcher's call leaves the gauge as far from its prompts as it found it. -/
theorem program_settles (D : Deployment) (p : ℕ) (a : Activity) :
    Obeys Owed (fun _ h => due h = 0) (program D p a) [] :=
  program_composed (settles_wholes D) p a [] rfl

theorem prompt_neutral (link connection : ℕ) (req : DispatchRequest) (cwd : String) :
    Uses Neutral (finishing (AcpTransport.promptTask link connection req cwd)) := by
  apply neutral_silent.bind
  · exact promptTask_composed neutral_silent.toComposes (fun _ _ _ => uses_perform fun _ => rfl)
      (fun _ => uses_perform fun _ => rfl) (fun _ => uses_perform fun _ => rfl) _ _ _ _
  · exact fun _ => uses_ret _

end Parts

def Activity.isPrompt : Activity → Bool
  | .prompt .. => true
  | _ => false

/-- The dispatcher's calls have returned; prompts may still be followed. -/
def Resting (p : ℕ) (c : FleetConfig) : Prop :=
  ∀ (i : ℕ) (t : Thread Op Resp ℕ Activity Output), c.threads[i]? = some t → t.party = p →
    t.act.isPrompt = true ∨ ∃ out, t.prog = .ret out

/-- Increments less decrements of the gauge so far. -/
def balance (p : ℕ) (log : FleetLog) : ℤ := total gaugeStep (deeds p log)

def gaugeAfter (n : ℕ) : ProcessOp → ℕ
  | .incRunning => (n + 1) % Process.usizeModulus
  | .decRunning => (n + Process.usizeModulus - 1) % Process.usizeModulus
  | _ => n

section Levels

variable {D : Deployment} {cond : FleetConfig → FleetAction → Prop} {c₀ c c' : FleetConfig}
  {p i : ℕ}

theorem gauge_remembered : Remembered Process.runningGauge gaugeAfter where
  transport _ _ := rfl
  breaker _ _ _ := rfl
  perform cfg now q o := by
    have gauge (n : ℕ) : ({ q with runningGauge := n } : Process).runningGauge = n := rfl
    cases o with
    | breakerGet | breakerCheck | breakerRecord | reportUnacked =>
      simp only [Process.perform]
      split <;> rfl
    | incRunning | decRunning => exact gauge _
    | _ => rfl

theorem gaugeAfter_mod {n : ℕ} {b : ℤ} (h : (n : ℤ) = b % Process.usizeModulus) (o : ProcessOp)
    (r : o.Answer) :
    ((gaugeAfter n o : ℕ) : ℤ) = (gaugeStep ⟨.process o, r⟩ + b) % Process.usizeModulus := by
  cases o with
  | incRunning =>
    simp only [gaugeAfter, gaugeStep, Process.usizeModulus] at h ⊢
    omega
  | decRunning =>
    simp only [gaugeAfter, gaugeStep, Process.usizeModulus] at h ⊢
    omega
  | _ => simp only [gaugeAfter, gaugeStep, Int.zero_add, h]

theorem replayed_gauge (p : ℕ) (log : FleetLog) :
    ((replayed gaugeAfter 0 p log : ℕ) : ℤ) = balance p log % Process.usizeModulus := by
  induction log with
  | nil => rfl
  | cons k log ih =>
    by_cases hp : k.party = p
    · subst hp
      have hbalance : balance k.party (k :: log) = gaugeStep k.entry + balance k.party log := by
        rw [balance, deeds_cons_self, total_cons]
        rfl
      rw [replayed, if_pos rfl, hbalance]
      obtain ⟨i, q, op, r⟩ := k
      cases op with
      | process o => exact gaugeAfter_mod ih o r
      | store o => exact ih.trans (congrArg (· % _) (Int.zero_add _).symm)
      | acp o => exact ih.trans (congrArg (· % _) (Int.zero_add _).symm)
      | readSkill file => exact ih.trans (congrArg (· % _) (Int.zero_add _).symm)
    · rw [replayed, if_neg hp, ih, balance, balance, deeds_cons_ne log hp]

/-- The gauge is the balance, as far as a machine word holds it. -/
theorem gauge_balance (h₀ : Start c₀) (h : (fleet D).Reaches cond c₀ c) (p : ℕ) :
    ((c.state.process p).runningGauge : ℤ) = balance p c.log % Process.usizeModulus := by
  rw [part_logged gauge_remembered h₀ h p]
  exact replayed_gauge p c.log

theorem disciplined_gauge (D : Deployment) : (fleet D).Disciplined
    (fun _ a h op => Owed h op ∧ (a.isPrompt = true → Neutral op)) fun _ _ _ h => due h = 0 := by
  intro p a
  have hneutral : Obeys (fun _ op => a.isPrompt = true → Neutral op) (fun _ _ => True)
      (program D p a) [] := by
    cases a with
    | prompt link connection req cwd =>
      apply obeys_mono (obeys_of_uses (prompt_neutral link connection req cwd) fun _ _ ho => ho)
      · exact fun _ _ ho _ => ho
      · exact fun _ _ _ => trivial
    | _ => exact obeys_any (fun _ _ hp => nomatch hp) fun _ _ => trivial
  exact obeys_mono (obeys_and (program_settles D p a) hneutral) (fun _ _ ho => ho)
    fun _ _ hq => hq.1

theorem due_nonneg (h₀ : Start c₀) (h : (fleet D).Reaches cond c₀ c) (i : ℕ) :
    0 ≤ due (history c.log i) := by
  cases hh : history c.log i with
  | nil => exact Int.le_refl 0
  | cons e h' =>
    have hs : e :: h' <:+ history c.log i := by rw [hh]
    obtain ⟨c₁, c₂, ch, r, hr, hh₁, hreach, -⟩ := h.step_history h₀.fresh hs
    have howed := (r.licensed (disciplined_gauge D) h₀.fresh hreach).1
    rw [hh₁] at howed
    exact howed e.resp

theorem due_prompt (h₀ : Start c₀) (h : (fleet D).Reaches cond c₀ c)
    {t : Thread Op Resp ℕ Activity Output} (ht : c.threads[i]? = some t)
    (ha : t.act.isPrompt = true) : due (history c.log i) = 0 := by
  have hall : ∀ h', h' <:+ history c.log i → due h' = 0 := by
    intro h' hs
    induction h' with
    | nil => rfl
    | cons e h' ih =>
      obtain ⟨c₁, c₂, ch, r, hr, hh₁, hreach, -, -, hrest⟩ := h.step_history h₀.fresh hs
      have hact := (r.still hrest ht).2
      have hneutral := (r.licensed (disciplined_gauge D) h₀.fresh hreach).2 (hact ▸ ha)
      rw [due_cons, ih ((List.suffix_cons e h').trans hs), hneutral e.resp]
      rfl
  exact hall _ List.suffix_rfl

theorem due_resting (h₀ : Start c₀) (h : (fleet D).Reaches cond c₀ c) (hr : Resting p c)
    {t : Thread Op Resp ℕ Activity Output} (ht : c.threads[i]? = some t) (hp : t.party = p) :
    due (history c.log i) = 0 := by
  rcases hr i t ht hp with ha | ⟨out, hout⟩
  · exact due_prompt h₀ h ht ha
  · obtain ⟨q, a, x⟩ := t
    cases hout
    exact returned (disciplined_gauge D) h₀.fresh h ht

end Levels

def promptFor : Op → Option TaskId
  | .acp (.spawnPrompt _ _ req _) => some req.taskId
  | _ => none

/-- The task whose end is stored by this. -/
def endStored : Entry Op Resp → Option TaskId
  | ⟨.store (.compareAndSetTaskStatus id _ new _ _), .ok .applied⟩ =>
    if new.phase.isTerminal then some id else none
  | _ => none

def handedBy (p : ℕ) (id : TaskId) (log : FleetLog) : Bool :=
  log.any fun k => k.party = p && promptFor k.op = some id

def ended (id : TaskId) (log : FleetLog) : Bool := log.any fun k => endStored k.entry = some id

/-- Handed to the transport by this process, and its end not recorded yet. -/
def Outstanding (p : ℕ) (log : FleetLog) (id : TaskId) : Prop :=
  handedBy p id log = true ∧ ended id log = false

/-- A prompt is started for a task that has not ended; the gauge goes down with the stored end of a
task this process handed over, and no other end is one of a task that was handed over. -/
def pairedOp (D : Deployment) (c : FleetConfig) (ch : Choice) (p : ℕ) : Op → Bool
  | .acp (.spawnPrompt _ _ req _) => !ended req.taskId c.log
  | .store (.compareAndSetTaskStatus id expected new fence origin) =>
    let r := (D.backend.answer ch.fault ch.order c.state.store
      (.compareAndSetTaskStatus id expected new fence origin)).1
    if lowers new origin r then r = .ok .applied && handedBy p id c.log
    else r ≠ .ok .applied || !new.phase.isTerminal ||
      c.log.all fun k => promptFor k.op ≠ some id
  | _ => true

def paired (D : Deployment) (c : FleetConfig) : FleetAction → Bool
  | .run i ch =>
    match c.threads[i]? with
    | some ⟨p, _, .call op _⟩ => pairedOp D c ch p op
    | _ => true
  | _ => true

section Counting

variable {D : Deployment} {cond : FleetConfig → FleetAction → Prop} {c₀ c c' : FleetConfig}
  {p i : ℕ} {id : TaskId} {k : Call Op Resp ℕ} {log : FleetLog}

theorem ran_paired {ch : Choice} {op : Op} (r : (fleet D).Ran c c' i ch op)
    (hc : paired D c (.run i ch) = true) : pairedOp D c ch r.party op = true := by
  simp only [paired, r.was] at hc
  exact hc

theorem handedBy_cons : handedBy p id (k :: log) = true ↔
    (k.party = p ∧ promptFor k.op = some id) ∨ handedBy p id log = true := by
  simp [handedBy]

theorem ended_cons : ended id (k :: log) = false ↔
    endStored k.entry ≠ some id ∧ ended id log = false := by
  simp [ended]

theorem handed_log (h : handedBy p id log = true) :
    ∃ k ∈ log, k.party = p ∧ promptFor k.op = some id := by
  simpa [handedBy] using h

theorem spawned_of_prompt (h : promptFor k.op = some id) : Spawned id k := by
  unfold promptFor at h
  split at h
  · next link connection req cwd ho =>
    cases h
    exact ⟨link, connection, req, cwd, ho, rfl⟩
  · cases h

/-- Two processes do not both hand a task over. -/
theorem handed_same (h₀ : Start c₀) (h : (fleet D).Reaches cond c₀ c) {q : ℕ}
    (hp : handedBy p id c.log = true) (hq : handedBy q id c.log = true) : p = q := by
  obtain ⟨k, hk, rfl, hkid⟩ := handed_log hp
  obtain ⟨m, hm, rfl, hmid⟩ := handed_log hq
  rw [(spawned_once h₀.seeded h id).eq hk hm (spawned_of_prompt hkid) (spawned_of_prompt hmid)]

/-- The tasks outstanding, as a list whose length the log tells. -/
def Counted (p : ℕ) (log : FleetLog) : Prop :=
  ∃ tasks : List TaskId, tasks.Nodup ∧ (∀ id, id ∈ tasks ↔ Outstanding p log id) ∧
    total openStep (deeds p log) = tasks.length

theorem counted_same (hc : Counted p log) (ho : k.party = p → openStep k.entry = 0)
    (hs : ∀ id, Outstanding p (k :: log) id ↔ Outstanding p log id) : Counted p (k :: log) := by
  obtain ⟨tasks, hnodup, hmem, hlen⟩ := hc
  refine ⟨tasks, hnodup, fun id => (hmem id).trans (hs id).symm, ?_⟩
  by_cases hk : k.party = p
  · subst hk
    rw [deeds_cons_self, total_cons, ho rfl, Int.zero_add, hlen]
  · rw [deeds_cons_ne log hk, hlen]

theorem lowers_terminal {new : TaskStatus} {origin : TransitionOrigin}
    {r : Except StoreError TransitionOutcome} (h : lowers new origin r = true) :
    new.phase.isTerminal = true := by
  cases origin <;> cases new <;> first | rfl | cases h

theorem endStored_iff {e : Entry Op Resp} : endStored e = some id ↔
    ∃ new, Applied id new e ∧ new.phase.isTerminal = true := by
  constructor
  · intro h
    unfold endStored at h
    split at h
    · next i expected new fence origin =>
      split at h
      · next hn =>
        cases h
        exact ⟨new, ⟨expected, fence, origin, rfl⟩, hn⟩
      · cases h
    · cases h
  · rintro ⟨new, ⟨expected, fence, origin, rfl⟩, hn⟩
    simp only [endStored, hn, if_true]

/-- The end of a task is stored for the first time. -/
theorem ended_before (h₀ : Start c₀) (h : (fleet D).Reaches cond c₀ c) (hl : k :: log <:+ c.log)
    (hk : endStored k.entry = some id) : ended id log = false := by
  have honce := ended_once h₀.seeded h id k log hl (endStored_iff.mp hk)
  simp only [ended, List.any_eq_false, decide_eq_true_eq]
  intro m hm he
  exact honce m hm (endStored_iff.mp he)

theorem handed_before (h₀ : Start c₀) (h : (fleet D).Reaches cond c₀ c) (hl : k :: log <:+ c.log)
    (hk : promptFor k.op = some id) (q : ℕ) : handedBy q id log = false := by
  rw [Bool.eq_false_iff]
  intro hq
  obtain ⟨m, hm, -, hmid⟩ := handed_log hq
  exact spawned_once h₀.seeded h id k log hl (spawned_of_prompt hk) m hm (spawned_of_prompt hmid)

theorem counted_prompt (hc : Counted p log) (hk : promptFor k.op = some id)
    (hs : endStored k.entry = none) (ho : openStep k.entry = 1)
    (hn : ∀ q, handedBy q id log = false) (he : ended id log = false) : Counted p (k :: log) := by
  by_cases hp : k.party = p
  · obtain ⟨tasks, hnodup, hmem, hlen⟩ := hc
    refine ⟨id :: tasks, ?_, ?_, ?_⟩
    · rw [List.nodup_cons]
      refine ⟨fun hi => ?_, hnodup⟩
      have hout := ((hmem id).mp hi).1
      rw [hn p] at hout
      cases hout
    · intro j
      simp only [List.mem_cons, hmem, Outstanding, handedBy_cons, ended_cons, hs, hp, hk, true_and,
        ne_eq, reduceCtorEq, not_false_eq_true, Option.some.injEq]
      constructor
      · rintro (rfl | ⟨hj, hje⟩)
        · exact ⟨.inl rfl, he⟩
        · exact ⟨.inr hj, hje⟩
      · rintro ⟨rfl | hj, hje⟩
        · exact .inl rfl
        · exact .inr ⟨hj, hje⟩
    · subst hp
      rw [deeds_cons_self, total_cons, ho, hlen, List.length_cons]
      omega
  · apply counted_same hc fun h => absurd h hp
    intro j
    simp [Outstanding, handedBy_cons, ended_cons, hs, hp]

theorem counted_end (hc : Counted p log) (hk : promptFor k.op = none)
    (hs : endStored k.entry = some id) (he : ended id log = false)
    (ho : openStep k.entry = -1 ∧ k.party = p ∧ handedBy p id log = true ∨
      (k.party = p → openStep k.entry = 0) ∧ handedBy p id log = false) :
    Counted p (k :: log) := by
  have hout (j : TaskId) : Outstanding p (k :: log) j ↔ Outstanding p log j ∧ j ≠ id := by
    simp only [Outstanding, handedBy_cons, ended_cons, hs, hk, reduceCtorEq, and_false, false_or,
      ne_eq, Option.some.injEq]
    constructor
    · rintro ⟨hj, hne, hje⟩
      exact ⟨⟨hj, hje⟩, Ne.symm hne⟩
    · rintro ⟨⟨hj, hje⟩, hne⟩
      exact ⟨hj, Ne.symm hne, hje⟩
  rcases ho with ⟨ho, hp, hh⟩ | ⟨ho, hh⟩
  · obtain ⟨tasks, hnodup, hmem, hlen⟩ := hc
    have hi : id ∈ tasks := (hmem id).mpr ⟨hh, he⟩
    refine ⟨tasks.erase id, hnodup.erase id, ?_, ?_⟩
    · intro j
      rw [hnodup.mem_erase_iff, hmem, hout]
      exact and_comm
    · subst hp
      have hpos := List.length_pos_of_mem hi
      rw [deeds_cons_self, total_cons, ho, hlen, List.length_erase_of_mem hi]
      omega
  · apply counted_same hc ho
    intro j
    rw [hout]
    constructor
    · exact And.left
    · intro hj
      refine ⟨hj, ?_⟩
      rintro rfl
      rw [hj.1] at hh
      cases hh

theorem counted_other (hc : Counted p log) (hk : promptFor k.op = none)
    (hs : endStored k.entry = none) (ho : openStep k.entry = 0) : Counted p (k :: log) := by
  apply counted_same hc fun _ => ho
  intro j
  simp [Outstanding, handedBy_cons, ended_cons, hs, hk]

theorem endStored_write (id : TaskId) (expected : List TaskPhase) (new : TaskStatus)
    (fence : Option ControlFence) (origin : TransitionOrigin)
    (r : Except StoreError TransitionOutcome) :
    endStored ⟨.store (.compareAndSetTaskStatus id expected new fence origin), r⟩ =
      if r = .ok .applied ∧ new.phase.isTerminal = true then some id else none := by
  rcases r with e | _ | _ | _ | _
  · rfl
  · simp [endStored]
  all_goals rfl

theorem counted_write (h₀ : Start c₀)
    (h : (fleet D).Reaches (fun c x => paired D c x = true) c₀ c) {ch : Choice}
    {expected : List TaskPhase} {new : TaskStatus} {fence : Option ControlFence}
    {origin : TransitionOrigin}
    (r : (fleet D).Ran c c' i ch (.store (.compareAndSetTaskStatus id expected new fence origin)))
    (hc : paired D c (.run i ch) = true) (hs : (fleet D).step c (.run i ch) = some c')
    (hcount : Counted p c.log) : Counted p c'.log := by
  have hnext := h.tail _ hc hs
  have hlog := r.log
  have hplace : ⟨i, r.party, .store (.compareAndSetTaskStatus id expected new fence origin),
      r.resp⟩ :: c.log <:+ c'.log := by rw [hlog]
  have hpaired := ran_paired r hc
  have hanswer := (exec_store (ran_exec r)).1
  have hstored := endStored_write id expected new fence origin r.resp
  have hopen : openStep ⟨.store (.compareAndSetTaskStatus id expected new fence origin), r.resp⟩ =
      if lowers new origin r.resp then -1 else 0 := rfl
  simp only [pairedOp, ← hanswer] at hpaired
  rw [hlog]
  by_cases hlow : lowers new origin r.resp = true
  · rw [if_pos hlow, Bool.and_eq_true, decide_eq_true_eq] at hpaired
    rw [if_pos ⟨hpaired.1, lowers_terminal hlow⟩] at hstored
    rw [if_pos hlow] at hopen
    apply counted_end (k := ⟨i, r.party, _, r.resp⟩) hcount rfl hstored
      (ended_before h₀ hnext hplace hstored)
    by_cases hp : r.party = p
    · exact .inl ⟨hopen, hp, hp ▸ hpaired.2⟩
    · refine .inr ⟨fun he => absurd he hp, ?_⟩
      rw [Bool.eq_false_iff]
      exact fun hh => hp (handed_same h₀ h hpaired.2 hh)
  · rw [if_neg hlow] at hpaired hopen
    by_cases hend : r.resp = .ok .applied ∧ new.phase.isTerminal = true
    · rw [if_pos hend] at hstored
      apply counted_end (k := ⟨i, r.party, _, r.resp⟩) hcount rfl hstored
        (ended_before h₀ hnext hplace hstored)
      refine .inr ⟨fun _ => hopen, ?_⟩
      simp only [hend.1, hend.2, ne_eq, not_true_eq_false, decide_false, Bool.not_true,
        Bool.false_or, List.all_eq_true, decide_eq_true_eq] at hpaired
      rw [Bool.eq_false_iff]
      intro hh
      obtain ⟨k, hk, -, hkid⟩ := handed_log hh
      exact hpaired k hk hkid
    · rw [if_neg hend] at hstored
      exact counted_other hcount rfl hstored hopen

theorem counted_run (h₀ : Start c₀)
    (h : (fleet D).Reaches (fun c x => paired D c x = true) c₀ c) {ch : Choice} {op : Op}
    (r : (fleet D).Ran c c' i ch op) (hc : paired D c (.run i ch) = true)
    (hs : (fleet D).step c (.run i ch) = some c') (hcount : Counted p c.log) :
    Counted p c'.log := by
  have hlog := r.log
  cases op with
  | acp o =>
    cases o with
    | spawnPrompt link connection req cwd =>
      have hpaired := ran_paired r hc
      simp only [pairedOp, Bool.not_eq_true'] at hpaired
      have hplace : ⟨i, r.party, .acp (.spawnPrompt link connection req cwd), r.resp⟩ :: c.log <:+
          c'.log := by rw [hlog]
      rw [hlog]
      apply counted_prompt hcount rfl rfl rfl _ hpaired
      exact handed_before h₀ (h.tail _ hc hs) hplace rfl
    | _ =>
      rw [hlog]
      exact counted_other hcount rfl rfl rfl
  | store o =>
    cases o with
    | compareAndSetTaskStatus => exact counted_write h₀ h r hc hs hcount
    | _ =>
      rw [hlog]
      exact counted_other hcount rfl rfl rfl
  | process o =>
    rw [hlog]
    exact counted_other hcount rfl rfl (by cases o <;> rfl)
  | readSkill file =>
    rw [hlog]
    exact counted_other hcount rfl rfl rfl

theorem counted (h₀ : Start c₀) (h : (fleet D).Reaches (fun c x => paired D c x = true) c₀ c)
    (p : ℕ) : Counted p c.log := by
  apply h.invariant (P := fun c => Counted p c.log)
  · rw [h₀.fresh.log]
    exact ⟨[], List.nodup_nil, by simp [Outstanding, handedBy], rfl⟩
  · intro c x c' hr hc hs ih
    cases x with
    | start q a => rwa [(step_start hs).2.2]
    | env d => rwa [(step_env hs).2.2]
    | run i ch =>
      obtain ⟨op, ⟨r⟩⟩ := step_run hs
      exact counted_run h₀ hr r hc hs ih

/-- The gauge is at any time what was added to it less what was taken off, is lowered only from
above zero, and between the dispatcher's calls is the number of tasks handed over and not ended. -/
theorem gauge_counts (h₀ : Start c₀)
    (h : (fleet D).Reaches (fun c x => paired D c x = true) c₀ c) (p : ℕ) :
    ((c.state.process p).runningGauge : ℤ) = balance p c.log % Process.usizeModulus ∧
    (∀ c' i ch, ∀ r : (fleet D).Ran c c' i ch (.process .decRunning), r.party = p →
      0 < balance p c.log) ∧
    (Resting p c → ∃ tasks : List TaskId, tasks.Nodup ∧
      (∀ id, id ∈ tasks ↔ Outstanding p c.log id) ∧
      (c.state.process p).runningGauge = tasks.length % Process.usizeModulus) := by
  have hlag : total lag (deeds p c.log) = balance p c.log - total openStep (deeds p c.log) :=
    total_sub gaugeStep openStep _
  obtain ⟨tasks, hnodup, hmem, hlen⟩ := counted h₀ h p
  refine ⟨gauge_balance h₀ h p, ?_, ?_⟩
  · intro c' i ch r hp
    have howed := (r.licensed (disciplined_gauge D) h₀.fresh h).1 ()
    have hmine : 0 ≤ -1 + due (history c.log i) := by
      rwa [due_cons] at howed
    have hle : due (history c.log i) ≤ total lag (deeds p c.log) :=
      h.total_le h₀.fresh (fun j _ _ _ => due_nonneg h₀ h j) r.was hp
    omega
  · intro hrest
    have hzero : total lag (deeds p c.log) = 0 :=
      h.total_zero h₀.fresh fun j t ht hp => due_resting h₀ h hrest ht hp
    refine ⟨tasks, hnodup, hmem, ?_⟩
    have hgauge := gauge_balance h₀ h p
    have hbalance : balance p c.log = tasks.length := by omega
    rw [hbalance] at hgauge
    exact_mod_cast hgauge

/-- The first task has been completed and the second one handed over. -/
def soloSecond : List FleetAction :=
  soloCompletion ++ [.start 0 (.submit (soloTask 2 []))] ++ steps 4 27 {}

def rests (t : Thread Op Resp ℕ Activity Output) : Bool :=
  t.act.isPrompt || match t.prog with
    | .ret _ => true
    | .call .. => false

theorem resting_of_all (h : c.threads.all rests = true) : Resting p c := by
  intro i t ht _
  have hrests := List.all_eq_true.mp h t (List.mem_of_getElem? ht)
  obtain ⟨q, a, x⟩ := t
  cases x with
  | ret out => exact .inr ⟨out, rfl⟩
  | call op k => exact .inl (by simpa [rests] using hrests)

set_option maxRecDepth 20000 in
theorem gauge_second : ∃ c : FleetConfig,
    (fleet solo).Reaches (fun c x => paired solo c x = true) initial c ∧
      (c.state.process 0).runningGauge = 1 ∧ Outstanding 0 c.log ⟨2⟩ ∧
      ∃ tasks : List TaskId, tasks.Nodup ∧ (∀ id, id ∈ tasks ↔ Outstanding 0 c.log id) ∧
        1 = tasks.length % Process.usizeModulus := by
  have hrun : (fleet solo).replayWhile (paired solo) initial soloSecond =
      some ((fleet solo).after initial soloSecond) := rfl
  have hreach := replayWhile_reaches hrun
  have hrest : Resting 0 ((fleet solo).after initial soloSecond) := resting_of_all rfl
  have hgauge : (((fleet solo).after initial soloSecond).state.process 0).runningGauge = 1 := rfl
  obtain ⟨-, -, hcounts⟩ := gauge_counts initial_start hreach 0
  obtain ⟨tasks, hnodup, hmem, hlen⟩ := hcounts hrest
  exact ⟨_, hreach, hgauge, ⟨rfl, rfl⟩, tasks, hnodup, hmem, hgauge ▸ hlen⟩

/-- A task waits for a worker and is cancelled. -/
def soloWithdrawn : List FleetAction :=
  [.env (.insertPending (soloTask 1 [])), .start 0 (.cancel ⟨1⟩ "not needed")] ++ steps 0 8 {}

/-- Nothing was ever handed over, and the gauge has wrapped round. -/
theorem gauge_wrapped : ∃ c : FleetConfig, (fleet solo).Reaches always initial c ∧ Resting 0 c ∧
    (c.state.process 0).runningGauge = Process.usizeModulus - 1 ∧
    ∀ id, ¬ Outstanding 0 c.log id := by
  refine ⟨(fleet solo).after initial soloWithdrawn, after_reaches _, resting_of_all rfl, rfl, ?_⟩
  rintro id ⟨hh, -⟩
  cases hh

end Counting

end FleetOrchestrator.Scheduler
