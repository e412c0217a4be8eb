import FleetOrchestrator.Interleaving.Passage
import FleetOrchestrator.Scheduler.Lifecycle
import FleetOrchestrator.Scheduler.Pieces

/-! A cancellation decides whom to tell from the row it read, and a dispatch goes on for a while
after the row has changed. -/

namespace FleetOrchestrator.Scheduler

open Core Tables Store Transport Interleaving Machine

section Launching

/-- After this answer the transport goes on with the dispatch. -/
def goesOn : Entry Op Resp → Bool
  | ⟨.acp (.readConnState _), .connected⟩ => true
  | ⟨.acp (.tryAcquirePermit _), true⟩ => true
  | ⟨.acp (.cloneConnection _), some _⟩ => true
  | _ => false

/-- The transport has taken the request, and has gone on with it ever since. -/
def GoneOn (req : DispatchRequest) (h : History) : Prop :=
  ∃ new place h₀, h = new ++ ⟨.acp (.dispatchEntry req), .ok place⟩ :: h₀ ∧
    ∀ e ∈ new, goesOn e = true

def Launched (h : History) : Op → Prop
  | .acp (.spawnPrompt _ _ req _) => GoneOn req h
  | _ => True

/-- The prompt was sent, or there is no session it could be sent to. -/
def promptSettled : Entry Op Resp → Bool
  | ⟨.acp (.sendPrompt ..), _⟩ => true
  | ⟨.acp (.newSession ..), .opened _⟩ => false
  | ⟨.acp (.newSession ..), _⟩ => true
  | _ => false

/-- A prompt is sent once, to the worker of its request, into the session that was opened there. -/
def SendsOwn (connection : ℕ) (req : DispatchRequest) (h : History) : Op → Prop
  | .acp (.sendPrompt w n s text) => (∀ e ∈ h, promptSettled e = false) ∧ w = req.workerId ∧
      n = connection ∧ text = req.prompt ∧ ∃ cwd,
        (⟨.acp (.newSession w n cwd), .opened s⟩ : Entry Op Resp) ∈ h
  | _ => True

end Launching

section Conduct

open Dispatcher AcpTransport

variable {D : Deployment}

theorem launched_plain (h : History) (op : Op) (ho : Plain op) : Launched h op := by
  cases op with
  | acp o =>
    cases o with
    | spawnPrompt => cases ho
    | _ => trivial
  | store o => trivial
  | process o => trivial
  | readSkill file => trivial

theorem launched_silent : Silent (Abides Launched) where
  toComposes := composes_abides launched_plain
  check _ := abides_perform fun _ => trivial
  record _ _ := abides_perform fun _ => trivial
  event _ := abides_perform fun _ => trivial

theorem dispatch_launched (req : DispatchRequest) : Abides Launched (AcpTransport.dispatch req) := by
  intro h
  refine obeys_step trivial fun entry => ?_
  cases entry with
  | error e => exact obeys_ret trivial
  | ok place =>
    refine obeys_step trivial fun state => ?_
    cases state with
    | connecting | disconnected => exact obeys_ret trivial
    | connected =>
      refine obeys_step trivial fun permit => ?_
      cases permit with
      | false => exact obeys_ret trivial
      | true =>
        refine obeys_step trivial fun connection => ?_
        cases connection with
        | none => exact obeys_step trivial fun _ => obeys_ret trivial
        | some connection =>
          have hgone : GoneOn req (⟨.acp (.cloneConnection place.1), some connection⟩ ::
              ⟨.acp (.tryAcquirePermit place.1), true⟩ ::
                ⟨.acp (.readConnState place.1), .connected⟩ ::
                  ⟨.acp (.dispatchEntry req), .ok place⟩ :: h) := by
            refine ⟨[_, _, _], place, h, rfl, ?_⟩
            intro e he
            simp only [List.mem_cons, List.not_mem_nil, or_false] at he
            rcases he with rfl | rfl | rfl <;> rfl
          exact obeys_step hgone fun _ => obeys_ret trivial

theorem program_launched (D : Deployment) (p : ℕ) (a : Activity) :
    Abides Launched (program D p a) := by
  have free {op : Op} (ho : ∀ h, Launched h op) : Abides Launched (call op) := abides_perform ho
  have failed (id : TaskId) (expected : List TaskPhase) (failure : TaskFailure)
      (origin : TransitionOrigin) : Abides Launched (markFailed id expected failure origin) :=
    markFailed_composed launched_silent fun _ => free fun _ => trivial
  have claimed (cfg : ProcessConfig) (task : Task) (w : WorkerId)
      (harness : SkillLoader.SkillInjection) :
      Abides Launched ((claim cfg task w).andThen fun _ => handOver task w harness) := by
    apply launched_silent.andThen
    · exact claim_composed launched_silent.toComposes (fun _ _ => free fun _ => trivial) cfg
    · intro claimed
      exact handOver_composed launched_silent (free fun _ => trivial) (free fun _ => trivial)
        dispatch_launched (fun _ _ _ => failed _ _ _ _) task w harness
  have hparts : Wholes D (Abides Launched) :=
    wholes_of_decisions launched_silent.toLenient (fun _ _ => free fun _ => trivial)
      (fun _ => free fun _ => trivial) (free fun _ => trivial)
      (fun _ _ _ => free fun _ => trivial) (fun _ => free fun _ => trivial)
      (fun _ => free fun _ => trivial) failed
      (fun _ _ => markCompleted_composed launched_silent fun _ => free fun _ => trivial)
      (fun _ _ => writeCancelled_composed launched_silent (free fun _ => trivial)
        fun _ _ => free fun _ => trivial) claimed
  exact program_composed hparts p a

def SendsNone : Op → Prop
  | .acp (.sendPrompt ..) => False
  | _ => True

theorem sendsOwn_of_none {connection : ℕ} {req : DispatchRequest} {h : History} {op : Op}
    (ho : SendsNone op) : SendsOwn connection req h op := by
  unfold SendsOwn
  split
  · exact absurd ho id
  · trivial

theorem flushSession_sends (link : ℕ) (s : SessionId) :
    Uses SendsNone (AcpTransport.flushSession link s) := by
  refine uses_step trivial fun found => ?_
  cases found with
  | none => exact uses_ret _
  | some q => exact uses_step trivial fun _ => uses_perform trivial

theorem failed_sends (req : DispatchRequest) (error : String) (observation : FailureObservation) :
    Uses SendsNone (failed req error observation) := uses_perform trivial

theorem reportPrompt_sends (link connection : ℕ) (req : DispatchRequest) (s : SessionId)
    (removed : Bool) (durationSecs : ℕ) (output : String) (reply : PromptReply) :
    Uses SendsNone (reportPrompt link connection req s removed durationSecs output reply) := by
  cases reply with
  | finished usage => exact uses_step trivial fun _ => uses_perform trivial
  | refused message =>
    cases removed with
    | true => exact failed_sends ..
    | false => exact uses_ret _
  | timedOut =>
    cases removed with
    | true => exact uses_step trivial fun _ => failed_sends ..
    | false => exact uses_ret _

theorem promptTask_sends (link connection : ℕ) (req : DispatchRequest) (cwd : String) :
    Obeys (SendsOwn connection req) (fun _ _ => True) (promptTask link connection req cwd) [] := by
  have quiet {α : Type} {p : M α} (hu : Uses SendsNone p) {h : History} :
      Obeys (SendsOwn connection req) (fun _ _ => True) p h :=
    obeys_conseq (obeys_of_uses hu fun _ _ ho => sendsOwn_of_none ho) fun _ _ _ => trivial
  have followed (started : ℤ) (reply : NewSessionReply) :
      Obeys (SendsOwn connection req) (fun _ _ => True)
        (followSession link connection req started reply)
        [⟨.acp (.newSession req.workerId connection cwd), reply⟩, ⟨.process .utcNow, started⟩] := by
    cases reply with
    | refused message => exact quiet (failed_sends ..)
    | timedOut => exact quiet (failed_sends ..)
    | opened s =>
      refine obeys_step trivial fun queue => ?_
      refine obeys_step trivial fun announced => ?_
      refine obeys_step ⟨?_, rfl, rfl, rfl, cwd, ?_⟩ fun sent => ?_
      · intro e he
        simp only [List.mem_cons, List.not_mem_nil, or_false] at he
        rcases he with rfl | rfl | rfl | rfl <;> rfl
      · exact List.mem_cons_of_mem _ (List.mem_cons_of_mem _ List.mem_cons_self)
      · refine obeys_step trivial fun ended => ?_
        apply quiet
        apply uses_bind (flushSession_sends link s)
        intro flushed
        refine uses_step trivial fun removed => ?_
        refine uses_step trivial fun at_ => ?_
        refine uses_step trivial fun output => ?_
        exact reportPrompt_sends ..
  refine obeys_step trivial fun started => ?_
  refine obeys_step trivial fun reply => ?_
  refine obeys_bind (followed started reply) fun _ _ _ => ?_
  exact quiet (p := call (.acp (.releasePermit link))) (uses_perform trivial)

theorem disciplined_sends (D : Deployment) : (fleet D).Disciplined
    (fun _ a h op => ∀ link connection req cwd, a = .prompt link connection req cwd →
      SendsOwn connection req h op) fun _ _ _ _ => True := by
  intro p a
  by_cases ha : ∃ link connection req cwd, a = .prompt link connection req cwd
  · obtain ⟨link, connection, req, cwd, rfl⟩ := ha
    have hsends : Obeys (SendsOwn connection req) (fun _ _ => True)
        (program D p (.prompt link connection req cwd)) [] :=
      obeys_bind (promptTask_sends link connection req cwd) fun _ _ _ => obeys_ret trivial
    refine obeys_mono hsends (fun _ _ ho _ _ _ _ he => ?_) fun _ _ _ => trivial
    cases he
    exact ho
  · exact obeys_any (fun _ _ _ _ _ _ he => absurd ⟨_, _, _, _, he⟩ ha) fun _ _ => trivial

theorem disciplined_launched (D : Deployment) :
    (fleet D).Disciplined (fun _ _ h op => Launched h op) fun _ _ _ _ => True :=
  fun p a => program_launched D p a []

end Conduct

section Launches

def IsPromptOf (id : TaskId) (a : Activity) : Prop :=
  ∃ link connection req cwd, a = .prompt link connection req cwd ∧ req.taskId = id

/-- The dispatch of the task was turned down, and nothing was left behind. -/
def TurnedDown (id : TaskId) (h : History) : Prop :=
  ∃ new req r h₀, h = new ++ ⟨.acp (.dispatchEntry req), r⟩ :: h₀ ∧ req.taskId = id ∧
    ((∃ e, r = .error e) ∨ ∃ e ∈ new, goesOn e = false) ∧
    ∀ e ∈ new, ∀ link connection req cwd, e.op ≠ .acp (.spawnPrompt link connection req cwd)

/-- Whatever comes of the task's dispatch, its prompt is not still to be sent. -/
def LaunchOver (c : FleetConfig) (id : TaskId) : Prop :=
  (∃ (j : ℕ) (th : Thread Op Resp ℕ Activity Output), c.threads[j]? = some th ∧
    IsPromptOf id th.act ∧ ∃ e ∈ history c.log j, promptSettled e = true) ∨
  ∃ j, TurnedDown id (history c.log j)

variable {D : Deployment} {cond : FleetConfig → FleetAction → Prop} {c₀ c₁ c c' : FleetConfig}
  {x : FleetAction} {id : TaskId} {i j : ℕ} {th th' : Thread Op Resp ℕ Activity Output}

theorem prompt_spawn (h₀ : Start c₀) (h : (fleet D).Reaches cond c₀ c) (ht : c.threads[i]? = some th)
    (hp : IsPromptOf id th.act) : ∃ k ∈ c.log, Spawned id k := by
  obtain ⟨link, connection, req, cwd, ha, hi⟩ := hp
  obtain ⟨k, hk, -, ho⟩ := prompt_spawned h₀ h ht ha
  exact ⟨k, hk, link, connection, req, cwd, ho, hi⟩

theorem prompt_origin (hs : (fleet D).step c x = some c') (ht : c'.threads[i]? = some th)
    (hp : IsPromptOf id th.act) :
    (∃ t₀, c.threads[i]? = some t₀ ∧ IsPromptOf id t₀.act) ∨
      i = c.threads.length ∧ ∃ k, c'.log = k :: c.log ∧ Spawned id k := by
  obtain ⟨link, connection, req, cwd, ha, hi⟩ := hp
  rcases thread_origin hs ht with ⟨t₀, ht₀, -, ha₀⟩ | ⟨hge, ⟨q, a, rfl, rfl, -⟩ | hspawn⟩
  · exact .inl ⟨t₀, ht₀, link, connection, req, cwd, ha₀.trans ha, hi⟩
  · obtain rfl : a = .prompt link connection req cwd := ha
    cases (step_start hs).1
  · right
    obtain ⟨n, ch, op, r, a, hm, -, rfl⟩ := hspawn
    obtain rfl : a = .prompt link connection req cwd := ha
    have hm' : Activity.prompt link connection req cwd ∈ spawned op r.resp := hm
    unfold spawned at hm'
    split at hm'
    · cases List.mem_singleton.mp hm'
      have hlt := (List.getElem?_eq_some_iff.mp ht).1
      rw [r.threads, List.length_append, List.length_set, List.length_map] at hlt
      have hone : ((fleet D).spawned (.acp (.spawnPrompt link connection req cwd)) r.resp).length = 1 :=
        rfl
      refine ⟨by omega, _, r.log, link, connection, req, cwd, rfl, hi⟩
    · cases hm'

/-- A task has one prompt at most. -/
theorem prompt_unique (h₀ : Start c₀) (h : (fleet D).Reaches cond c₀ c)
    (ht : c.threads[i]? = some th) (ht' : c.threads[j]? = some th') (hp : IsPromptOf id th.act)
    (hp' : IsPromptOf id th'.act) : i = j := by
  have key : ∀ (i j : ℕ) (th th' : Thread Op Resp ℕ Activity Output), c.threads[i]? = some th →
      c.threads[j]? = some th' → IsPromptOf id th.act → IsPromptOf id th'.act → i = j := by
    apply h.invariant (P := fun c => ∀ (i j : ℕ) (th th' : Thread Op Resp ℕ Activity Output),
      c.threads[i]? = some th → c.threads[j]? = some th' → IsPromptOf id th.act →
        IsPromptOf id th'.act → i = j)
    · intro i j th th' ht
      rw [h₀.fresh.threads] at ht
      cases ht
    · intro c x c' hr hc hs ih i j th th' ht ht' hp hp'
      have first {n : ℕ} {t : Thread Op Resp ℕ Activity Output} {k : Call Op Resp ℕ}
          (hn : c.threads[n]? = some t) (ha : IsPromptOf id t.act) (hk : c'.log = k :: c.log) :
          ¬ Spawned id k := by
        intro hnew
        obtain ⟨k', hk', hold⟩ := prompt_spawn h₀ hr hn ha
        have honce := spawned_once h₀.seeded (hr.tail x hc hs) id
        exact honce k c.log (hk ▸ List.suffix_rfl) hnew k' hk' hold
      rcases prompt_origin hs ht hp with ⟨t, hold, ha⟩ | ⟨hi, k, hk, hnew⟩
      · rcases prompt_origin hs ht' hp' with ⟨t', hold', ha'⟩ | ⟨-, k, hk, hnew⟩
        · exact ih i j t t' hold hold' ha ha'
        · exact absurd hnew (first hold ha hk)
      · rcases prompt_origin hs ht' hp' with ⟨t', hold', ha'⟩ | ⟨hj, -⟩
        · exact absurd hnew (first hold' ha' hk)
        · exact hi.trans hj.symm
  exact key i j th th' ht ht' hp hp'

/-- A dispatch that was turned down leaves no prompt behind any more. -/
theorem TurnedDown.spawns_none (h₀ : Start c₀) (h : (fleet D).Reaches cond c₀ c) {h₁ : History}
    (ht : TurnedDown id h₁) (hh : h₁ <:+ history c.log j) {k : Call Op Resp ℕ} (hk : k ∈ c.log) :
    ¬ Spawned id k := by
  rintro ⟨link, connection, req, cwd, hop, hid⟩
  obtain ⟨new, req', r, h₂, rfl, hid', hdown, hnone⟩ := ht
  obtain ⟨l, hl⟩ := placed hk
  obtain ⟨t, -, -, hlic⟩ := logged_licence (disciplined_launched D) h₀.fresh h hl
  rw [hop] at hlic
  obtain ⟨granted, place, h₃, hg, hgranted⟩ := hlic
  have hbefore : history l k.thread <:+ history c.log k.thread :=
    history_suffix ((List.suffix_cons _ _).trans hl) _
  -- both dispatches are the one the task had
  obtain ⟨m, lm, hm, rfl, he, rfl⟩ := of_history_at ((List.suffix_append _ _).trans hh)
  obtain ⟨m', lm', hm', hthread, he', rfl⟩ :=
    of_history_at ((List.suffix_append _ _).trans (hg ▸ hbefore))
  obtain ⟨rfl, rfl⟩ := (handed_once h₀.seeded h id).place hm hm' ⟨req', congrArg Entry.op he, hid'⟩
    ⟨req, congrArg Entry.op he', hid⟩
  have hspawn : k.entry :: granted ++ m.entry :: history lm m.thread <:+ history c.log m.thread := by
    have hat := history_at hl
    rw [hg, ← he', ← hthread] at hat
    exact hat
  rw [← he] at hh
  have hnew : new <:+ k.entry :: granted ∨ k.entry :: granted <:+ new := by
    rcases List.suffix_or_suffix_of_suffix hh hspawn with hs | hs
    · exact .inl (List.suffix_append_self_iff.mp hs)
    · exact .inr (List.suffix_append_self_iff.mp hs)
  rcases hnew with hs | hs
  · rcases hdown with ⟨e, rfl⟩ | ⟨e, hmem, hgo⟩
    · rw [he] at he'
      cases he'
    · rcases List.mem_cons.mp (hs.subset hmem) with rfl | hmem'
      · exact hnone _ hmem link connection req cwd hop
      · rw [hgranted e hmem'] at hgo
        cases hgo
  · exact hnone _ (hs.subset List.mem_cons_self) link connection req cwd hop

theorem LaunchOver.sends_none (h₀ : Start c₀) (h₁ : (fleet D).Reaches cond c₀ c₁)
    (h₂ : (fleet D).Reaches cond c₁ c) (ho : LaunchOver c₁ id) {ch : Choice} {op : Op}
    (r : (fleet D).Ran c c' i ch op) (hp : IsPromptOf id r.act) (w : WorkerId) (connection : ℕ)
    (s : SessionId) (text : String) : op ≠ .acp (.sendPrompt w connection s text) := by
  have h : (fleet D).Reaches cond c₀ c := h₁.trans h₂
  rintro rfl
  rcases ho with ⟨j, th, ht, ha, e, he, hsettled⟩ | ⟨j, hdown⟩
  · obtain ⟨th', ht', -, ha'⟩ := h₂.thread ht
    obtain rfl : j = i := prompt_unique h₀ h ht' r.was (ha' ▸ ha) hp
    obtain ⟨link, connection', req, cwd, hact, -⟩ := hp
    have hown := r.licensed (disciplined_sends D) h₀.fresh h link connection' req cwd hact
    rw [hown.1 e ((history_suffix h₂.log_suffix _).subset he)] at hsettled
    cases hsettled
  · obtain ⟨k, hk, hspawn⟩ := prompt_spawn h₀ h r.was hp
    exact hdown.spawns_none h₀ h (history_suffix h₂.log_suffix _) hk hspawn

theorem LaunchOver.handed (h₀ : Start c₀) (h : (fleet D).Reaches cond c₀ c)
    (ho : LaunchOver c id) : ∃ k ∈ c.log, Handed id k := by
  rcases ho with ⟨j, th, ht, ha, -⟩ | ⟨j, new, req, r, h₁, hh, hid, -⟩
  · obtain ⟨k, hk, link, connection, req, cwd, hop, hid⟩ := prompt_spawn h₀ h ht ha
    obtain ⟨l, hl⟩ := placed hk
    obtain ⟨t, -, -, hlic⟩ := logged_licensed h₀.seeded h hl
    rw [hop] at hlic
    obtain ⟨h₁, hg⟩ := hlic
    obtain ⟨m, hm, -, he⟩ := mem_history.mp (hg.mem List.mem_cons_self)
    exact ⟨m, hl.subset (List.mem_cons_of_mem _ hm), req, congrArg Entry.op he, hid⟩
  · have hin : (⟨.acp (.dispatchEntry req), r⟩ : Entry Op Resp) ∈ history c.log j := by
      rw [hh]
      exact List.mem_append_right _ List.mem_cons_self
    obtain ⟨m, hm, -, he⟩ := mem_history.mp hin
    exact ⟨m, hm, req, congrArg Entry.op he, hid⟩

/-- The call sends the prompt of the task to a worker. -/
def SentFor (c : FleetConfig) (id : TaskId) (k : Call Op Resp ℕ) : Prop :=
  (∃ w connection s text, k.op = .acp (.sendPrompt w connection s text)) ∧
    ∃ th : Thread Op Resp ℕ Activity Output, c.threads[k.thread]? = some th ∧ IsPromptOf id th.act

theorem sent_own (h₀ : Start c₀) (h : (fleet D).Reaches cond c₀ c) {k : Call Op Resp ℕ}
    {l : FleetLog} (hk : k :: l <:+ c.log) {w : WorkerId} {connection : ℕ} {s : SessionId}
    {text : String} (ho : k.op = .acp (.sendPrompt w connection s text))
    (ht : c.threads[k.thread]? = some th) (hp : IsPromptOf id th.act) :
    ∃ link req cwd, th.act = .prompt link connection req cwd ∧ req.taskId = id ∧
      SendsOwn connection req (history l k.thread) (.acp (.sendPrompt w connection s text)) := by
  obtain ⟨th', ht', -, hlic⟩ := logged_licence (disciplined_sends D) h₀.fresh h hk
  rw [ht] at ht'
  cases ht'
  obtain ⟨link, n, req, cwd, ha, hid⟩ := hp
  have hown := hlic link n req cwd ha
  rw [ho] at hown
  obtain rfl : connection = n := hown.2.2.1
  exact ⟨link, req, cwd, ha, hid, hown⟩

/-- The prompt of a task is sent at most once in the life of the whole fleet, whichever instances
dispatch: to the worker the task was claimed for, with the text that was handed over, and into a
session that the worker opened for it. -/
theorem executed_once (h₀ : Start c₀) (h : (fleet D).Reaches cond c₀ c) (id : TaskId) :
    Once (SentFor c id) c.log ∧ ∀ k ∈ c.log, SentFor c id k → ∀ w connection s text,
      k.op = .acp (.sendPrompt w connection s text) →
        (∃ m ∈ c.log, Claimed id w m.entry) ∧
        (∃ m ∈ c.log, ∃ req, m.op = .acp (.dispatchEntry req) ∧ req.taskId = id ∧
          req.workerId = w ∧ req.prompt = text) ∧
        ∃ m ∈ c.log, ∃ cwd, m.entry = ⟨.acp (.newSession w connection cwd), .opened s⟩ := by
  constructor
  · rintro k l hk ⟨⟨w, connection, s, text, ho⟩, th, ht, hp⟩ k' hk' ⟨⟨w', n, s', text', ho'⟩, th', ht',
      hp'⟩
    have hthread : k.thread = k'.thread := prompt_unique h₀ h ht ht' hp hp'
    obtain ⟨-, req, -, -, -, hown⟩ := sent_own h₀ h hk ho ht hp
    have hin : k'.entry ∈ history l k.thread := mem_history.mpr ⟨k', hk', hthread.symm, rfl⟩
    have hsettled : promptSettled k'.entry = true := by
      obtain ⟨thread, party, op, resp⟩ := k'
      obtain rfl : op = _ := ho'
      rfl
    rw [hown.1 _ hin] at hsettled
    cases hsettled
  · rintro k hk ⟨-, th, ht, hp⟩ w connection s text ho
    obtain ⟨l, hl⟩ := placed hk
    obtain ⟨link, req, cwd, ha, rfl, -, rfl, -, rfl, cwd', hopened⟩ := sent_own h₀ h hl ho ht hp
    obtain ⟨m, hm, -, hop⟩ := prompt_spawned h₀ h ht ha
    refine ⟨prompt_claimed h₀ h hm hop, ?_, ?_⟩
    · obtain ⟨lm, hlm⟩ := placed hm
      obtain ⟨t, -, -, hlic⟩ := logged_licensed h₀.seeded h hlm
      rw [hop] at hlic
      obtain ⟨h₁, hg⟩ := hlic
      obtain ⟨n, hn, -, he⟩ := mem_history.mp (hg.mem List.mem_cons_self)
      exact ⟨n, hlm.subset (List.mem_cons_of_mem _ hn), req, congrArg Entry.op he, rfl, rfl, rfl⟩
    · obtain ⟨n, hn, -, he⟩ := mem_history.mp hopened
      exact ⟨n, hl.subset (List.mem_cons_of_mem _ hn), cwd', he⟩

def soloSent : List FleetAction :=
  soloHandOver ++
    steps 1 5 { acp := { newSession := .opened "session", prompt := .finished none } }

set_option maxRecDepth 10000 in
theorem solo_executed : ∃ c, (fleet solo).Reaches always initial c ∧ Once (SentFor c ⟨1⟩) c.log ∧
    ∃ k ∈ c.log, SentFor c ⟨1⟩ k ∧ k.op = .acp (.sendPrompt ⟨0⟩ 0 "session" "prompt") ∧
      ∃ m ∈ c.log, Claimed ⟨1⟩ ⟨0⟩ m.entry := by
  have hreach : (fleet solo).Reaches always initial ((fleet solo).after initial soloSent) :=
    after_reaches _
  have hsent : ∃ k ∈ ((fleet solo).after initial soloSent).log,
      SentFor ((fleet solo).after initial soloSent) ⟨1⟩ k ∧
        k.op = .acp (.sendPrompt ⟨0⟩ 0 "session" "prompt") :=
    ⟨⟨1, 0, .acp (.sendPrompt ⟨0⟩ 0 "session" "prompt"), ()⟩, List.mem_cons_self,
      ⟨⟨_, _, _, _, rfl⟩, _, rfl, 0, 0, _, _, rfl, rfl⟩, rfl⟩
  obtain ⟨k, hk, hfor, ho⟩ := hsent
  obtain ⟨honce, hchain⟩ := executed_once initial_start hreach ⟨1⟩
  exact ⟨_, hreach, honce, k, hk, hfor, ho, (hchain k hk hfor _ _ _ _ ho).1⟩

end Launches

section Heeded

open Dispatcher

def AsksFor (id : TaskId) (k : Call Op Resp ℕ) : Prop :=
  ∃ req, k.op = .acp (.findCancelTarget req) ∧ req.taskId = id

/-- A cancellation asks for the task's session once the launch is over, and writes over a dispatched
row only where it had read it as dispatched. -/
def Heedful (c : FleetConfig) : FleetAction → Prop
  | .run i _ => ∀ (th : Thread Op Resp ℕ Activity Output) id reason, c.threads[i]? = some th →
      th.act = .cancel id reason →
        (∀ req, c.next i = some (.acp (.findCancelTarget req)) → LaunchOver c id) ∧
        ∀ expected new fence origin task t,
          c.next i = some (.store (.compareAndSetTaskStatus id expected new fence origin)) →
            Fetched id task (history c.log i) → c.state.row id = some t → t.phase = .dispatched →
              task.phase = .dispatched
  | _ => True

variable {D : Deployment} {cond : FleetConfig → FleetAction → Prop} {c₀ c c' : FleetConfig}
  {id : TaskId} {i p : ℕ} {reason : String} {h h' : History} {cfg : ProcessConfig} {task : Task}

theorem notifyAssigned_asks {u : Unit} (hy : Yields (notifyAssigned cfg id task) h u h')
    (hd : task.phase = .dispatched) : ∃ req target, req.taskId = id ∧
      ⟨.acp (.findCancelTarget req), target⟩ :: h <:+ h' := by
  unfold notifyAssigned at hy
  split at hy
  · next w startedAt hs =>
    obtain ⟨delivery, h₁, hc, hrest⟩ := yields_bind hy
    obtain ⟨target, hc⟩ := yields_step hc
    exact ⟨_, target, rfl, hc.suffix.trans hrest.suffix⟩
  · next hs =>
    exfalso
    rw [Task.phase] at hd
    cases ht : task.status with
    | dispatched w startedAt => exact hs w startedAt ht
    | _ =>
      rw [ht] at hd
      cases hd

theorem writeCancelled_applied (hy : Yields (writeCancelled id reason) h (.ok ()) h') :
    ∃ cancelledAt fence h₁, h <:+ h₁ ∧ ⟨.store (.compareAndSetTaskStatus id [.pending, .dispatched]
      (.cancelled reason cancelledAt) fence .controlDecision), .ok .applied⟩ :: h₁ <:+ h' := by
  obtain ⟨cancelledAt, hy⟩ := yields_step hy
  obtain ⟨fence, hy⟩ := yields_step hy
  obtain ⟨outcome, hy⟩ := yields_step hy
  rcases outcome with e | _ | _ | _ | _
  case ok.applied =>
    refine ⟨cancelledAt, fence, _, ?_, hy.suffix⟩
    exact (List.suffix_cons _ _).trans (List.suffix_cons _ _)
  all_goals cases hy

/-- What a cancellation that returned `Ok` has done. -/
theorem cancel_course (hy : Yields (cancel cfg id reason) h (.ok ()) h') :
    ∃ task cancelledAt fence h₁, Fetched id task h₁ ∧
      ⟨.store (.compareAndSetTaskStatus id [.pending, .dispatched] (.cancelled reason cancelledAt)
        fence .controlDecision), .ok .applied⟩ :: h₁ <:+ h' ∧
      (task.phase = .dispatched → ∃ req target h₂, req.taskId = id ∧
        ⟨.acp (.findCancelTarget req), target⟩ :: h₂ <:+ h₁) := by
  obtain ⟨allowed, hy⟩ := yields_step hy
  cases allowed with
  | false => cases hy
  | true =>
    obtain ⟨found, hy⟩ := yields_step hy
    rcases found with e | _ | task
    · cases hy
    · cases hy
    · dsimp only at hy
      split at hy
      · cases hy
      · obtain ⟨told, h₂, hn, hw⟩ := yields_bind hy
        obtain ⟨cancelledAt, fence, h₁, hs, hcas⟩ := writeCancelled_applied hw
        have hfetched : Fetched id task h₁ := (hn.suffix.trans hs).subset List.mem_cons_self
        refine ⟨task, cancelledAt, fence, h₁, hfetched, hcas, fun hd => ?_⟩
        obtain ⟨req, target, hreq, hask⟩ := notifyAssigned_asks hn hd
        exact ⟨req, target, _, hreq, hask.trans hs⟩

/-- Over a pending row the cancellation is the last word: the task was never claimed, and never
will be. -/
theorem claimed_none (h₀ : Start c₀) {c₁ c₂ : FleetConfig} (h₁ : (fleet D).Reaches cond c₀ c₁)
    {x : FleetAction} (hx : cond c₁ x) (hs : (fleet D).step c₁ x = some c₂)
    (h₂ : (fleet D).Reaches cond c₂ c) {ch : Choice} {expected : List TaskPhase} {cancelledAt : ℤ}
    {fence : Option ControlFence} {origin : TransitionOrigin}
    (r : (fleet D).Ran c₁ c₂ i ch (.store (.compareAndSetTaskStatus id expected
      (.cancelled reason cancelledAt) fence origin)))
    (hr : r.resp = .ok .applied) {t : Task} (ht : c₁.state.row id = some t)
    (hp : t.phase = .pending) {m : Call Op Resp ℕ} (hm : m ∈ c.log) {w : WorkerId} :
    ¬ Claimed id w m.entry := by
  intro hc
  have h : (fleet D).Reaches cond c₀ c := (h₁.tail x hx hs).trans h₂
  have hplace := h₂.log_suffix
  rw [r.log] at hplace
  obtain ⟨l, hl⟩ := placed hm
  rcases ordered hl hplace with ⟨rfl, -⟩ | hbefore | hafter
  · obtain ⟨expected', startedAt, fence', origin', he⟩ := hc
    cases congrArg Entry.op he
  · obtain ⟨startedAt, happlied⟩ := hc.applied
    exact not_pending_of_applied h₀.seeded h₁ (hbefore.subset List.mem_cons_self) happlied
      TaskStatus.noConfusion ht hp
  · obtain ⟨new, fence', origin', hleft⟩ := hc.left h₀.seeded h hm
    obtain ⟨c₃, c₄, ch', h₃, -, -, hlog, ⟨r', -, hr'⟩, -⟩ := h.at_call h₀.fresh hl
    obtain ⟨r'', hr'', -, -⟩ := ran_as r' ((congrArg (Entry.mk m.op) hr').trans hleft)
    obtain ⟨-, t', ht', hp', -⟩ := ran_applied r'' hr''
    have hin := hlog ▸ hafter.subset List.mem_cons_self
    have happlied : Applied id (.cancelled reason cancelledAt)
        (⟨.store (.compareAndSetTaskStatus id expected (.cancelled reason cancelledAt) fence origin),
          r.resp⟩ : Entry Op Resp) := by
      rw [hr]
      exact ⟨expected, fence, origin, rfl⟩
    exact not_pending_of_applied h₀.seeded h₃ hin happlied TaskStatus.noConfusion ht'
      (List.mem_singleton.mp hp')

/-- Once a cancellation has returned `Ok`, a dispatch of the task that the transport was handed was
followed by a search for its session, and no prompt of the task is sent any more. -/
theorem cancel_heeded (h₀ : Start c₀) (h : (fleet D).Reaches Heedful c₀ c)
    (ht : c.threads[i]? = some ⟨p, .cancel id reason, .ret (.cancelled (.ok ()))⟩) :
    (∀ k l, k :: l <:+ c.log → Handed id k → ∃ m, Since (k :: l) c.log m ∧ AsksFor id m) ∧
      ∀ c' j ch op, ∀ r : (fleet D).Ran c c' j ch op, IsPromptOf id r.act →
        ∀ w connection s text, op ≠ .acp (.sendPrompt w connection s text) := by
  have hy : Yields (program D p (.cancel id reason)) [] (.cancelled (.ok ())) (history c.log i) :=
    finished_yields (fleet_disciplined D) h₀.fresh h ht
  obtain ⟨result, h₁, hcancel, hret⟩ := yields_bind hy
  generalize hh : history c.log i = h₂ at hret
  cases hret
  obtain ⟨task, cancelledAt, fence, h₂, hfetched, hcas, hasks⟩ := cancel_course hcancel
  rw [← hh] at hcas
  obtain ⟨c₁, c₂, ch, r, hr, hh₁, hreach, hcond, hstep, hrest⟩ := h.step_history h₀.fresh hcas
  have hact := (r.still hrest ht).2
  obtain ⟨-, t, hrow, hphase, -⟩ := ran_applied r hr
  have hread := (hcond _ id reason r.was hact.symm).2 _ _ _ _ task t r.next (hh₁ ▸ hfetched) hrow
  simp only [List.mem_cons, List.not_mem_nil, or_false] at hphase
  rcases hphase with hpending | hdispatched
  · have hnone : ∀ m ∈ c.log, ∀ w, ¬ Claimed id w m.entry := fun m hm w =>
      claimed_none h₀ hreach hcond hstep hrest r hr hrow hpending hm
    constructor
    · rintro k l hk ⟨req, hop, rfl⟩
      obtain ⟨m, hm, -, hclaim⟩ := handed_claimed h₀.seeded h hk hop
      exact absurd hclaim (hnone m (hk.subset (List.mem_cons_of_mem _ hm)) _)
    · intro c' j ch' op r' hp
      obtain ⟨k, hk, link, connection, req, cwd, hop, rfl⟩ := prompt_spawn h₀ h r'.was hp
      obtain ⟨m, hm, hclaim⟩ := prompt_claimed h₀ h hk hop
      exact absurd hclaim (hnone m hm _)
  · obtain ⟨req, target, h₃, hreq, hask⟩ := hasks (hread hdispatched)
    have hask' := (hask.trans (List.suffix_cons _ _)).trans hcas
    obtain ⟨c₃, c₄, ch₃, r₃, hr₃, -, hreach₃, hcond₃, hstep₃, hrest₃⟩ :=
      h.step_history h₀.fresh hask'
    have hover : LaunchOver c₃ id :=
      (hcond₃ _ id reason r₃.was (r₃.still hrest₃ ht).2.symm).1 _ r₃.next
    constructor
    · intro k l hk hhanded
      obtain ⟨k', hk', hhanded'⟩ := hover.handed h₀ hreach₃
      obtain ⟨l', hl'⟩ := placed hk'
      have hlater : c₃.log <:+ c.log := (step_log hstep₃).trans hrest₃.log_suffix
      obtain ⟨rfl, rfl⟩ := (handed_once h₀.seeded h id).place hk (hl'.trans hlater) hhanded hhanded'
      refine ⟨⟨i, r₃.party, .acp (.findCancelTarget req), r₃.resp⟩, ⟨c₃.log, ?_, hl'⟩, req, rfl, hreq⟩
      have hplace := hrest₃.log_suffix
      rw [r₃.log] at hplace
      exact hplace
    · intro c' j ch' op r' hp
      exact hover.sends_none h₀ hreach₃ ((Reaches.single hcond₃ hstep₃).trans hrest₃) r' hp

/-- The cancellations of these steps come after the prompt, and have read the task as dispatched. -/
def afterPrompt (c : FleetConfig) : FleetAction → Bool
  | .run i _ =>
    match c.threads[i]?, c.next i with
    | some ⟨_, .cancel id _, _⟩, some (.acp (.findCancelTarget _)) =>
      (List.range c.threads.length).any fun j =>
        match c.threads[j]? with
        | some ⟨_, .prompt _ _ req _, _⟩ => req.taskId = id && (history c.log j).any promptSettled
        | _ => false
    | some ⟨_, .cancel _ _, _⟩, some (.store (.compareAndSetTaskStatus ..)) =>
      (history c.log i).all fun e =>
        match e with
        | ⟨.store (.getTask _), .ok (some task)⟩ => task.phase = .dispatched
        | _ => true
    | _, _ => true
  | _ => true

theorem heedful_of_afterPrompt {c : FleetConfig} {x : FleetAction} (h : afterPrompt c x = true) :
    Heedful c x := by
  cases x with
  | start p a => trivial
  | env d => trivial
  | run i ch =>
    intro th id reason hth hact
    obtain ⟨p, act, prog⟩ := th
    obtain rfl : act = .cancel id reason := hact
    constructor
    · intro req hn
      simp only [afterPrompt, hth, hn, List.any_eq_true] at h
      obtain ⟨j, -, hj⟩ := h
      split at hj
      · next q link connection req' cwd prog' hthread =>
        obtain ⟨hid, e, he, hsettled⟩ := by
          simpa only [Bool.and_eq_true, decide_eq_true_eq, List.any_eq_true] using hj
        exact .inl ⟨j, _, hthread, ⟨link, connection, req', cwd, rfl, hid⟩, e, he, hsettled⟩
      · cases hj
    · intro expected new fence origin task t hn hf _ _
      simp only [afterPrompt, hth, hn, List.all_eq_true] at h
      exact of_decide_eq_true (h _ hf)

/-- The first task is cancelled while its worker works on it. -/
def soloRecalled : List FleetAction :=
  soloSent ++ [.start 0 (.cancel ⟨1⟩ "changed my mind")] ++ steps 2 11 {}

set_option maxRecDepth 10000 in
theorem withdrawn_heeded : ∃ c, (fleet solo).Reaches Heedful initial c ∧
    c.threads[2]? = some ⟨0, .cancel ⟨1⟩ "changed my mind", .ret (.cancelled (.ok ()))⟩ ∧
    (∀ k l, k :: l <:+ c.log → Handed ⟨1⟩ k → ∃ m, Since (k :: l) c.log m ∧ AsksFor ⟨1⟩ m) ∧
    ∀ c' j ch op, ∀ r : (fleet solo).Ran c c' j ch op, IsPromptOf ⟨1⟩ r.act →
      ∀ w connection s text, op ≠ .acp (.sendPrompt w connection s text) := by
  have hrun : (fleet solo).replayWhile afterPrompt initial soloRecalled =
      some ((fleet solo).after initial soloRecalled) := rfl
  have hreach := (replayWhile_reaches hrun).mono fun _ _ hx => heedful_of_afterPrompt hx
  have hdone : ((fleet solo).after initial soloRecalled).threads[2]? =
      some ⟨0, .cancel ⟨1⟩ "changed my mind", .ret (.cancelled (.ok ()))⟩ := rfl
  exact ⟨_, hreach, hdone, cancel_heeded initial_start hreach hdone⟩

end Heeded

end FleetOrchestrator.Scheduler
