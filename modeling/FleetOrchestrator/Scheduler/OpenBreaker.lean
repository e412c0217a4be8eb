import FleetOrchestrator.Interleaving.Passage
import FleetOrchestrator.Scheduler.Records

/-! A worker whose breaker is open is filtered out before the breaker could admit a probe. -/

namespace FleetOrchestrator.Scheduler

open Core Store Transport Interleaving Machine

/-- What a process keeps about the breaker of `w`. -/
def World.breaker (u : World) (p : ℕ) (w : WorkerId) : Option BreakerInner :=
  (u.process p).breakers w

section Frames

variable {D : Deployment} {ch : Choice} {p : ℕ} {w : WorkerId} {b : BreakerInner}

theorem setBreaker_same (q : Process) (w : WorkerId) (b : BreakerInner) :
    (q.setBreaker w b).breakers w = some b := if_pos rfl

theorem setBreaker_ne (q : Process) {w v : WorkerId} (b : BreakerInner) (h : w ≠ v) :
    (q.setBreaker v b).breakers w = q.breakers w := if_neg h

theorem gauge_breakers (q : Process) (n : ℕ) :
    ({ q with runningGauge := n } : Process).breakers = q.breakers := rfl

/-- Only a check moves an open breaker. -/
theorem perform_breaker {cfg : ProcessConfig} {now : ℤ} {q : Process} {o : ProcessOp}
    (hb : q.breakers w = some b) (hopen : b.state = .open) (ho : o ≠ .breakerCheck w) :
    (q.perform cfg now o).2.breakers w = some b := by
  cases o with
  | breakerGet v initial =>
    simp only [Process.perform]
    cases hv : q.breakers v with
    | some b' => exact hb
    | none =>
      have hne : w ≠ v := by
        rintro rfl
        rw [hb] at hv
        cases hv
      dsimp only
      rw [setBreaker_ne _ _ hne, hb]
  | breakerCheck v =>
    have hne : w ≠ v := by
      rintro rfl
      exact ho rfl
    simp only [Process.perform]
    cases q.breakers v with
    | some b' =>
      dsimp only
      rw [setBreaker_ne _ _ hne, hb]
    | none => exact hb
  | breakerRecord v outcome =>
    simp only [Process.perform]
    cases hv : q.breakers v with
    | none => exact hb
    | some b' =>
      dsimp only
      by_cases hne : w = v
      · subst hne
        rw [hb] at hv
        cases hv
        rw [setBreaker_same, BreakerInner.record_open hopen]
      · rw [setBreaker_ne _ _ hne, hb]
  | reportUnacked agent generation =>
    simp only [Process.perform]
    split <;> exact hb
  | incRunning =>
    rw [← hb]
    exact congrFun (gauge_breakers q _) w
  | decRunning =>
    rw [← hb]
    exact congrFun (gauge_breakers q _) w
  | _ => exact hb

theorem exec_breaker {op : Op} {u u' : World} {r : Resp op} (h : exec D ch p op u = some (r, u'))
    (hb : u.breaker p w = some b) (hopen : b.state = .open)
    (ho : op ≠ .process (.breakerCheck w)) : u'.breaker p w = some b := by
  cases op with
  | store o =>
    obtain ⟨-, rfl⟩ := exec_store h
    exact hb
  | process o =>
    obtain ⟨-, rfl⟩ := exec_process h
    unfold World.breaker
    rw [World.setProcess_self]
    apply perform_breaker hb hopen
    rintro rfl
    exact ho rfl
  | acp o =>
    obtain ⟨u₁, t, -, -, rfl⟩ := exec_acp h
    unfold World.breaker
    rw [World.setProcess_self]
    exact hb
  | readSkill file =>
    obtain rfl := exec_readSkill h
    exact hb

/-- The reading of an open breaker. -/
theorem exec_reads_open {u u' : World} {st : BreakerState}
    (h : exec D ch p (.process (.breakerStateOf w)) u = some (st, u'))
    (hb : u.breaker p w = some b) (hopen : b.state = .open) : st = .open := by
  obtain ⟨hst, -⟩ := exec_process h
  rw [hst]
  change (u.process p).breakerOf w = .open
  unfold Process.breakerOf
  rw [show (u.process p).breakers w = some b from hb]
  exact hopen

end Frames

/-- Nobody but the thread `i` does anything to the breaker of `w`. -/
def LeavesBreaker (D : Deployment) (p : ℕ) (w : WorkerId) (i : ℕ) (c : FleetConfig)
    (x : FleetAction) : Prop :=
  (∃ ch, x = .run i ch) ∨
    ∀ c', (fleet D).step c x = some c' → c'.state.breaker p w = c.state.breaker p w

/-- Nothing in this entry gets past an open breaker of `w`. -/
structure Barred (w : WorkerId) (e : Entry Op Resp) : Prop where
  read : ∀ st, e = ⟨.process (.breakerStateOf w), st⟩ → st = .open
  unchecked : e.op ≠ .process (.breakerCheck w)
  unclaimed : ∀ id, ¬ Claimed id w e

/-- What the thread does after `h₀` is to select a worker anew, and nothing of it gets past the
open breaker of `w`. -/
def Refused (w : WorkerId) (h₀ h : History) : Prop :=
  ∃ new listed, h = new ++ ⟨.store (.listWorkers { status := some .online }), listed⟩ :: h₀ ∧
    ∀ e ∈ new, Barred w e

theorem Refused.not_passed {w : WorkerId} {h₀ h : History} (hr : Refused w h₀ h) :
    ¬ Passed w h := by
  obtain ⟨new, listed, rfl, hbarred⟩ := hr
  rintro ⟨h₁, st, hst, later, heq, hminor⟩
  rcases List.append_eq_append_iff.mp heq with ⟨mid, hlater, hrest⟩ | ⟨mid, hnew, hrest⟩
  · cases mid with
    | nil =>
      rw [List.nil_append] at hrest
      cases hrest
    | cons e mid =>
      rw [List.cons_append] at hrest
      have he := (List.cons.inj hrest).1
      have hm := hminor e (hlater ▸ List.mem_append_right _ List.mem_cons_self)
      rw [← he] at hm
      cases hm
  · cases mid with
    | nil =>
      rw [List.nil_append] at hrest
      cases hrest
    | cons e mid =>
      rw [List.cons_append] at hrest
      have he := (List.cons.inj hrest).1
      have hin : e ∈ new := by
        rw [hnew]
        exact List.mem_append_right _ List.mem_cons_self
      rw [(hbarred e hin).read st he.symm] at hst
      cases hst

theorem Refused.more {w : WorkerId} {h₀ h : History} {e : Entry Op Resp} (hr : Refused w h₀ h)
    (he : Barred w e) : Refused w h₀ (e :: h) := by
  obtain ⟨new, listed, rfl, hbarred⟩ := hr
  refine ⟨e :: new, listed, rfl, ?_⟩
  intro e' he'
  rcases List.mem_cons.mp he' with rfl | he'
  · exact he
  · exact hbarred e' he'

section Runs

variable {D : Deployment} {cond : FleetConfig → FleetAction → Prop} {c₀ c c' c₁ c₂ : FleetConfig}
  {i p : ℕ} {ch : Choice} {op : Op} {w : WorkerId} {b : BreakerInner} {h₀ : History}

/-- No step of a thread that has not passed the filter gets past the breaker. -/
theorem barred_step (hstart : Start c₀) (h : (fleet D).Reaches cond c₀ c)
    (r : (fleet D).Ran c c' i ch op) (hp : r.party = p) (hb : c.state.breaker p w = some b)
    (hopen : b.state = .open) (hr : Refused w h₀ (history c.log i)) :
    Barred w ⟨op, r.resp⟩ ∧ c'.state.breaker p w = some b := by
  subst hp
  have hunchecked : op ≠ .process (.breakerCheck w) := by
    rintro rfl
    exact hr.not_passed (ran_licensed hstart.seeded h r)
  refine ⟨⟨?_, hunchecked, ?_⟩, exec_breaker (ran_exec r) hb hopen hunchecked⟩
  · intro st he
    obtain ⟨r', hr', hparty, -⟩ := ran_as r he
    have hexec := ran_exec r'
    rw [hr', hparty] at hexec
    exact exec_reads_open hexec hb hopen
  · rintro id ⟨expected, startedAt, fence, origin, he⟩
    obtain ⟨r', -, -, -⟩ := ran_as r he
    exact hr.not_passed (ran_licensed hstart.seeded h r').2.2.2.2

/-- Where a thread that began a dispatch is: about to select, or past the listing of the workers. -/
def Begun (w : WorkerId) (task : Task) (h₀ : History) (i p : ℕ) (act : Activity)
    (c : FleetConfig) : Prop :=
  (∃ g, c.threads[i]? = some ⟨p, act, Selector.select task >>= g⟩ ∧ history c.log i = h₀) ∨
    (∃ q, c.threads[i]? = some ⟨p, act, q⟩) ∧ Refused w h₀ (history c.log i)

theorem begun_step {act : Activity} {task : Task} (hstart : Start c₀)
    (h : (fleet D).Reaches cond c₀ c) {x : FleetAction} (hs : (fleet D).step c x = some c')
    (hx : LeavesBreaker D p w i c x) (hb : c.state.breaker p w = some b) (hopen : b.state = .open)
    (hbegun : Begun w task h₀ i p act c) :
    Begun w task h₀ i p act c' ∧ c'.state.breaker p w = some b := by
  by_cases hrun : ∃ ch, x = .run i ch
  · obtain ⟨ch, rfl⟩ := hrun
    obtain ⟨op, ⟨r⟩⟩ := step_run hs
    obtain ⟨hafter, hhist⟩ := r.after
    have hwas := r.was
    rcases hbegun with ⟨g, ht, hh⟩ | ⟨⟨q, ht⟩, hr⟩
    · rw [ht] at hwas
      obtain ⟨hparty, hact, hop⟩ := Thread.mk.inj (Option.some.inj hwas)
      obtain rfl : op = .store (.listWorkers { status := some .online }) := by
        have := congrArg (fun q : M Output => match q with
          | .call op _ => some op
          | .ret _ => none) hop
        exact (Option.some.inj this).symm
      refine ⟨.inr ⟨⟨_, by rw [hafter, hparty, hact]⟩, [], r.resp, ?_, ?_⟩, ?_⟩
      · rw [hhist, hh]
        rfl
      · intro e he
        cases he
      · exact exec_breaker (hparty ▸ ran_exec r) hb hopen (by simp)
    · rw [ht] at hwas
      obtain ⟨hparty, hact, -⟩ := Thread.mk.inj (Option.some.inj hwas)
      obtain ⟨hbarred, hb'⟩ := barred_step hstart h r hparty.symm hb hopen hr
      refine ⟨.inr ⟨⟨_, by rw [hafter, hparty, hact]⟩, ?_⟩, hb'⟩
      rw [hhist]
      exact hr.more hbarred
  · have hne : ∀ ch, x ≠ .run i ch := fun ch hc => hrun ⟨ch, hc⟩
    refine ⟨?_, ?_⟩
    · rcases hbegun with ⟨g, ht, hh⟩ | ⟨⟨q, ht⟩, hr⟩
      · obtain ⟨ht', hh'⟩ := step_idle hs ht hne
        exact .inl ⟨g, ht', hh'.trans hh⟩
      · obtain ⟨ht', hh'⟩ := step_idle hs ht hne
        exact .inr ⟨⟨q, ht'⟩, hh'.symm ▸ hr⟩
    · rcases hx with hx | hx
      · exact absurd hx hrun
      · rw [hx c' hs, hb]

/-- What a dispatch does with the worker it selected. -/
def afterSelection (D : Deployment) (cfg : ProcessConfig) (task : Task) (flag : Bool) :
    Except SelectionError WorkerId → M (Except DispatchError Unit)
  | .error e => do
    Dispatcher.failPending flag task.id (Dispatcher.selectionFailure e)
    return .error (.noWorker e.message)
  | .ok w => Dispatcher.dispatchTo D cfg task flag w

/-- A dispatch that begins while the breaker of `w` is open, for however long, is never admitted as
a probe of `w`: as long as nobody else touches the breaker it stays open, is never asked to admit
anything, and no task is claimed for `w`. -/
theorem open_breaker_never_admits {act : Activity} {task : Task} {flag : Bool}
    {f : Except DispatchError Unit → M Output} (hstart : Start c₀)
    (h : (fleet D).Reaches always c₀ c)
    (hc : c.threads[i]? =
      some ⟨p, act, Dispatcher.dispatchExisting D (D.process p) task flag >>= f⟩)
    (hallows : (c.state.process p).leaseAllowsControl (D.process p) = true)
    (hb : c.state.breaker p w = some b) (hopen : b.state = .open)
    (hs : (fleet D).step c (.run i ch) = some c₁)
    (h₁ : (fleet D).Reaches (LeavesBreaker D p w i) c₁ c₂) :
    c₂.state.breaker p w = some b ∧
      ∃ new, history c₂.log i = new ++ history c.log i ∧
        ∀ e ∈ new, e.op ≠ .process (.breakerCheck w) ∧ ∀ id, ¬ Claimed id w e := by
  obtain ⟨r, hdone, hafter, hhist⟩ := step_at hc hs
  have hexec : exec D ch p (.process .leaseAllowsControl) c.state = some (r, c₁.state) := hdone
  obtain rfl : r = true := (exec_process hexec).1.trans hallows
  have hb₁ : c₁.state.breaker p w = some b := exec_breaker hexec hb hopen (by simp)
  have hreach : (fleet D).Reaches always c₀ c₁ := .tail _ h trivial hs
  have key : Begun w task (⟨.process .leaseAllowsControl, true⟩ :: history c.log i) i p act c₂ ∧
      c₂.state.breaker p w = some b := by
    apply h₁.invariant (P := fun c' =>
      Begun w task (⟨.process .leaseAllowsControl, true⟩ :: history c.log i) i p act c' ∧
        c'.state.breaker p w = some b)
    · have hselect : c₁.threads[i]? = some ⟨p, act,
          Selector.select task >>= afterSelection D (D.process p) task flag >>= f⟩ := by
        rw [hafter]
        rfl
      rw [Prog.bind_assoc] at hselect
      exact ⟨.inl ⟨_, hselect, hhist⟩, hb₁⟩
    · rintro c₃ x c₄ h₃ hx hs₃ ⟨hbegun, hb₃⟩
      exact begun_step hstart (hreach.trans h₃.any) hs₃ hx hb₃ hopen hbegun
  obtain ⟨hbegun, hb₂⟩ := key
  refine ⟨hb₂, ?_⟩
  have nothing {e : Entry Op Resp} (he : Barred w e) :
      e.op ≠ .process (.breakerCheck w) ∧ ∀ id, ¬ Claimed id w e := ⟨he.unchecked, he.unclaimed⟩
  have hlease : Barred w (⟨.process .leaseAllowsControl, true⟩ : Entry Op Resp) := by
    constructor
    · intro st he
      cases congrArg Entry.op he
    · simp
    · rintro id ⟨expected, startedAt, fence, origin, he⟩
      cases congrArg Entry.op he
  rcases hbegun with ⟨g, -, hh⟩ | ⟨-, new, listed, hh, hbarred⟩
  · refine ⟨[_], hh, ?_⟩
    intro e he
    cases List.mem_singleton.mp he
    exact nothing hlease
  · refine ⟨new ++ [⟨.store (.listWorkers { status := some .online }), listed⟩,
      ⟨.process .leaseAllowsControl, true⟩], ?_, ?_⟩
    · rw [hh, List.append_assoc]
      rfl
    · intro e he
      rcases List.mem_append.mp he with he | he
      · exact nothing (hbarred e he)
      · rcases List.mem_cons.mp he with rfl | he
        · refine ⟨by simp, ?_⟩
          rintro id ⟨expected, startedAt, fence, origin, he⟩
          cases congrArg Entry.op he
        · cases List.mem_singleton.mp he
          exact nothing hlease

/-- A worker whose inventory could not be read; its breaker opens and has long cooled down when the
second task is submitted. -/
def soloCooled : List FleetAction :=
  soloSetup ++ [.start 0 (.submit (soloTask 1 []))] ++ steps 0 29 { acp := { list := .timedOut } } ++
    [.env (.elapse 30000), .start 0 (.submit (soloTask 2 []))] ++ steps 1 3 {}

def soloRefused : List FleetAction := soloCooled ++ steps 1 8 {}

def onlyThread (i : ℕ) : FleetAction → Bool
  | .run j _ => j = i
  | .start .. | .env _ => false

theorem leaves_own {x : FleetAction} (hx : onlyThread i x = true) : LeavesBreaker D p w i c x := by
  cases x with
  | run j ch =>
    obtain rfl : j = i := of_decide_eq_true hx
    exact .inl ⟨ch, rfl⟩
  | start q a => cases hx
  | env e => cases hx

set_option maxRecDepth 10000 in
theorem cooled_dispatch_not_admitted :
    ((fleet solo).after initial soloRefused).state.breaker 0 ⟨0⟩ =
      ((fleet solo).after initial soloCooled).state.breaker 0 ⟨0⟩ := by
  have hc : ((fleet solo).after initial soloCooled).threads[1]? = some ⟨0, .submit (soloTask 2 []),
      Dispatcher.firstAttempt solo (solo.process 0) (Dispatcher.routed solo (soloTask 2 [])) >>=
        fun r => .ret (.submitted r)⟩ := rfl
  unfold Dispatcher.firstAttempt at hc
  rw [Prog.bind_assoc] at hc
  have hrest : (fleet solo).replayWhile (fun _ x => onlyThread 1 x)
      ((fleet solo).after initial (soloCooled ++ steps 1 1 {})) (steps 1 7 {}) =
        some ((fleet solo).after initial soloRefused) := rfl
  have hown : (fleet solo).Reaches (LeavesBreaker solo 0 ⟨0⟩ 1)
      ((fleet solo).after initial (soloCooled ++ steps 1 1 {}))
      ((fleet solo).after initial soloRefused) :=
    (replayWhile_reaches hrest).mono fun _ _ hx => leaves_own hx
  have hs : (fleet solo).step ((fleet solo).after initial soloCooled) (.run 1 {}) =
      some ((fleet solo).after initial (soloCooled ++ steps 1 1 {})) := rfl
  exact (open_breaker_never_admits initial_start (after_reaches soloCooled) hc rfl rfl rfl hs
    hown).1

set_option maxRecDepth 10000 in
/-- The only worker is online, connected and idle, and its breaker opened long enough ago, yet the
next task is refused, and the breaker stays as it is. -/
theorem cooled_worker_refused : ∃ c₁ c₂ b l wk message,
    (fleet solo).Reaches always initial c₁ ∧ (fleet solo).Reaches always c₁ c₂ ∧
      c₁.threads.length = 2 ∧ c₁.next 1 = some (.process .leaseAllowsControl) ∧
      c₁.state.breaker 0 ⟨0⟩ = some b ∧ b.state = .open ∧
      secs (solo.process 0).breaker.openDurationSecs ≤ b.elapsed c₁.state.store.now ∧
      c₁.state.store.workers.rows = [wk] ∧ wk.id = ⟨0⟩ ∧ wk.status = .online ∧
      (c₁.state.transport 0).links = [l] ∧ l.workerId = ⟨0⟩ ∧ l.state = .connected ∧
      l.capacity = l.maxConcurrent ∧
      c₂.threads[1]? = some ⟨0, .submit (soloTask 2 []),
        .ret (.submitted (.error (.noWorker message)))⟩ ∧
      c₂.state.breaker 0 ⟨0⟩ = some b := by
  refine ⟨(fleet solo).after initial soloCooled, (fleet solo).after initial soloRefused, _, _, _, _,
    after_reaches _, ?_, rfl, rfl, rfl, rfl, ?_, rfl, rfl, rfl, rfl, rfl, rfl, rfl, rfl, rfl⟩
  · have hrest : (fleet solo).replay ((fleet solo).after initial soloCooled)
        (soloRefused.drop soloCooled.length) =
          some ((fleet solo).after initial soloRefused) := rfl
    exact replay_reaches hrest
  · decide

end Runs

end FleetOrchestrator.Scheduler
