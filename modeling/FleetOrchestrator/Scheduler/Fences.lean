import FleetOrchestrator.Scheduler.Records
import FleetOrchestrator.Scheduler.Tracks

/-! The fence a status write carries, and the tenure it stands for. -/

namespace FleetOrchestrator.Scheduler

open Core Tables Store Transport Interleaving Machine

/-- The epoch was granted to `holder`: as long as it is the current one, the lease is its. -/
def Tenured (s : StoreState) (cluster holder : String) (epoch : ℤ) : Prop :=
  ∃ l, s.controlLeases.get cluster = some l ∧ epoch ≤ l.epoch ∧
    (l.epoch = epoch → l.activeInstanceId = holder)

section Tenures

variable {s s' : StoreState} {cluster holder : String} {epoch : ℤ}

theorem Tenured.step (h : Tenured s cluster holder epoch)
    (hr : RowStep s.now (s.controlLeases.get cluster) (s'.controlLeases.get cluster)) :
    Tenured s' cluster holder epoch := by
  obtain ⟨l, hl, hle, hholder⟩ := h
  rw [hl] at hr
  generalize hrow : s'.controlLeases.get cluster = row at hr
  cases hr with
  | same => exact ⟨l, hrow, hle, hholder⟩
  | next old l' hx he =>
    refine ⟨l', hrow, by omega, ?_⟩
    intro hsame
    omega
  | renewed l' ttl hx => exact ⟨_, hrow, hle, hholder⟩
  | released l' => exact ⟨_, hrow, hle, hholder⟩

theorem tenured_acquired {b : Backend} {ttl : ℕ} {version : Option String} {l : ControlLease}
    (h : b.acquireControlLease s cluster holder ttl version = (.ok l, s')) :
    Tenured s' cluster holder l.epoch := by
  obtain ⟨⟨-, ha⟩, hl, -⟩ := acquired h
  exact ⟨l, hl, Int.le_refl _, fun _ => ha⟩

theorem tenured_renewed {b : Backend} {ttl : ℕ} {l : ControlLease}
    (h : b.renewControlLease s cluster holder epoch ttl = (.ok l, s')) :
    Tenured s' cluster holder l.epoch := by
  rcases renew_cases b s cluster holder epoch ttl with ⟨l', hl', ha, he, -, hr⟩ | ⟨-, hr⟩
  · rw [hr] at h
    cases h
    refine ⟨renewedLease s.now ttl l', ?_, Int.le_refl _, fun _ => ha⟩
    dsimp only
    rw [Keyed.get_modify_self, hl']
    rfl
  · rw [hr] at h
    cases h

/-- A tenure whose epoch is still the current one is held. -/
theorem Tenured.held (h : Tenured s cluster holder epoch)
    (hf : s.controlFenceHolds (some ⟨cluster, epoch⟩) = true) : Held s cluster holder epoch := by
  obtain ⟨l, hl, -, hholder⟩ := h
  rw [fenceHolds_some, StoreState.heldEpoch, hl] at hf
  have he : l.epoch = epoch := Option.some.inj hf
  exact ⟨l, hl, hholder he, he⟩

end Tenures

section Frames

variable {D : Deployment} {ch : Choice} {p q : ℕ} {w w' : World}

theorem exec_lease {op : Op} {r : Resp op} (h : exec D ch q op w = some (r, w')) (p : ℕ) :
    (w'.process p).leaseStatus = (w.process p).leaseStatus ∨
      p = q ∧ op = .process (.setLeaseStatus (w'.process p).leaseStatus) := by
  rw [exec_part status_remembered h p]
  by_cases hp : q = p
  · rw [if_pos hp]
    cases op with
    | process o =>
      cases o with
      | setLeaseStatus st => exact .inr ⟨hp.symm, rfl⟩
      | _ => exact .inl rfl
    | _ => exact .inl rfl
  · rw [if_neg hp]
    exact .inl rfl

end Frames

/-- The lease call behind an entry was granted under this epoch. -/
def GrantOf (identity : LeaseIdentity) (epoch : ℤ) (e : Entry Op Resp) : Prop :=
  ∃ lease : ControlLease, lease.epoch = epoch ∧
    ((∃ ttl version, e = ⟨.store (.acquireControlLease identity.clusterId identity.instanceId ttl
        version), .ok lease⟩) ∨
      ∃ old ttl, e = ⟨.store (.renewControlLease identity.clusterId identity.instanceId old ttl),
        .ok lease⟩)

section Runs

variable {D : Deployment} {cond : FleetConfig → FleetAction → Prop} {c₀ c c' : FleetConfig}
  {x : FleetAction} {identity : LeaseIdentity} {epoch : ℤ}

theorem tenured_step {cluster holder : String} (hs : (fleet D).step c x = some c')
    (h : Tenured c.state.store cluster holder epoch) :
    Tenured c'.state.store cluster holder epoch := h.step (lease_step hs cluster).1

theorem granted_tenured (h₀ : Start c₀) (h : (fleet D).Reaches cond c₀ c) :
    ∀ k ∈ c.log, ∀ identity epoch, GrantOf identity epoch k.entry →
      Tenured c.state.store identity.clusterId identity.instanceId epoch := by
  apply h.logged (P := fun c k => ∀ identity epoch, GrantOf identity epoch k.entry →
    Tenured c.state.store identity.clusterId identity.instanceId epoch) h₀.fresh
  · rintro c c' i ch op r - - - identity epoch ⟨lease, rfl, ⟨ttl, version, he⟩ | ⟨old, ttl, he⟩⟩
    · obtain ⟨r', hr', -, -⟩ := ran_as r he
      obtain ⟨ha, hw⟩ := exec_store (ran_exec r')
      rw [hr'] at ha
      rw [hw]
      cases hf : ch.fault with
      | some e =>
        rw [hf] at ha
        cases ha
      | none =>
        rw [hf] at ha
        exact tenured_acquired (Prod.ext ha.symm rfl)
    · obtain ⟨r', hr', -, -⟩ := ran_as r he
      obtain ⟨ha, hw⟩ := exec_store (ran_exec r')
      rw [hr'] at ha
      rw [hw]
      cases hf : ch.fault with
      | some e =>
        rw [hf] at ha
        cases ha
      | none =>
        rw [hf] at ha
        exact tenured_renewed (Prod.ext ha.symm rfl)
  · intro c x c' k _ _ hs _ hp identity epoch hg
    exact tenured_step hs (hp identity epoch hg)

theorem Granted.tenured (h₀ : Start c₀) (h : (fleet D).Reaches cond c₀ c) {i : ℕ}
    {lease : ControlLease} (hg : Granted identity lease (history c.log i)) :
    Tenured c.state.store identity.clusterId identity.instanceId lease.epoch := by
  obtain ⟨h₁, hg⟩ := hg
  have key {e : Entry Op Resp} (hh : history c.log i = e :: h₁)
      (he : GrantOf identity lease.epoch e) :
      Tenured c.state.store identity.clusterId identity.instanceId lease.epoch := by
    have hm : e ∈ history c.log i := by
      rw [hh]
      exact List.mem_cons_self
    obtain ⟨k, hk, -, rfl⟩ := mem_history.mp hm
    exact granted_tenured h₀ h k hk identity lease.epoch he
  rcases hg with ⟨ttl, version, hh⟩ | ⟨old, ttl, hh⟩
  · exact key hh ⟨lease, rfl, .inl ⟨ttl, version, rfl⟩⟩
  · exact key hh ⟨lease, rfl, .inr ⟨old, ttl, rfl⟩⟩

/-- An epoch under which a process is active was granted to it. -/
def ActiveTenured (D : Deployment) (c : FleetConfig) : Prop :=
  ∀ p identity epoch, (D.process p).lease = some identity →
    (c.state.process p).leaseStatus = .active epoch →
      Tenured c.state.store identity.clusterId identity.instanceId epoch

theorem active_tenured (h₀ : Start c₀) (h : (fleet D).Reaches cond c₀ c) : ActiveTenured D c := by
  apply h.invariant (P := ActiveTenured D)
  · intro p identity epoch _ ha
    rw [h₀.pristine.process] at ha
    cases ha
  · intro c x c' hr _ hs ih p identity epoch hl ha
    have kept (hsame : (c'.state.process p).leaseStatus = (c.state.process p).leaseStatus) :
        Tenured c'.state.store identity.clusterId identity.instanceId epoch :=
      tenured_step hs (ih p identity epoch hl (hsame.symm.trans ha))
    cases x with
    | start q a => exact kept (accept_part status_remembered (step_start hs).1 p)
    | env e => exact kept (disturb_part status_remembered (step_env hs).1 p)
    | run i ch =>
      obtain ⟨op, ⟨r⟩⟩ := step_run hs
      rcases exec_lease (ran_exec r) p with hsame | ⟨rfl, hop⟩
      · exact kept hsame
      · rw [ha] at hop
        subst hop
        obtain ⟨identity', lease, hl', hg, rfl⟩ := ran_licensed h₀.seeded hr r
        rw [hl] at hl'
        cases hl'
        exact tenured_step hs (hg.tenured h₀ hr)

/-- A fence is read off an active status, and stands for what was granted then. -/
theorem read_tenured (h₀ : Start c₀) (h : (fleet D).Reaches cond c₀ c) :
    ∀ k ∈ c.log, ∀ f, k.entry = ⟨.process .controlFence, some f⟩ →
      ∃ identity, (D.process k.party).lease = some identity ∧ f.clusterId = identity.clusterId ∧
        Tenured c.state.store identity.clusterId identity.instanceId f.epoch := by
  apply h.logged (P := fun c k => ∀ f, k.entry = ⟨.process .controlFence, some f⟩ →
    ∃ identity, (D.process k.party).lease = some identity ∧ f.clusterId = identity.clusterId ∧
      Tenured c.state.store identity.clusterId identity.instanceId f.epoch) h₀.fresh
  · intro c c' i ch op r hr _ hs f he
    obtain ⟨r', hr', hparty, -⟩ := ran_as r he
    have ha := (exec_process (ran_exec r')).1
    rw [hr', hparty] at ha
    change some f = (c.state.process r.party).controlFence (D.process r.party) at ha
    unfold Process.controlFence at ha
    cases hl : (D.process r.party).lease with
    | none =>
      rw [hl] at ha
      cases ha
    | some identity =>
      rw [hl] at ha
      cases hst : (c.state.process r.party).leaseStatus with
      | stopped =>
        rw [hst] at ha
        cases ha
      | fenced =>
        rw [hst] at ha
        cases ha
      | active epoch =>
        rw [hst] at ha
        cases ha
        exact ⟨identity, rfl, rfl,
          tenured_step hs (active_tenured h₀ hr r.party identity epoch hl hst)⟩
  · intro c x c' k _ _ hs _ hp f he
    obtain ⟨identity, hl, hc, ht⟩ := hp f he
    exact ⟨identity, hl, hc, tenured_step hs ht⟩

end Runs

/-- The next operation of a program is a status write. -/
def writesStatus {α : Type} : M α → Bool
  | .call (.store (.compareAndSetTaskStatus ..)) _ => true
  | _ => false

/-- Where the fence of a status write is read, the process is active, if it has a lease at all. -/
def readsActive (D : Deployment) (c : FleetConfig) : FleetAction → Bool
  | .run i _ =>
    match c.threads[i]? with
    | some ⟨p, _, .call (.process .controlFence) k⟩ =>
      !writesStatus (k none) || (D.process p).lease.isNone ||
        (c.state.process p).leaseStatus.isActive
    | _ => true
  | .start .. | .env _ => true

section Transitions

variable {D : Deployment} {c₀ c c' : FleetConfig} {i : ℕ} {ch : Choice} {id : TaskId}
  {expected : List TaskPhase} {new : TaskStatus} {fence : Option ControlFence}
  {origin : TransitionOrigin} {identity : LeaseIdentity}

theorem fence_carried (h₀ : Start c₀)
    (h : (fleet D).Reaches (fun c x => readsActive D c x = true) c₀ c)
    (r : (fleet D).Ran c c' i ch
      (.store (.compareAndSetTaskStatus id expected new fence origin)))
    (hl : (D.process r.party).lease = some identity) : fence ≠ none := by
  obtain ⟨⟨h₁, hh⟩, -, -⟩ := ran_licensed h₀.seeded h r
  have hread : ⟨.process .controlFence, fence⟩ :: h₁ <:+ history c.log i := by rw [hh]
  obtain ⟨k, l, hk, rfl, he, hl₁⟩ := of_history_at hread
  have hn : ¬ k :: l <:+ c₀.log := by
    rw [h₀.fresh.log, List.suffix_nil]
    exact List.cons_ne_nil k l
  obtain ⟨c₁, c₂, ch₁, -, hcond, hs, rfl, ⟨r₁, -, hr₁⟩, h₂⟩ := h.step_of_log hk hn
  have he' : (⟨k.op, r₁.resp⟩ : Entry Op Resp) = ⟨.process .controlFence, fence⟩ :=
    (congrArg (Entry.mk k.op) hr₁).trans he
  obtain ⟨r₂, hr₂, -, -⟩ := ran_as r₁ he'
  obtain ⟨hafter, hhist⟩ := r₂.after
  rw [hr₂] at hafter hhist
  have hsame : history c.log k.thread = history c₂.log k.thread := by rw [hh, hhist, hl₁]
  have hidle := h₂.idle hafter hsame
  have hwas := r.was
  rw [hidle] at hwas
  obtain ⟨hparty, -, hprog⟩ := Thread.mk.inj (Option.some.inj hwas)
  rintro rfl
  simp only [readsActive, r₂.was, hprog, writesStatus, hparty, hl, Bool.not_true, Bool.false_or,
    Option.isNone_some] at hcond
  have ha := (exec_process (ran_exec r₂)).1
  rw [hr₂, hparty] at ha
  change none = (c₁.state.process r.party).controlFence (D.process r.party) at ha
  unfold Process.controlFence at ha
  rw [hl] at ha
  cases hst : (c₁.state.process r.party).leaseStatus with
  | stopped =>
    rw [hst] at hcond
    cases hcond
  | fenced =>
    rw [hst] at hcond
    cases hcond
  | active epoch =>
    rw [hst] at ha
    cases ha

/-- In a run in which every fence of a status write is read by an active process, every transition
applied by a process with a lease carries a fence, and at that moment the lease is held by that
process's instance under the fence's epoch. -/
theorem transitions_fenced (h₀ : Start c₀)
    (h : (fleet D).Reaches (fun c x => readsActive D c x = true) c₀ c)
    (r : (fleet D).Ran c c' i ch
      (.store (.compareAndSetTaskStatus id expected new fence origin)))
    (hr : r.resp = .ok .applied) (hl : (D.process r.party).lease = some identity) :
    ∃ f, fence = some f ∧ f.clusterId = identity.clusterId ∧
      Held c.state.store identity.clusterId identity.instanceId f.epoch := by
  cases fence with
  | none => exact absurd rfl (fence_carried h₀ h r hl)
  | some f =>
    obtain ⟨⟨h₁, hh⟩, -, -⟩ := ran_licensed h₀.seeded h r
    have hread : (⟨.process .controlFence, some f⟩ : Entry Op Resp) ∈ history c.log i := by
      rw [hh]
      exact List.mem_cons_self
    have hk := of_history h₀.fresh h r.was hread
    obtain ⟨identity', hl', hc, ht⟩ := read_tenured h₀ h _ hk f rfl
    rw [hl] at hl'
    cases hl'
    obtain ⟨hf, -⟩ := ran_applied r hr
    refine ⟨f, rfl, hc, ht.held ?_⟩
    rw [← hc]
    exact hf

/-- Two instances over one store. -/
def pair : Deployment :=
  { solo with process := fun p => { solo.process p with
      lease := some ⟨"cluster", if p = 0 then "first" else "second", "1.0", secs 15⟩ } }

/-- The first instance holds the lease and begins to cancel a pending task. -/
def pairCancelling : List FleetAction :=
  [.env (.insertPending (soloTask 1 [])), .start 0 .acquireLease] ++ steps 0 2 {} ++
    [.start 0 (.cancel ⟨1⟩ "no longer needed")] ++ steps 1 3 {}

/-- It finishes undisturbed. -/
def pairCancelled : List FleetAction := pairCancelling ++ steps 1 1 {}

/-- Its lease runs out, the second instance takes over, and its renewal fails. -/
def pairOvertaken : List FleetAction :=
  pairCancelling ++ [.env (.elapse (secs 16)), .start 1 .acquireLease] ++ steps 2 2 {} ++
    [.start 0 (.renewLease 1)] ++ steps 3 2 {} ++ steps 1 1 {}

/-- The cancellation as this process writes it. -/
def cancelWrite (fence : Option ControlFence) (cancelledAt : ℤ) : Op :=
  .store (.compareAndSetTaskStatus ⟨1⟩ [.pending, .dispatched]
    (.cancelled "no longer needed" cancelledAt) fence .controlDecision)

set_option maxRecDepth 10000 in
theorem undisturbed_cancel_fenced :
    ∃ f, some (⟨"cluster", 1⟩ : ControlFence) = some f ∧ f.clusterId = "cluster" ∧
      Held ((fleet pair).after initial pairCancelled).state.store "cluster" "first" f.epoch := by
  have hreach : (fleet pair).replayWhile (readsActive pair) initial pairCancelled =
      some ((fleet pair).after initial pairCancelled) := rfl
  let r : (fleet pair).Ran ((fleet pair).after initial pairCancelled)
      ((fleet pair).after initial (pairCancelled ++ steps 1 1 {})) 1 {}
      (cancelWrite (some ⟨"cluster", 1⟩) 0) :=
    ⟨0, .cancel ⟨1⟩ "no longer needed", _, .ok .applied, rfl, rfl, rfl, rfl⟩
  exact transitions_fenced initial_start (replayWhile_reaches hreach) r rfl rfl

set_option maxRecDepth 10000 in
/-- An instance that has lost its lease cancels a task without any fence, while the lease is held by
the other one. -/
theorem overtaken_cancel_unfenced : ∃ c c' : FleetConfig,
    (fleet pair).Reaches always initial c ∧
      ∃ r : (fleet pair).Ran c c' 1 {} (cancelWrite none 0),
        r.resp = .ok .applied ∧ r.party = 0 ∧ (pair.process 0).lease.isSome = true ∧
          (c.state.process 0).leaseStatus = .fenced ∧
          Held c.state.store "cluster" "second" 2 ∧
          (c'.state.row ⟨1⟩).map Task.phase = some .cancelled := by
  refine ⟨(fleet pair).after initial pairOvertaken,
    (fleet pair).after initial (pairOvertaken ++ steps 1 1 {}), after_reaches _,
    ⟨0, .cancel ⟨1⟩ "no longer needed", _, .ok .applied, rfl, rfl, rfl, rfl⟩, rfl, rfl, rfl, rfl,
    ⟨_, rfl, rfl, rfl⟩, rfl⟩

end Transitions

end FleetOrchestrator.Scheduler
