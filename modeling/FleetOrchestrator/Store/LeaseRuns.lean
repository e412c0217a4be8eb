import FleetOrchestrator.Store.Lease

/-! Runs of lease calls and fenced writes, by any number of holders. -/

namespace FleetOrchestrator.Store

open Core Tables

inductive LeaseCall where
  | acquire (clusterId instanceId : String) (ttl : ℕ) (binaryVersion : Option String)
  | renew (clusterId instanceId : String) (epoch : ℤ) (ttl : ℕ)
  | release (clusterId instanceId : String) (epoch : ℤ)
  | compareAndSet (id : TaskId) (expected : List TaskPhase) (new : TaskStatus)
      (fence : Option ControlFence) (origin : TransitionOrigin)
  | elapse (d : ℕ)

inductive LeaseAnswer where
  | acquired (r : Except StoreError ControlLease)
  | renewed (r : Except StoreError ControlLease)
  | released (r : Except StoreError Bool)
  | transition (r : Except StoreError TransitionOutcome)
  | elapsed

namespace Backend

def call (b : Backend) (s : StoreState) : LeaseCall → LeaseAnswer × StoreState
  | .acquire c i ttl v =>
    let r := b.acquireControlLease s c i ttl v
    (.acquired r.1, r.2)
  | .renew c i e ttl =>
    let r := b.renewControlLease s c i e ttl
    (.renewed r.1, r.2)
  | .release c i e =>
    let r := b.releaseControlLease s c i e
    (.released r.1, r.2)
  | .compareAndSet id expected new fence origin =>
    let r := b.compareAndSetTaskStatus s id expected new fence origin
    (.transition r.1, r.2)
  | .elapse d => (.elapsed, { s with now := s.now + d })

def after (b : Backend) (s : StoreState) (calls : List LeaseCall) : StoreState :=
  calls.foldl (fun s x => (b.call s x).2) s

/-- The epochs the acquisitions of `cluster` are granted along a run, in order. -/
def grants (b : Backend) (cluster : String) : StoreState → List LeaseCall → List ℤ
  | _, [] => []
  | s, x :: xs =>
    match x, (b.call s x).1 with
    | .acquire c _ _ _, .acquired (.ok l) =>
      if c = cluster then l.epoch :: b.grants cluster (b.call s x).2 xs
      else b.grants cluster (b.call s x).2 xs
    | _, _ => b.grants cluster (b.call s x).2 xs

end Backend

/-- What one call can do to the row of a cluster. -/
inductive RowStep (now : ℤ) : Option ControlLease → Option ControlLease → Prop
  | same (row : Option ControlLease) : RowStep now row row
  | first (l : ControlLease) (he : l.epoch = 1) : RowStep now none (some l)
  | next (old l : ControlLease) (hx : old.expiresAt ≤ now) (he : l.epoch = old.epoch + 1) :
      RowStep now (some old) (some l)
  | renewed (l : ControlLease) (ttl : ℕ) (hx : now < l.expiresAt) :
      RowStep now (some l) (some (renewedLease now ttl l))
  | released (l : ControlLease) : RowStep now (some l) (some (releasedLease now l))

section Rows

variable {b : Backend} {s : StoreState} {k cluster instanceId : String} {epoch : ℤ} {ttl : ℕ}
  {version : Option String}

theorem acquire_row :
    RowStep s.now (s.controlLeases.get k)
      ((b.acquireControlLease s cluster instanceId ttl version).2.controlLeases.get k) := by
  rcases acquire_cases b s cluster instanceId ttl version with ⟨l, hr, hc, -, -, hg⟩ | ⟨e, hr⟩
  · rw [hr]
    by_cases hk : k = cluster
    · have hl : (s.controlLeases.put l).get k = some l := by
        rw [hk, ← hc]
        exact Keyed.get_put_self
      rw [hl, hk]
      rcases hg with ⟨hn, he⟩ | ⟨old, ho, hx, he⟩
      · rw [hn]
        exact .first l he
      · rw [ho]
        exact .next old l hx he
    · have hl : (s.controlLeases.put l).get k = s.controlLeases.get k :=
        Keyed.get_put_ne (by rwa [hc])
      rw [hl]
      exact .same _
  · rw [hr]
    exact .same _

theorem renew_row :
    RowStep s.now (s.controlLeases.get k)
      ((b.renewControlLease s cluster instanceId epoch ttl).2.controlLeases.get k) := by
  rcases renew_cases b s cluster instanceId epoch ttl with ⟨l, hl, -, -, hx, hr⟩ | ⟨-, hr⟩
  · rw [hr]
    by_cases hk : k = cluster
    · subst hk
      rw [Keyed.get_modify_self, hl]
      exact .renewed l ttl hx
    · rw [Keyed.get_modify_ne hk]
      exact .same _
  · rw [hr]
    exact .same _

theorem release_row :
    RowStep s.now (s.controlLeases.get k)
      ((b.releaseControlLease s cluster instanceId epoch).2.controlLeases.get k) := by
  rcases release_cases b s cluster instanceId epoch with ⟨l, hl, -, -, hr⟩ | ⟨-, hr⟩
  · rw [hr]
    by_cases hk : k = cluster
    · subst hk
      rw [Keyed.get_modify_self, hl]
      exact .released l
    · rw [Keyed.get_modify_ne hk]
      exact .same _
  · rw [hr]
    exact .same _

/-- Fenced or not, a task write touches no lease and reads no clock. -/
theorem cas_frame (s : StoreState) (id : TaskId) (expected : List TaskPhase) (new : TaskStatus)
    (fence : Option ControlFence) (origin : TransitionOrigin) :
    (b.compareAndSetTaskStatus s id expected new fence origin).2.controlLeases = s.controlLeases ∧
      (b.compareAndSetTaskStatus s id expected new fence origin).2.now = s.now := by
  have h := (memStore_meets_contract s id expected new fence origin).rest
  rw [backend_cas, h]
  exact ⟨rfl, rfl⟩

theorem acquire_now : (b.acquireControlLease s cluster instanceId ttl version).2.now = s.now := by
  rcases acquire_cases b s cluster instanceId ttl version with ⟨l, hr, -⟩ | ⟨e, hr⟩ <;> rw [hr]

theorem renew_now : (b.renewControlLease s cluster instanceId epoch ttl).2.now = s.now := by
  rcases renew_cases b s cluster instanceId epoch ttl with ⟨l, -, -, -, -, hr⟩ | ⟨-, hr⟩ <;> rw [hr]

theorem release_now : (b.releaseControlLease s cluster instanceId epoch).2.now = s.now := by
  rcases release_cases b s cluster instanceId epoch with ⟨l, -, -, -, hr⟩ | ⟨-, hr⟩ <;> rw [hr]

theorem call_row (x : LeaseCall) :
    RowStep s.now (s.controlLeases.get k) ((b.call s x).2.controlLeases.get k) := by
  cases x with
  | acquire c i ttl v => exact acquire_row
  | renew c i e ttl => exact renew_row
  | release c i e => exact release_row
  | compareAndSet id expected new fence origin =>
    have h := (cas_frame (b := b) s id expected new fence origin).1
    simp only [Backend.call, h]
    exact .same _
  | elapse d => exact .same _

theorem call_now (x : LeaseCall) : s.now ≤ (b.call s x).2.now := by
  cases x with
  | acquire c i ttl v => exact Int.le_of_eq acquire_now.symm
  | renew c i e ttl => exact Int.le_of_eq renew_now.symm
  | release c i e => exact Int.le_of_eq release_now.symm
  | compareAndSet id expected new fence origin =>
    exact Int.le_of_eq (cas_frame (b := b) s id expected new fence origin).2.symm
  | elapse d =>
    simp only [Backend.call]
    omega

end Rows

/-- `epoch` has been granted for `cluster`: the row carries it or a later one. -/
def EpochReached (s : StoreState) (cluster : String) (epoch : ℤ) : Prop :=
  ∃ l, s.controlLeases.get cluster = some l ∧ epoch ≤ l.epoch

section Stable

variable {b : Backend} {s s' : StoreState} {cluster holder : String} {epoch : ℤ}

theorem EpochReached.step (h : EpochReached s cluster epoch)
    (hr : RowStep s.now (s.controlLeases.get cluster) (s'.controlLeases.get cluster)) :
    EpochReached s' cluster epoch := by
  obtain ⟨l, hl, he⟩ := h
  unfold EpochReached
  rw [hl] at hr
  generalize s'.controlLeases.get cluster = row at hr ⊢
  cases hr with
  | same => exact ⟨l, rfl, he⟩
  | next _ l' _ he' => exact ⟨l', rfl, by omega⟩
  | renewed _ ttl => exact ⟨_, rfl, he⟩
  | released => exact ⟨_, rfl, he⟩

/-- A tenure that is over stays over, whatever happens to the row. -/
theorem Over.step (h : Over s cluster holder epoch)
    (hr : RowStep s.now (s.controlLeases.get cluster) (s'.controlLeases.get cluster))
    (hn : s.now ≤ s'.now) : Over s' cluster holder epoch := by
  obtain ⟨l, hl, ho⟩ := h
  unfold Over
  rw [hl] at hr
  generalize s'.controlLeases.get cluster = row at hr ⊢
  cases hr with
  | same =>
    refine ⟨l, rfl, ho.imp id ?_⟩
    rintro ⟨ha, he, hx⟩
    exact ⟨ha, he, by omega⟩
  | next _ l' _ he' =>
    refine ⟨l', rfl, .inl ?_⟩
    rcases ho with ho | ⟨-, he, -⟩ <;> omega
  | renewed _ ttl hx =>
    refine ⟨_, rfl, ho.imp id ?_⟩
    rintro ⟨-, -, hx'⟩
    omega
  | released =>
    refine ⟨_, rfl, ho.imp id ?_⟩
    rintro ⟨ha, he, -⟩
    exact ⟨ha, he, hn⟩

theorem EpochReached.after (h : EpochReached s cluster epoch) (calls : List LeaseCall) :
    EpochReached (b.after s calls) cluster epoch := by
  induction calls generalizing s with
  | nil => exact h
  | cons x xs ih => exact ih (h.step (call_row x))

theorem Over.after (h : Over s cluster holder epoch) (calls : List LeaseCall) :
    Over (b.after s calls) cluster holder epoch := by
  induction calls generalizing s with
  | nil => exact h
  | cons x xs ih => exact ih (h.step (call_row x) (call_now x))

/-- A tenure that once ran and no longer does is over. -/
theorem over_after (h : Held s cluster holder epoch) {calls : List LeaseCall}
    (hn : ¬ Live (b.after s calls) cluster holder epoch) :
    Over (b.after s calls) cluster holder epoch := by
  by_cases hl : Live s cluster holder epoch
  · induction calls generalizing s with
    | nil => exact absurd hl hn
    | cons x xs ih =>
      obtain ⟨l, hg, ha, he, hx⟩ := hl
      have hr := call_row (b := b) (k := cluster) (s := s) x
      rw [hg] at hr
      by_cases hlx : Live (b.call s x).2 cluster holder epoch
      · have held : Held (b.call s x).2 cluster holder epoch := by
          obtain ⟨l', hg', ha', he', -⟩ := hlx
          exact ⟨l', hg', ha', he'⟩
        exact ih held hn hlx
      · suffices Over (b.call s x).2 cluster holder epoch from this.after xs
        generalize hrow : (b.call s x).2.controlLeases.get cluster = row at hr
        cases hr with
        | same => exact over_of_held ⟨l, hrow, ha, he⟩ hlx
        | next _ l' hx' => omega
        | renewed _ ttl => exact over_of_held ⟨_, hrow, ha, he⟩ hlx
        | released => exact over_of_held ⟨_, hrow, ha, he⟩ hlx
  · exact (over_of_held h hl).after calls

end Stable

section Grants

variable {b : Backend} {s s' : StoreState} {cluster instanceId : String} {epoch : ℤ} {ttl : ℕ}
  {version : Option String} {l : ControlLease}

theorem acquired (h : b.acquireControlLease s cluster instanceId ttl version = (.ok l, s')) :
    (l.clusterId = cluster ∧ l.activeInstanceId = instanceId) ∧
      s'.controlLeases.get cluster = some l ∧
      ∀ old, s.controlLeases.get cluster = some old →
        old.expiresAt ≤ s.now ∧ l.epoch = old.epoch + 1 := by
  rcases acquire_cases b s cluster instanceId ttl version with ⟨l', hr, hc, ha, -, hg⟩ | ⟨e, hr⟩
  · rw [hr] at h
    cases h
    refine ⟨⟨hc, ha⟩, ?_, ?_⟩
    · rw [← hc]
      exact Keyed.get_put_self
    · intro old ho
      rcases hg with ⟨hn, -⟩ | ⟨old', ho', hx, he⟩
      · rw [hn] at ho
        cases ho
      · rw [ho] at ho'
        cases ho'
        exact ⟨hx, he⟩
  · rw [hr] at h
    cases h

theorem acquired_reaches (h : b.acquireControlLease s cluster instanceId ttl version = (.ok l, s')) :
    EpochReached s' cluster l.epoch :=
  ⟨l, (acquired h).2.1, Int.le_refl _⟩

theorem acquired_later (h : b.acquireControlLease s cluster instanceId ttl version = (.ok l, s'))
    (he : EpochReached s cluster epoch) : epoch < l.epoch := by
  obtain ⟨old, ho, hle⟩ := he
  have := ((acquired h).2.2 old ho).2
  omega

/-- One call of a run either grants an epoch of `cluster` or leaves the list of grants alone. -/
theorem grants_cons (b : Backend) (cluster : String) (s : StoreState) (x : LeaseCall)
    (xs : List LeaseCall) :
    (∃ i ttl v l, b.acquireControlLease s cluster i ttl v = (.ok l, (b.call s x).2) ∧
      b.grants cluster s (x :: xs) = l.epoch :: b.grants cluster (b.call s x).2 xs) ∨
    b.grants cluster s (x :: xs) = b.grants cluster (b.call s x).2 xs := by
  cases x with
  | acquire c i ttl v =>
    cases hr : (b.acquireControlLease s c i ttl v).1 with
    | error e =>
      right
      simp [Backend.grants, Backend.call, hr]
    | ok l =>
      by_cases hc : c = cluster
      · subst hc
        left
        refine ⟨i, ttl, v, l, Prod.ext hr rfl, ?_⟩
        simp [Backend.grants, Backend.call, hr]
      · right
        simp [Backend.grants, Backend.call, hr, hc]
  | renew | release | compareAndSet | elapse => exact .inr rfl

theorem grants_above (h : EpochReached s cluster epoch) (calls : List LeaseCall) :
    ∀ e ∈ b.grants cluster s calls, epoch < e := by
  induction calls generalizing s with
  | nil =>
    intro e he
    cases he
  | cons x xs ih =>
    have hx := ih (h.step (call_row (b := b) x))
    rcases grants_cons b cluster s x xs with ⟨i, ttl, v, l, ha, hg⟩ | hg
    · rw [hg]
      intro e he
      rcases List.mem_cons.mp he with rfl | he
      · exact acquired_later ha h
      · exact hx e he
    · rw [hg]
      exact hx

theorem grants_increase (s : StoreState) (calls : List LeaseCall) :
    (b.grants cluster s calls).Pairwise (· < ·) := by
  induction calls generalizing s with
  | nil => exact List.Pairwise.nil
  | cons x xs ih =>
    rcases grants_cons b cluster s x xs with ⟨i, ttl, v, l, ha, hg⟩ | hg
    · rw [hg]
      exact List.Pairwise.cons (grants_above (acquired_reaches ha) xs) (ih _)
    · rw [hg]
      exact ih _

/-- A write fenced below an epoch already granted is not applied. -/
theorem fenced_out (h : EpochReached s cluster (epoch + 1)) (id : TaskId)
    (expected : List TaskPhase) (new : TaskStatus) (origin : TransitionOrigin) :
    (b.compareAndSetTaskStatus s id expected new (some ⟨cluster, epoch⟩) origin).1 =
      .ok .fenced := by
  obtain ⟨l, hl, he⟩ := h
  rw [backend_cas, (memStore_meets_contract s id expected new _ origin).fenced]
  refine ⟨_, rfl, ?_⟩
  simp only [StoreState.heldEpoch, hl, Option.map_some, ne_eq, Option.some.injEq]
  omega

end Grants

section Ended

variable {b : Backend} {s : StoreState} {cluster holder : String} {epoch : ℤ}

theorem renew_over (h : Over s cluster holder epoch) (ttl : ℕ) :
    b.renewControlLease s cluster holder epoch ttl = (.error .notFound, s) := by
  rcases renew_cases b s cluster holder epoch ttl with ⟨l, hl, ha, he, hx, -⟩ | ⟨-, hr⟩
  · exact absurd ⟨l, hl, ha, he, hx⟩ h.not_live
  · exact hr

theorem release_over (h : Over s cluster holder epoch) :
    Over (b.releaseControlLease s cluster holder epoch).2 cluster holder epoch :=
  h.step release_row (Int.le_of_eq release_now.symm)

/-- Releasing touches at most the holder's own row, and of that row only the expiry. -/
theorem release_others {k : String} {l : ControlLease} (hl : s.controlLeases.get k = some l)
    (hn : ¬ (k = cluster ∧ l.activeInstanceId = holder ∧ l.epoch = epoch)) :
    (b.releaseControlLease s cluster holder epoch).2.controlLeases.get k = some l := by
  rcases release_cases b s cluster holder epoch with ⟨l', hl', ha, he, hr⟩ | ⟨-, hr⟩
  · rw [hr]
    have hk : k ≠ cluster := by
      rintro rfl
      rw [hl] at hl'
      cases hl'
      exact hn ⟨rfl, ha, he⟩
    rw [Keyed.get_modify_ne hk, hl]
  · rw [hr, hl]

end Ended

/-- What any run of calls from `s` keeps for `cluster`. -/
structure LeaseGuarantees (b : Backend) (s : StoreState) (cluster : String) : Prop where
  epochsIncrease : ∀ calls, (b.grants cluster s calls).Pairwise (· < ·)
  grantedWhenFree : ∀ calls instanceId ttl version l s',
    b.acquireControlLease (b.after s calls) cluster instanceId ttl version = (.ok l, s') →
      l.activeInstanceId = instanceId ∧
        ∀ old, (b.after s calls).controlLeases.get cluster = some old →
          old.expiresAt ≤ (b.after s calls).now
  renewEnded : ∀ calls more later holder epoch ttl,
    Held (b.after s calls) cluster holder epoch →
      ¬ Live (b.after s (calls ++ more)) cluster holder epoch →
      b.renewControlLease (b.after s (calls ++ more ++ later)) cluster holder epoch ttl =
        (.error .notFound, b.after s (calls ++ more ++ later))
  releaseEnded : ∀ calls more later holder epoch,
    Held (b.after s calls) cluster holder epoch →
      ¬ Live (b.after s (calls ++ more)) cluster holder epoch →
      ¬ Live (b.releaseControlLease (b.after s (calls ++ more ++ later)) cluster holder epoch).2
        cluster holder epoch ∧
      ∀ k l, (b.after s (calls ++ more ++ later)).controlLeases.get k = some l →
        ¬ (k = cluster ∧ l.activeInstanceId = holder ∧ l.epoch = epoch) →
        (b.releaseControlLease (b.after s (calls ++ more ++ later)) cluster holder
          epoch).2.controlLeases.get k = some l
  neverRevived : ∀ calls more later holder epoch,
    Held (b.after s calls) cluster holder epoch →
      ¬ Live (b.after s (calls ++ more)) cluster holder epoch →
      ¬ Live (b.after s (calls ++ more ++ later)) cluster holder epoch
  fencedOut : ∀ calls later instanceId ttl version l s' id expected new origin epoch,
    b.acquireControlLease (b.after s calls) cluster instanceId ttl version = (.ok l, s') →
      epoch < l.epoch →
      (b.compareAndSetTaskStatus (b.after s' later) id expected new (some ⟨cluster, epoch⟩)
        origin).1 = .ok .fenced

theorem after_append (b : Backend) (s : StoreState) (xs ys : List LeaseCall) :
    b.after s (xs ++ ys) = b.after (b.after s xs) ys := List.foldl_append

theorem leaseRuns_safe (b : Backend) (s : StoreState) (cluster : String) :
    LeaseGuarantees b s cluster := by
  have ended : ∀ calls more later holder epoch, Held (b.after s calls) cluster holder epoch →
      ¬ Live (b.after s (calls ++ more)) cluster holder epoch →
      Over (b.after s (calls ++ more ++ later)) cluster holder epoch := by
    intro calls more later holder epoch hh hn
    rw [after_append] at hn
    rw [after_append, after_append]
    exact (over_after hh hn).after later
  constructor
  · exact grants_increase s
  · intro calls instanceId ttl version l s' h
    have ha := acquired h
    exact ⟨ha.1.2, fun old ho => (ha.2.2 old ho).1⟩
  · intro calls more later holder epoch ttl hh hn
    exact renew_over (ended calls more later holder epoch hh hn) ttl
  · intro calls more later holder epoch hh hn
    have ho := ended calls more later holder epoch hh hn
    exact ⟨(release_over ho).not_live, fun k l hl hne => release_others hl hne⟩
  · intro calls more later holder epoch hh hn
    exact (ended calls more later holder epoch hh hn).not_live
  · intro calls later instanceId ttl version l s' id expected new origin epoch h he
    have hr : EpochReached s' cluster (epoch + 1) := by
      obtain ⟨l', hl', hle⟩ := acquired_reaches h
      exact ⟨l', hl', by omega⟩
    exact fenced_out (hr.after later) id expected new origin

/-- A takeover after expiry: the second grant is the next epoch, the first holder is fenced out. -/
example : Backend.grants .pg "fleet" .empty
    [.acquire "fleet" "a" 30 none, .acquire "fleet" "b" 30 none, .elapse 31,
      .acquire "fleet" "b" 30 none, .renew "fleet" "a" 1 30] = [1, 2] := by decide

end FleetOrchestrator.Store
