import FleetOrchestrator.Store.TaskStatus

namespace FleetOrchestrator.Store

open Core Tables

def heldByAnother (clusterId : String) : StoreError :=
  .conflict ("control plane lease for cluster '" ++ clusterId ++ "' is held by another instance")

def newLease (s : StoreState) (clusterId instanceId : String) (epoch : ℤ) (ttl : ℕ)
    (binaryVersion : Option String) : ControlLease :=
  ⟨clusterId, instanceId, epoch, s.now, s.now + ttl, s.now, binaryVersion⟩

def renewedLease (now : ℤ) (ttl : ℕ) (l : ControlLease) : ControlLease :=
  { l with expiresAt := now + ttl, lastRenewedAt := now }

def releasedLease (now : ℤ) (l : ControlLease) : ControlLease := { l with expiresAt := now }

theorem renewed_cluster (now : ℤ) (ttl : ℕ) (l : ControlLease) :
    (renewedLease now ttl l).clusterId = l.clusterId := rfl

theorem released_cluster (now : ℤ) (l : ControlLease) :
    (releasedLease now l).clusterId = l.clusterId := rfl

namespace MemStore

def acquireControlLease (s : StoreState) (clusterId instanceId : String) (ttl : ℕ)
    (binaryVersion : Option String) : Except StoreError ControlLease × StoreState :=
  match s.controlLeases.get clusterId with
  | some existing =>
    if existing.expiresAt > s.now then (.error (heldByAnother clusterId), s)
    else
      let lease := newLease s clusterId instanceId (existing.epoch + 1) ttl binaryVersion
      (.ok lease, { s with controlLeases := s.controlLeases.put lease })
  | none =>
    let lease := newLease s clusterId instanceId 1 ttl binaryVersion
    (.ok lease, { s with controlLeases := s.controlLeases.put lease })

def renewControlLease (s : StoreState) (clusterId instanceId : String) (epoch : ℤ) (ttl : ℕ) :
    Except StoreError ControlLease × StoreState :=
  match s.controlLeases.get clusterId with
  | some l =>
    if l.activeInstanceId = instanceId ∧ l.epoch = epoch ∧ l.expiresAt > s.now then
      (.ok (renewedLease s.now ttl l), { s with
        controlLeases := s.controlLeases.modify clusterId (renewedLease s.now ttl)
          (renewed_cluster s.now ttl) })
    else (.error .notFound, s)
  | none => (.error .notFound, s)

def releaseControlLease (s : StoreState) (clusterId instanceId : String) (epoch : ℤ) :
    Except StoreError Bool × StoreState :=
  match s.controlLeases.get clusterId with
  | some l =>
    if l.activeInstanceId = instanceId ∧ l.epoch = epoch then
      (.ok true, { s with
        controlLeases := s.controlLeases.modify clusterId (releasedLease s.now)
          (released_cluster s.now) })
    else (.ok false, s)
  | none => (.ok false, s)

end MemStore

namespace PgStore

/-- `INSERT … ON CONFLICT … DO UPDATE … WHERE expires_at < NOW() RETURNING`. -/
def acquireControlLease (s : StoreState) (clusterId instanceId : String) (ttl : ℕ)
    (binaryVersion : Option String) : Except StoreError ControlLease × StoreState :=
  match s.controlLeases.get clusterId with
  | none =>
    let lease := newLease s clusterId instanceId 1 ttl binaryVersion
    (.ok lease, { s with controlLeases := s.controlLeases.put lease })
  | some existing =>
    if existing.expiresAt < s.now then
      let lease := newLease s clusterId instanceId (existing.epoch + 1) ttl binaryVersion
      (.ok lease, { s with controlLeases := s.controlLeases.put lease })
    else (.error (heldByAnother clusterId), s)

def renewMatches (now : ℤ) (clusterId instanceId : String) (epoch : ℤ) (l : ControlLease) :
    Bool :=
  l.clusterId = clusterId && l.activeInstanceId = instanceId && l.epoch = epoch &&
    l.expiresAt > now

def renewControlLease (s : StoreState) (clusterId instanceId : String) (epoch : ℤ) (ttl : ℕ) :
    Except StoreError ControlLease × StoreState :=
  let p := renewMatches s.now clusterId instanceId epoch
  match s.controlLeases.select p with
  | l :: _ => (.ok (renewedLease s.now ttl l), { s with
      controlLeases := s.controlLeases.updateWhere p (renewedLease s.now ttl)
        (renewed_cluster s.now ttl) })
  | [] => (.error .notFound, s)

def releaseMatches (clusterId instanceId : String) (epoch : ℤ) (l : ControlLease) : Bool :=
  l.clusterId = clusterId && l.activeInstanceId = instanceId && l.epoch = epoch

def releaseControlLease (s : StoreState) (clusterId instanceId : String) (epoch : ℤ) :
    Except StoreError Bool × StoreState :=
  let p := releaseMatches clusterId instanceId epoch
  if 0 < s.controlLeases.rowsAffected p then
    (.ok true, { s with
      controlLeases := s.controlLeases.updateWhere p (releasedLease s.now)
        (released_cluster s.now) })
  else (.ok false, s)

end PgStore

namespace Backend

def compareAndSetTaskStatus : Backend → StoreState → TaskId → List TaskPhase → TaskStatus →
    Option ControlFence → TransitionOrigin → Except StoreError TransitionOutcome × StoreState
  | .mem => MemStore.compareAndSetTaskStatus
  | .pg => PgStore.compareAndSetTaskStatus

def acquireControlLease : Backend → StoreState → String → String → ℕ → Option String →
    Except StoreError ControlLease × StoreState
  | .mem => MemStore.acquireControlLease
  | .pg => PgStore.acquireControlLease

def renewControlLease : Backend → StoreState → String → String → ℤ → ℕ →
    Except StoreError ControlLease × StoreState
  | .mem => MemStore.renewControlLease
  | .pg => PgStore.renewControlLease

def releaseControlLease : Backend → StoreState → String → String → ℤ →
    Except StoreError Bool × StoreState
  | .mem => MemStore.releaseControlLease
  | .pg => PgStore.releaseControlLease

end Backend

/-- The row of `cluster` belongs to `holder` under `epoch`. -/
def Held (s : StoreState) (cluster holder : String) (epoch : ℤ) : Prop :=
  ∃ l, s.controlLeases.get cluster = some l ∧ l.activeInstanceId = holder ∧ l.epoch = epoch

def Live (s : StoreState) (cluster holder : String) (epoch : ℤ) : Prop :=
  ∃ l, s.controlLeases.get cluster = some l ∧ l.activeInstanceId = holder ∧ l.epoch = epoch ∧
    s.now < l.expiresAt

/-- The tenure of `holder` under `epoch` has ended: expired, released or taken over. -/
def Over (s : StoreState) (cluster holder : String) (epoch : ℤ) : Prop :=
  ∃ l, s.controlLeases.get cluster = some l ∧
    (epoch < l.epoch ∨ l.activeInstanceId = holder ∧ l.epoch = epoch ∧ l.expiresAt ≤ s.now)

theorem Over.not_live {s : StoreState} {cluster holder : String} {epoch : ℤ}
    (h : Over s cluster holder epoch) : ¬ Live s cluster holder epoch := by
  rintro ⟨l, hl, -, he, hx⟩
  obtain ⟨l', hl', ho⟩ := h
  rw [hl] at hl'
  cases hl'
  omega

theorem over_of_held {s : StoreState} {cluster holder : String} {epoch : ℤ}
    (h : Held s cluster holder epoch) (hn : ¬ Live s cluster holder epoch) :
    Over s cluster holder epoch := by
  obtain ⟨l, hl, ha, he⟩ := h
  refine ⟨l, hl, .inr ⟨ha, he, ?_⟩⟩
  by_contra hx
  exact hn ⟨l, hl, ha, he, by omega⟩

section Calls

variable {b : Backend} {s : StoreState} {cluster instanceId : String} {epoch : ℤ} {ttl : ℕ}
  {version : Option String}

theorem acquire_cases (b : Backend) (s : StoreState) (cluster instanceId : String) (ttl : ℕ)
    (version : Option String) :
    (∃ l, b.acquireControlLease s cluster instanceId ttl version =
        (.ok l, { s with controlLeases := s.controlLeases.put l }) ∧
      l.clusterId = cluster ∧ l.activeInstanceId = instanceId ∧ l.expiresAt = s.now + ttl ∧
      (s.controlLeases.get cluster = none ∧ l.epoch = 1 ∨
        ∃ old, s.controlLeases.get cluster = some old ∧ old.expiresAt ≤ s.now ∧
          l.epoch = old.epoch + 1)) ∨
    ∃ e, b.acquireControlLease s cluster instanceId ttl version = (.error e, s) := by
  cases hg : s.controlLeases.get cluster with
  | none =>
    refine .inl ⟨newLease s cluster instanceId 1 ttl version, ?_, rfl, rfl, rfl, .inl ⟨rfl, rfl⟩⟩
    cases b <;> simp only [Backend.acquireControlLease, MemStore.acquireControlLease,
      PgStore.acquireControlLease, hg]
  | some old =>
    cases b with
    | mem =>
      by_cases hx : old.expiresAt > s.now
      · exact .inr ⟨heldByAnother cluster, by
          simp only [Backend.acquireControlLease, MemStore.acquireControlLease, hg, if_pos hx]⟩
      · refine .inl ⟨newLease s cluster instanceId (old.epoch + 1) ttl version, ?_, rfl, rfl, rfl,
          .inr ⟨old, rfl, by omega, rfl⟩⟩
        simp only [Backend.acquireControlLease, MemStore.acquireControlLease, hg, if_neg hx]
    | pg =>
      by_cases hx : old.expiresAt < s.now
      · refine .inl ⟨newLease s cluster instanceId (old.epoch + 1) ttl version, ?_, rfl, rfl, rfl,
          .inr ⟨old, rfl, by omega, rfl⟩⟩
        simp only [Backend.acquireControlLease, PgStore.acquireControlLease, hg, if_pos hx]
      · exact .inr ⟨heldByAnother cluster, by
          simp only [Backend.acquireControlLease, PgStore.acquireControlLease, hg, if_neg hx]⟩

theorem renew_cases (b : Backend) (s : StoreState) (cluster instanceId : String) (epoch : ℤ)
    (ttl : ℕ) :
    (∃ l, s.controlLeases.get cluster = some l ∧ l.activeInstanceId = instanceId ∧
      l.epoch = epoch ∧ s.now < l.expiresAt ∧
      b.renewControlLease s cluster instanceId epoch ttl =
        (.ok (renewedLease s.now ttl l), { s with
          controlLeases := s.controlLeases.modify cluster (renewedLease s.now ttl)
            (renewed_cluster s.now ttl) })) ∨
    ¬ Live s cluster instanceId epoch ∧
      b.renewControlLease s cluster instanceId epoch ttl = (.error .notFound, s) := by
  have matched {l : ControlLease} :
      PgStore.renewMatches s.now cluster instanceId epoch l = true ↔
        l.clusterId = cluster ∧ l.activeInstanceId = instanceId ∧ l.epoch = epoch ∧
          s.now < l.expiresAt := by
    simp [PgStore.renewMatches, and_assoc]
  by_cases h : Live s cluster instanceId epoch
  · obtain ⟨l, hl, ha, he, hx⟩ := h
    refine .inl ⟨l, hl, ha, he, hx, ?_⟩
    cases b with
    | mem =>
      simp only [Backend.renewControlLease, MemStore.renewControlLease, hl]
      rw [if_pos ⟨ha, he, hx⟩]
    | pg =>
      have only (x : ControlLease) (hr : x ∈ s.controlLeases.rows) :
          PgStore.renewMatches s.now cluster instanceId epoch x = true ↔ x.clusterId = cluster := by
        rw [matched]
        refine ⟨fun hm => hm.1, fun hk => ?_⟩
        have hg := Keyed.get_of_mem hr
        rw [hk, hl] at hg
        cases hg
        exact ⟨hk, ha, he, hx⟩
      have hm : l ∈ s.controlLeases.select (PgStore.renewMatches s.now cluster instanceId epoch) :=
        List.mem_filter.mpr ⟨(Keyed.get_eq_some.mp hl).1, matched.mpr ⟨Keyed.get_key hl, ha, he, hx⟩⟩
      simp only [Backend.renewControlLease, PgStore.renewControlLease]
      cases hs : s.controlLeases.select
          (PgStore.renewMatches s.now cluster instanceId epoch) with
      | nil => rw [hs] at hm; cases hm
      | cons x xs =>
        have hx' : x ∈ s.controlLeases.select
            (PgStore.renewMatches s.now cluster instanceId epoch) := by
          rw [hs]; exact List.mem_cons_self
        obtain ⟨hr, hp⟩ := List.mem_filter.mp hx'
        have hg := Keyed.get_of_mem hr
        rw [(matched.mp hp).1, hl] at hg
        cases hg
        have hu := Keyed.updateWhere_eq_modify (renewed_cluster s.now ttl) only
        rw [hu]
  · refine .inr ⟨h, ?_⟩
    cases b with
    | mem =>
      simp only [Backend.renewControlLease, MemStore.renewControlLease]
      cases hl : s.controlLeases.get cluster with
      | none => rfl
      | some l => exact if_neg fun hm => h ⟨l, hl, hm⟩
    | pg =>
      simp only [Backend.renewControlLease, PgStore.renewControlLease]
      cases hs : s.controlLeases.select
          (PgStore.renewMatches s.now cluster instanceId epoch) with
      | nil => rfl
      | cons x xs =>
        have hx' : x ∈ s.controlLeases.select
            (PgStore.renewMatches s.now cluster instanceId epoch) := by
          rw [hs]; exact List.mem_cons_self
        obtain ⟨hr, hp⟩ := List.mem_filter.mp hx'
        obtain ⟨hk, ha, he, hx⟩ := matched.mp hp
        exact absurd ⟨x, hk ▸ Keyed.get_of_mem hr, ha, he, hx⟩ h

theorem release_cases (b : Backend) (s : StoreState) (cluster instanceId : String) (epoch : ℤ) :
    (∃ l, s.controlLeases.get cluster = some l ∧ l.activeInstanceId = instanceId ∧
      l.epoch = epoch ∧
      b.releaseControlLease s cluster instanceId epoch = (.ok true, { s with
        controlLeases := s.controlLeases.modify cluster (releasedLease s.now)
          (released_cluster s.now) })) ∨
    ¬ Held s cluster instanceId epoch ∧
      b.releaseControlLease s cluster instanceId epoch = (.ok false, s) := by
  have matched {l : ControlLease} :
      PgStore.releaseMatches cluster instanceId epoch l = true ↔
        l.clusterId = cluster ∧ l.activeInstanceId = instanceId ∧ l.epoch = epoch := by
    simp [PgStore.releaseMatches, and_assoc]
  by_cases h : Held s cluster instanceId epoch
  · obtain ⟨l, hl, ha, he⟩ := h
    refine .inl ⟨l, hl, ha, he, ?_⟩
    cases b with
    | mem =>
      simp only [Backend.releaseControlLease, MemStore.releaseControlLease, hl]
      rw [if_pos ⟨ha, he⟩]
    | pg =>
      have only (x : ControlLease) (hr : x ∈ s.controlLeases.rows) :
          PgStore.releaseMatches cluster instanceId epoch x = true ↔ x.clusterId = cluster := by
        rw [matched]
        refine ⟨fun hm => hm.1, fun hk => ?_⟩
        have hg := Keyed.get_of_mem hr
        rw [hk, hl] at hg
        cases hg
        exact ⟨hk, ha, he⟩
      have hp : 0 < s.controlLeases.rowsAffected
          (PgStore.releaseMatches cluster instanceId epoch) :=
        Keyed.rowsAffected_pos.mpr ⟨l, (Keyed.get_eq_some.mp hl).1,
          matched.mpr ⟨Keyed.get_key hl, ha, he⟩⟩
      have hu := Keyed.updateWhere_eq_modify (released_cluster s.now) only
      simp only [Backend.releaseControlLease, PgStore.releaseControlLease, if_pos hp]
      rw [hu]
  · refine .inr ⟨h, ?_⟩
    cases b with
    | mem =>
      simp only [Backend.releaseControlLease, MemStore.releaseControlLease]
      cases hl : s.controlLeases.get cluster with
      | none => rfl
      | some l => exact if_neg fun hm => h ⟨l, hl, hm⟩
    | pg =>
      have hp : ¬ 0 < s.controlLeases.rowsAffected
          (PgStore.releaseMatches cluster instanceId epoch) := by
        rw [Keyed.rowsAffected_pos]
        rintro ⟨x, hr, hm⟩
        obtain ⟨hk, ha, he⟩ := matched.mp hm
        exact h ⟨x, hk ▸ Keyed.get_of_mem hr, ha, he⟩
      simp only [Backend.releaseControlLease, PgStore.releaseControlLease, if_neg hp]

theorem backend_cas (s : StoreState) (id : TaskId) (expected : List TaskPhase) (new : TaskStatus)
    (fence : Option ControlFence) (origin : TransitionOrigin) :
    b.compareAndSetTaskStatus s id expected new fence origin =
      MemStore.compareAndSetTaskStatus s id expected new fence origin := by
  cases b with
  | mem => rfl
  | pg => exact pgStore_eq_memStore

end Calls

end FleetOrchestrator.Store
