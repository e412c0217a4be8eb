import FleetOrchestrator.Store.State

namespace FleetOrchestrator.Store

open Core Tables

/-- The columns a transition writes. -/
def transition (new : TaskStatus) (fence : Option ControlFence) (now : ℤ) (t : Task) : Task :=
  if new.isDispatched then
    match fence with
    | some f => { t with
        status := new, dispatchedAt := some now, dispatchControlEpoch := some f.epoch }
    | none => { t with status := new, dispatchedAt := some now }
  else { t with status := new }

theorem transition_id (new : TaskStatus) (fence : Option ControlFence) (now : ℤ) (t : Task) :
    (transition new fence now t).id = t.id := by
  unfold transition
  split
  · split <;> rfl
  · rfl

def withTransition (s : StoreState) (id : TaskId) (new : TaskStatus)
    (fence : Option ControlFence) : StoreState :=
  { s with tasks := s.tasks.modify id (transition new fence s.now) (transition_id new fence s.now) }

namespace MemStore

def staleDispatchEpoch (fence : Option ControlFence) (origin : TransitionOrigin) (t : Task) :
    Option ℤ :=
  match fence, origin, t.dispatchControlEpoch with
  | some f, .workerOutcome, some under => if under ≠ f.epoch then some under else none
  | _, _, _ => none

def compareAndSetTaskStatus (s : StoreState) (id : TaskId) (expected : List TaskPhase)
    (new : TaskStatus) (fence : Option ControlFence) (origin : TransitionOrigin) :
    Except StoreError TransitionOutcome × StoreState :=
  if !s.controlFenceHolds fence then (.ok .fenced, s)
  else
    match s.tasks.get id with
    | none => (.error .notFound, s)
    | some task =>
      match staleDispatchEpoch fence origin task with
      | some under => (.ok (.staleDispatchEpoch under), s)
      | none =>
        if !expected.contains task.phase then (.ok (.rejected task.phase), s)
        else (.ok .applied, withTransition s id new fence)

end MemStore

namespace PgStore

/-- The `WHERE` clause; phases are compared as the text of the generated column. -/
def statusUpdateMatches (s : StoreState) (id : TaskId) (expected : List TaskPhase)
    (fence : Option ControlFence) (origin : TransitionOrigin) (t : Task) : Bool :=
  t.id = id && (expected.map TaskPhase.asStr).contains t.phase.asStr &&
    match fence with
    | none => true
    | some f => s.leaseExists f &&
      match origin with
      | .controlDecision => true
      | .workerOutcome => t.dispatchControlEpoch.isNone || t.dispatchControlEpoch = some f.epoch

def diagnosePhase (s : StoreState) (id : TaskId) : Except StoreError TransitionOutcome :=
  match s.tasks.get id with
  | none => .error .notFound
  | some t => .ok (.rejected t.phase)

/-- Why no row matched: the lease first, then the dispatch epoch, then the phase. -/
def diagnose (s : StoreState) (id : TaskId) (fence : Option ControlFence)
    (origin : TransitionOrigin) : Except StoreError TransitionOutcome :=
  match fence with
  | none => diagnosePhase s id
  | some f =>
    if s.heldEpoch f.clusterId ≠ some f.epoch then .ok .fenced
    else
      match origin, (s.tasks.get id).bind Task.dispatchControlEpoch with
      | .workerOutcome, some under =>
        if under ≠ f.epoch then .ok (.staleDispatchEpoch under) else diagnosePhase s id
      | _, _ => diagnosePhase s id

def compareAndSetTaskStatus (s : StoreState) (id : TaskId) (expected : List TaskPhase)
    (new : TaskStatus) (fence : Option ControlFence) (origin : TransitionOrigin) :
    Except StoreError TransitionOutcome × StoreState :=
  let p := statusUpdateMatches s id expected fence origin
  if 0 < s.tasks.rowsAffected p then
    (.ok .applied, { s with
      tasks := s.tasks.updateWhere p (transition new fence s.now) (transition_id new fence s.now) })
  else (diagnose s id fence origin, s)

end PgStore

/-- A worker's outcome for a task that another epoch dispatched. -/
def StaleOutcome (fence : Option ControlFence) (origin : TransitionOrigin) (t : Task)
    (under : ℤ) : Prop :=
  origin = .workerOutcome ∧ t.dispatchControlEpoch = some under ∧
    ∃ f, fence = some f ∧ under ≠ f.epoch

/-- Everything one call can decide, with what it found. -/
inductive CasVerdict (s : StoreState) (id : TaskId) (expected : List TaskPhase)
    (fence : Option ControlFence) (origin : TransitionOrigin) :
    Except StoreError TransitionOutcome → Prop
  | fenced (hf : s.controlFenceHolds fence = false) :
      CasVerdict s id expected fence origin (.ok .fenced)
  | notFound (hf : s.controlFenceHolds fence = true) (ht : s.tasks.get id = none) :
      CasVerdict s id expected fence origin (.error .notFound)
  | stale (hf : s.controlFenceHolds fence = true) (t : Task) (ht : s.tasks.get id = some t)
      (under : ℤ) (hs : StaleOutcome fence origin t under) :
      CasVerdict s id expected fence origin (.ok (.staleDispatchEpoch under))
  | rejected (hf : s.controlFenceHolds fence = true) (t : Task) (ht : s.tasks.get id = some t)
      (hs : ∀ under, ¬ StaleOutcome fence origin t under) (hp : t.phase ∉ expected) :
      CasVerdict s id expected fence origin (.ok (.rejected t.phase))
  | applied (hf : s.controlFenceHolds fence = true) (t : Task) (ht : s.tasks.get id = some t)
      (hs : ∀ under, ¬ StaleOutcome fence origin t under) (hp : t.phase ∈ expected) :
      CasVerdict s id expected fence origin (.ok .applied)

section Verdicts

variable {s : StoreState} {id : TaskId} {expected : List TaskPhase} {new : TaskStatus}
  {fence : Option ControlFence} {origin : TransitionOrigin}

theorem staleDispatchEpoch_some {t : Task} {under : ℤ} :
    MemStore.staleDispatchEpoch fence origin t = some under ↔ StaleOutcome fence origin t under := by
  unfold MemStore.staleDispatchEpoch StaleOutcome
  split
  · next f under' hu =>
    by_cases h : under' = f.epoch
    · simp [h, hu]
      intro hc
      exact hc ▸ rfl
    · simp [h, hu]
      intro hc
      exact hc ▸ h
  · next h =>
    constructor
    · intro hc; cases hc
    · rintro ⟨rfl, hd, f, rfl, -⟩
      exact absurd hd (h f under rfl rfl)

theorem staleDispatchEpoch_none {t : Task} :
    MemStore.staleDispatchEpoch fence origin t = none ↔
      ∀ under, ¬ StaleOutcome fence origin t under := by
  simp only [← staleDispatchEpoch_some, Option.eq_none_iff_forall_ne_some, ne_eq]

theorem memStore_verdict (s : StoreState) (id : TaskId) (expected : List TaskPhase)
    (new : TaskStatus) (fence : Option ControlFence) (origin : TransitionOrigin) :
    CasVerdict s id expected fence origin
        (MemStore.compareAndSetTaskStatus s id expected new fence origin).1 ∧
      (MemStore.compareAndSetTaskStatus s id expected new fence origin).2 =
        if (MemStore.compareAndSetTaskStatus s id expected new fence origin).1 = .ok .applied
        then withTransition s id new fence else s := by
  unfold MemStore.compareAndSetTaskStatus
  by_cases hf : s.controlFenceHolds fence = true
  · cases ht : s.tasks.get id with
    | none => simp [hf]; exact .notFound hf ht
    | some t =>
      cases hs : MemStore.staleDispatchEpoch fence origin t with
      | some under => simp [hf, hs]; exact .stale hf t ht under (staleDispatchEpoch_some.mp hs)
      | none =>
        have hn := staleDispatchEpoch_none.mp hs
        by_cases hp : t.phase ∈ expected
        · simp [hf, hs, hp]; exact .applied hf t ht hn hp
        · simp [hf, hs, hp]; exact .rejected hf t ht hn hp
  · have hf : s.controlFenceHolds fence = false := by simpa using hf
    simp [hf]
    exact .fenced hf

theorem verdict_unique {r r' : Except StoreError TransitionOutcome}
    (h : CasVerdict s id expected fence origin r) (h' : CasVerdict s id expected fence origin r') :
    r = r' := by
  cases h with
  | fenced hf =>
    cases h' with
    | fenced hf' => rfl
    | notFound hf' | stale hf' | rejected hf' | applied hf' => rw [hf] at hf'; cases hf'
  | notFound hf ht =>
    cases h' with
    | fenced hf' => rw [hf] at hf'; cases hf'
    | notFound hf' ht' => rfl
    | stale _ _ ht' | rejected _ _ ht' | applied _ _ ht' => rw [ht] at ht'; cases ht'
  | stale hf t ht under hs =>
    cases h' with
    | fenced hf' => rw [hf] at hf'; cases hf'
    | notFound hf' ht' => rw [ht] at ht'; cases ht'
    | stale hf' t' ht' under' hs' =>
      rw [ht] at ht'
      cases ht'
      have hu := hs.2.1
      rw [hs'.2.1] at hu
      cases hu
      rfl
    | rejected hf' t' ht' hn | applied hf' t' ht' hn =>
      rw [ht] at ht'
      cases ht'
      exact absurd hs (hn under)
  | rejected hf t ht hn hp =>
    cases h' with
    | fenced hf' => rw [hf] at hf'; cases hf'
    | notFound hf' ht' => rw [ht] at ht'; cases ht'
    | stale hf' t' ht' under hs => rw [ht] at ht'; cases ht'; exact absurd hs (hn under)
    | rejected hf' t' ht' => rw [ht] at ht'; cases ht'; rfl
    | applied hf' t' ht' hn' hp' => rw [ht] at ht'; cases ht'; exact absurd hp' hp
  | applied hf t ht hn hp =>
    cases h' with
    | fenced hf' => rw [hf] at hf'; cases hf'
    | notFound hf' ht' => rw [ht] at ht'; cases ht'
    | stale hf' t' ht' under hs => rw [ht] at ht'; cases ht'; exact absurd hs (hn under)
    | rejected hf' t' ht' hn' hp' => rw [ht] at ht'; cases ht'; exact absurd hp hp'
    | applied => rfl

theorem asStr_injective : Function.Injective TaskPhase.asStr := by
  intro p q h
  cases p <;> cases q <;> first | rfl | exact absurd h (by decide)

theorem mem_phase_texts {p : TaskPhase} :
    (expected.map TaskPhase.asStr).contains p.asStr = true ↔ p ∈ expected := by
  rw [List.contains_iff_mem, List.mem_map]
  constructor
  · rintro ⟨q, hq, he⟩
    exact asStr_injective he ▸ hq
  · intro h
    exact ⟨p, h, rfl⟩

theorem statusUpdateMatches_iff {t : Task} :
    PgStore.statusUpdateMatches s id expected fence origin t = true ↔
      t.id = id ∧ t.phase ∈ expected ∧ s.controlFenceHolds fence = true ∧
        ∀ under, ¬ StaleOutcome fence origin t under := by
  simp only [PgStore.statusUpdateMatches, Bool.and_eq_true, decide_eq_true_eq, mem_phase_texts,
    and_assoc]
  refine and_congr_right fun _ => and_congr_right fun _ => ?_
  cases fence with
  | none => simp [StoreState.controlFenceHolds, StaleOutcome]
  | some f =>
    simp only [leaseExists_eq, Bool.and_eq_true]
    refine and_congr_right fun _ => ?_
    cases origin with
    | controlDecision => simp [StaleOutcome]
    | workerOutcome =>
      cases hd : t.dispatchControlEpoch with
      | none => simp [StaleOutcome, hd]
      | some under => simp [StaleOutcome, hd]

theorem diagnosePhase_verdict (hf : s.controlFenceHolds fence = true)
    (hn : ∀ t, s.tasks.get id = some t → ∀ under, ¬ StaleOutcome fence origin t under)
    (hp : ∀ t, s.tasks.get id = some t → t.phase ∉ expected) :
    CasVerdict s id expected fence origin (PgStore.diagnosePhase s id) := by
  unfold PgStore.diagnosePhase
  cases ht : s.tasks.get id with
  | none => exact .notFound hf ht
  | some t => exact .rejected hf t ht (hn t ht) (hp t ht)

theorem diagnose_verdict
    (h : ¬ ∃ t, s.tasks.get id = some t ∧ t.phase ∈ expected ∧ s.controlFenceHolds fence = true ∧
      ∀ under, ¬ StaleOutcome fence origin t under) :
    CasVerdict s id expected fence origin (PgStore.diagnose s id fence origin) := by
  unfold PgStore.diagnose
  cases fence with
  | none =>
    have hn : ∀ t under, ¬ StaleOutcome none origin t under := by
      rintro t under ⟨-, -, f, hf, -⟩
      cases hf
    exact diagnosePhase_verdict rfl (fun t _ => hn t)
      fun t ht hp => h ⟨t, ht, hp, rfl, hn t⟩
  | some f =>
    by_cases hh : s.heldEpoch f.clusterId = some f.epoch
    · have hf := fenceHolds_some.mpr hh
      dsimp only
      rw [if_neg (by simpa using hh)]
      cases origin with
      | controlDecision =>
        have hn : ∀ t under, ¬ StaleOutcome (some f) .controlDecision t under := by
          rintro t under ⟨ho, -⟩
          cases ho
        exact diagnosePhase_verdict hf (fun t _ => hn t) fun t ht hp => h ⟨t, ht, hp, hf, hn t⟩
      | workerOutcome =>
        cases ho : (s.tasks.get id).bind Task.dispatchControlEpoch with
        | none =>
          have hn : ∀ t, s.tasks.get id = some t →
              ∀ under, ¬ StaleOutcome (some f) .workerOutcome t under := by
            rintro t ht under ⟨-, hu, -⟩
            rw [ht, Option.bind_some, hu] at ho
            cases ho
          exact diagnosePhase_verdict hf hn fun t ht hp => h ⟨t, ht, hp, hf, hn t ht⟩
        | some under =>
          obtain ⟨t, ht, hu⟩ := Option.bind_eq_some_iff.mp ho
          dsimp only
          by_cases he : under = f.epoch
          · have hn : ∀ t', s.tasks.get id = some t' →
                ∀ under', ¬ StaleOutcome (some f) .workerOutcome t' under' := by
              rintro t' ht' under' ⟨-, hu', f', hf', hne⟩
              rw [ht] at ht'
              cases ht'
              rw [hu] at hu'
              cases hu'
              cases hf'
              exact hne he
            rw [if_neg (by simpa using he)]
            exact diagnosePhase_verdict hf hn fun t' ht' hp => h ⟨t', ht', hp, hf, hn t' ht'⟩
          · rw [if_pos he]
            exact .stale hf t ht under ⟨rfl, hu, f, rfl, he⟩
    · have hf : s.controlFenceHolds (some f) = false := by
        simpa [StoreState.controlFenceHolds] using hh
      dsimp only
      rw [if_pos hh]
      exact .fenced hf

/-- The statement and its diagnosis decide what the check sequence decides. -/
theorem pgStore_eq_memStore :
    PgStore.compareAndSetTaskStatus s id expected new fence origin =
      MemStore.compareAndSetTaskStatus s id expected new fence origin := by
  obtain ⟨hv, hs⟩ := memStore_verdict s id expected new fence origin
  set r := MemStore.compareAndSetTaskStatus s id expected new fence origin
  have matched : 0 < s.tasks.rowsAffected
      (PgStore.statusUpdateMatches s id expected fence origin) ↔
      ∃ t, s.tasks.get id = some t ∧ t.phase ∈ expected ∧ s.controlFenceHolds fence = true ∧
        ∀ under, ¬ StaleOutcome fence origin t under := by
    simp only [Keyed.rowsAffected_pos, statusUpdateMatches_iff, Keyed.get_eq_some, and_assoc]
  unfold PgStore.compareAndSetTaskStatus
  by_cases hm : 0 < s.tasks.rowsAffected
      (PgStore.statusUpdateMatches s id expected fence origin)
  · obtain ⟨t, ht, hp, hf, hn⟩ := matched.mp hm
    have hr : r.1 = .ok .applied := verdict_unique hv (.applied hf t ht hn hp)
    have hu : s.tasks.updateWhere (PgStore.statusUpdateMatches s id expected fence origin)
        (transition new fence s.now) (transition_id new fence s.now) =
        s.tasks.modify id (transition new fence s.now) (transition_id new fence s.now) := by
      apply Keyed.updateWhere_eq_modify
      intro x hx
      rw [statusUpdateMatches_iff]
      constructor
      · intro h
        exact h.1
      · intro hk
        have hxt := Keyed.get_of_mem hx
        rw [hk, ht] at hxt
        cases hxt
        exact ⟨hk, hp, hf, hn⟩
    rw [if_pos hm, hu]
    exact Prod.ext hr.symm (by rw [hs, if_pos hr]; rfl)
  · have hr : r.1 ≠ .ok .applied := by
      intro hr
      rw [hr] at hv
      cases hv with
      | applied hf t ht hn hp => exact hm (matched.mpr ⟨t, ht, hp, hf, hn⟩)
    rw [if_neg hm]
    exact Prod.ext (verdict_unique (diagnose_verdict (mt matched.mpr hm)) hv)
      (by rw [hs, if_neg hr])

end Verdicts

/-- What a caller may rely on, whichever backend answers. -/
structure MeetsCasContract (s : StoreState) (id : TaskId) (expected : List TaskPhase)
    (new : TaskStatus) (fence : Option ControlFence) (origin : TransitionOrigin)
    (r : Except StoreError TransitionOutcome × StoreState) : Prop where
  fenced : r.1 = .ok .fenced ↔ ∃ f, fence = some f ∧ s.heldEpoch f.clusterId ≠ some f.epoch
  notFound : r.1 = .error .notFound ↔
    s.controlFenceHolds fence = true ∧ s.tasks.get id = none
  stale : ∀ under, r.1 = .ok (.staleDispatchEpoch under) ↔
    s.controlFenceHolds fence = true ∧
      ∃ t, s.tasks.get id = some t ∧ StaleOutcome fence origin t under
  rejected : ∀ p, r.1 = .ok (.rejected p) ↔
    s.controlFenceHolds fence = true ∧ ∃ t, s.tasks.get id = some t ∧
      (∀ under, ¬ StaleOutcome fence origin t under) ∧ t.phase = p ∧ p ∉ expected
  applied : r.1 = .ok .applied ↔
    s.controlFenceHolds fence = true ∧ ∃ t, s.tasks.get id = some t ∧
      (∀ under, ¬ StaleOutcome fence origin t under) ∧ t.phase ∈ expected
  total : r.1 = .error .notFound ∨ ∃ o, r.1 = .ok o
  controlNeverStale : origin = .controlDecision → ∀ under, r.1 ≠ .ok (.staleDispatchEpoch under)
  unchanged : r.1 ≠ .ok .applied → r.2 = s
  written : r.1 = .ok .applied → ∀ t, s.tasks.get id = some t →
    r.2.tasks.get id = some { t with
      status := new
      dispatchedAt := if new.isDispatched then some s.now else t.dispatchedAt
      dispatchControlEpoch := if new.isDispatched then
        (fence.map ControlFence.epoch).or t.dispatchControlEpoch else t.dispatchControlEpoch }
  others : ∀ i, i ≠ id → r.2.tasks.get i = s.tasks.get i
  rest : r.2 = { s with tasks := r.2.tasks }

theorem transition_eq (new : TaskStatus) (fence : Option ControlFence) (now : ℤ) (t : Task) :
    transition new fence now t = { t with
      status := new
      dispatchedAt := if new.isDispatched then some now else t.dispatchedAt
      dispatchControlEpoch := if new.isDispatched then
        (fence.map ControlFence.epoch).or t.dispatchControlEpoch else t.dispatchControlEpoch } := by
  unfold transition
  by_cases h : new.isDispatched = true
  · cases fence <;> simp [h]
  · simp [h]

theorem memStore_meets_contract (s : StoreState) (id : TaskId) (expected : List TaskPhase)
    (new : TaskStatus) (fence : Option ControlFence) (origin : TransitionOrigin) :
    MeetsCasContract s id expected new fence origin
      (MemStore.compareAndSetTaskStatus s id expected new fence origin) := by
  obtain ⟨hv, hs⟩ := memStore_verdict s id expected new fence origin
  generalize MemStore.compareAndSetTaskStatus s id expected new fence origin = r at hv hs
  have decided {o : Except StoreError TransitionOutcome} :
      r.1 = o ↔ CasVerdict s id expected fence origin o :=
    ⟨fun h => h ▸ hv, verdict_unique hv⟩
  have outside {f : Option ControlFence} : s.controlFenceHolds f = false ↔
      ∃ g, f = some g ∧ s.heldEpoch g.clusterId ≠ some g.epoch := by
    cases f <;> simp [StoreState.controlFenceHolds]
  refine ⟨?_, ?_, ?_, ?_, ?_, ?_, ?_, ?_, ?_, ?_, ?_⟩
  · rw [decided, ← outside]
    exact ⟨fun h => by cases h; assumption, .fenced⟩
  · rw [decided]
    exact ⟨fun h => by cases h; exact ⟨‹_›, ‹_›⟩, fun h => .notFound h.1 h.2⟩
  · intro under
    rw [decided]
    constructor
    · intro h
      cases h with
      | stale hf t ht _ hs => exact ⟨hf, t, ht, hs⟩
    · rintro ⟨hf, t, ht, hs⟩
      exact .stale hf t ht under hs
  · intro p
    rw [decided]
    constructor
    · intro h
      cases h with
      | rejected hf t ht hn hp => exact ⟨hf, t, ht, hn, rfl, hp⟩
    · rintro ⟨hf, t, ht, hn, rfl, hp⟩
      exact .rejected hf t ht hn hp
  · rw [decided]
    constructor
    · intro h
      cases h with
      | applied hf t ht hn hp => exact ⟨hf, t, ht, hn, hp⟩
    · rintro ⟨hf, t, ht, hn, hp⟩
      exact .applied hf t ht hn hp
  · generalize r.1 = o at hv
    cases hv with
    | notFound => exact .inl rfl
    | fenced | stale | rejected | applied => exact .inr ⟨_, rfl⟩
  · intro ho under hr
    rw [decided] at hr
    cases hr with
    | stale _ _ _ _ hs => rw [hs.1] at ho; cases ho
  · intro hr
    rw [hs, if_neg hr]
  · intro hr t ht
    rw [hs, if_pos hr]
    rw [withTransition, Keyed.get_modify_self, ht, Option.map_some, transition_eq]
  · intro i hi
    rw [hs]
    split
    · rw [withTransition, Keyed.get_modify_ne hi]
    · rfl
  · rw [hs]
    split <;> rfl

end FleetOrchestrator.Store
