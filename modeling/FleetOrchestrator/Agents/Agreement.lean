import FleetOrchestrator.Agents.ControlEpoch

/-! Assignments and commands in the two backends, each served with nobody in between. -/

namespace FleetOrchestrator.Agents

open Core Tables Store Interleaving

section Alone

variable {s : StoreState} {rank : AgentId → ℕ} {id : AgentId} {w : WorkerId}
  {fence : Option ControlFence} {a : Agent}

def assignAlone (b : Backend) (rank : AgentId → ℕ) (s : StoreState) (id : AgentId) (w : WorkerId)
    (fence : Option ControlFence) : Reply × StoreState :=
  (serve b (.assignAgentWorker id w fence)).alone (Statement.effect rank) s

def desireAlone (b : Backend) (rank : AgentId → ℕ) (s : StoreState) (id : AgentId)
    (desired : AgentDesiredStatus) (fence : Option ControlFence) : Reply × StoreState :=
  (serve b (.setAgentDesiredStatus id desired fence)).alone (Statement.effect rank) s

theorem fenceExists_eq : PgStore.fenceExists s fence = s.controlFenceHolds fence := by
  cases fence with
  | none => rfl
  | some f => exact leaseExists_eq

theorem mem_assign_alone : assignAlone .mem rank s id w fence =
    if s.controlFenceHolds fence = true then
      (.assigned (MemStore.assignLocked s id w (workerCap s w) fence).1,
        (MemStore.assignLocked s id w (workerCap s w) fence).2)
    else (.assigned .fenced, s) := by
  simp only [assignAlone, serve, Prog.alone_map, MemStore.assignAgentWorker, execute,
    Prog.perform_bind, Prog.alone, Statement.effect]
  by_cases hf : s.controlFenceHolds fence = true
  · simp [hf, Prog.alone, Prog.perform, Statement.effect]
  · simp [hf, Prog.alone]

/-- What the assignment in SQL comes to, once the fence holds. -/
def pgVerdict (s : StoreState) (id : AgentId) (w : WorkerId) (fence : Option ControlFence) :
    SlotClaim × StoreState :=
  match s.agents.get id with
  | none => (.noSuchAgent, s)
  | some a =>
    match workerCap s w with
    | none => (.noSuchWorker, s)
    | some cap =>
      if full cap (countOthers s w id) then (.capReached, s)
      else if PgStore.movable w a then
        (.claimed, { s with
          agents := s.agents.modify id (PgStore.placed s.now w fence)
            (PgStore.placed_id_now s w fence) })
      else (.observedRunning, s)

theorem updatePlacement_movable (fence : Option ControlFence) (hf : s.controlFenceHolds fence = true)
    (ha : s.agents.get id = some a) (hm : PgStore.movable w a = true) :
    0 < (PgStore.updatePlacement s id w fence).1 ∧ (PgStore.updatePlacement s id w fence).2 =
      { s with
        agents := s.agents.modify id (PgStore.placed s.now w fence)
          (PgStore.placed_id s.now w fence) } := by
  have hmem := (Keyed.get_eq_some.mp ha).1
  have hid := Keyed.get_key ha
  constructor
  · apply Keyed.rowsAffected_pos.mpr
    refine ⟨a, hmem, ?_⟩
    simp [PgStore.claimable, hid, hm, fenceExists_eq, hf]
  · have hrows : s.agents.updateWhere (PgStore.claimable s id w fence)
        (PgStore.placed s.now w fence) (PgStore.placed_id s.now w fence) =
        s.agents.modify id (PgStore.placed s.now w fence) (PgStore.placed_id s.now w fence) := by
      apply Keyed.updateWhere_eq_modify
      intro r hr
      constructor
      · intro hc
        simp only [PgStore.claimable, Bool.and_eq_true, decide_eq_true_eq] at hc
        exact hc.1.1
      · intro hrid
        have hra := Keyed.get_eq_some.mpr ⟨hr, hrid⟩
        rw [ha] at hra
        cases hra
        simp [PgStore.claimable, hid, hm, fenceExists_eq, hf]
    simp only [PgStore.updatePlacement, hrows]

theorem updatePlacement_unmovable (fence : Option ControlFence) (ha : s.agents.get id = some a)
    (hm : PgStore.movable w a = false) : PgStore.updatePlacement s id w fence = (0, s) := by
  have hnone : ∀ r ∈ s.agents.rows, PgStore.claimable s id w fence r = false := by
    intro r hr
    by_cases hrid : r.id = id
    · have hra := Keyed.get_eq_some.mpr ⟨hr, hrid⟩
      rw [ha] at hra
      cases hra
      simp [PgStore.claimable, hm]
    · simp [PgStore.claimable, hrid]
  have hzero : s.agents.rowsAffected (PgStore.claimable s id w fence) = 0 := by
    apply Nat.eq_zero_of_not_pos
    rw [Keyed.rowsAffected_pos]
    rintro ⟨r, hr, hc⟩
    rw [hnone r hr] at hc
    cases hc
  simp only [PgStore.updatePlacement, hzero, Keyed.updateWhere_of_none hnone]

theorem diagnose_alone (rank : AgentId → ℕ) (hf : s.controlFenceHolds fence = true) (ha : s.agents.get id = some a)
    (hm : PgStore.movable w a = false) :
    (PgStore.diagnose id w fence).alone (Statement.effect rank) s = (.observedRunning, s) := by
  simp only [PgStore.movable, Bool.or_eq_false_iff, decide_eq_false_iff_not] at hm
  obtain ⟨⟨hw, hn⟩, hfail⟩ := hm
  have hrun : a.observedStatus = some .running := by
    cases hobs : a.observedStatus with
    | none => exact absurd hobs hn
    | some status =>
      cases status with
      | running => rfl
      | failed => exact absurd hobs hfail
  simp [PgStore.diagnose, execute, Prog.alone, Statement.effect, hf, ha, hrun, hw]

theorem assignUnlessFull_alone (rank : AgentId → ℕ) (w : WorkerId) (cap : Option ℕ) (n : ℕ)
    (hf : s.controlFenceHolds fence = true) (ha : s.agents.get id = some a) :
    (PgStore.assignUnlessFull id w fence cap n).alone (Statement.effect rank) s =
      if full cap n then (.capReached, s)
      else if PgStore.movable w a then
        (.claimed, { s with
          agents := s.agents.modify id (PgStore.placed s.now w fence)
            (PgStore.placed_id s.now w fence) })
      else (.observedRunning, s) := by
  unfold PgStore.assignUnlessFull
  by_cases hfull : full cap n = true
  · simp [hfull, execute, Prog.alone, Statement.effect]
  · by_cases hm : PgStore.movable w a = true
    · obtain ⟨hpos, hset⟩ := updatePlacement_movable fence hf ha hm
      simp [hfull, hm, execute, Prog.alone, Statement.effect, hpos, hset]
    · have hzero := updatePlacement_unmovable fence ha (by simpa using hm)
      have hdiag := diagnose_alone rank hf ha (by simpa using hm)
      simp [hfull, hm, execute, Prog.alone, Statement.effect, hzero, hdiag]

theorem pg_assign_alone : assignAlone .pg rank s id w fence =
    if s.controlFenceHolds fence = true then
      (.assigned (pgVerdict s id w fence).1, (pgVerdict s id w fence).2)
    else (.assigned .fenced, s) := by
  simp only [assignAlone, serve, Prog.alone_map, PgStore.assignAgentWorker, execute,
    Prog.perform_bind, Prog.alone, Statement.effect]
  by_cases hf : s.controlFenceHolds fence = true
  · cases ha : s.agents.get id with
    | none => simp [hf, Prog.alone, Statement.effect, pgVerdict, ha]
    | some a =>
      cases hw : workerCap s w with
      | none => simp [hf, Prog.alone, Statement.effect, pgVerdict, ha, hw]
      | some cap =>
        cases cap with
        | none =>
          have h := assignUnlessFull_alone rank w none 0 hf ha
          simp [hf, Prog.alone, Statement.effect, pgVerdict, ha, hw, h, full]
        | some cap =>
          have h := assignUnlessFull_alone rank w (some cap) (countOthers s w id) hf ha
          simp [hf, Prog.alone, Statement.effect, pgVerdict, ha, hw, h]
  · simp [hf, Prog.alone]

theorem movable_iff : PgStore.movable w a = true ↔
    ¬ (a.observedStatus = some .running ∧ a.workerId ≠ some w) := by
  simp only [PgStore.movable, Bool.or_eq_true, decide_eq_true_eq]
  by_cases hw : a.workerId = some w
  · simp [hw]
  · cases hobs : a.observedStatus with
    | none => simp
    | some status => cases status <;> simp [hw]

/-- Without a fence the one backend clears the epoch and the other leaves it. -/
theorem placed_eq_iff (now : ℤ) : PgStore.placed now w fence a = MemStore.placed now w fence a ↔
    (fence = none → a.commandControlEpoch = none) := by
  have hepoch : (PgStore.placed now w fence a).commandControlEpoch =
      (PgStore.assigned now w fence a).commandControlEpoch := by
    unfold PgStore.placed PgStore.clearPlacementAndObservation
    dsimp only
    split <;> split <;> rfl
  have hrest : { PgStore.placed now w fence a with
      commandControlEpoch := fence.map ControlFence.epoch } = MemStore.placed now w fence a := by
    by_cases hw : a.workerId = some w
    · simp [PgStore.placed, PgStore.clearPlacementAndObservation, PgStore.assigned,
        MemStore.placed, hw]
    · have hne : some w ≠ a.workerId := fun h => hw h.symm
      simp [PgStore.placed, PgStore.clearPlacementAndObservation, PgStore.assigned,
        MemStore.placed, hw, hne, unobserved]
  constructor
  · intro h hfence
    have he := congrArg Agent.commandControlEpoch h
    rw [hepoch] at he
    subst hfence
    simpa [PgStore.assigned, MemStore.placed] using he
  · intro h
    rw [← hrest]
    have he : (PgStore.placed now w fence a).commandControlEpoch =
        fence.map ControlFence.epoch := by
      rw [hepoch]
      cases fence with
      | none => exact h rfl
      | some f => rfl
    rw [← he]

theorem desire_eq_iff (now : ℤ) (desired : AgentDesiredStatus) :
    PgStore.desire now desired fence a = MemStore.desire now desired fence a ↔
      (fence = none → a.desiredStatus ≠ desired → a.commandControlEpoch = none) := by
  by_cases hd : a.desiredStatus = desired
  · cases fence <;> simp [PgStore.desire, MemStore.desire, hd]
  · cases fence with
    | none => simp [PgStore.desire, MemStore.desire, hd]
    | some f => simp [PgStore.desire, MemStore.desire, hd]

/-- Equal rewritings of one row. -/
theorem modify_eq_iff {t : AgentTable} {f g : Agent → Agent} (hf : ∀ a, (f a).id = a.id)
    (hg : ∀ a, (g a).id = a.id) (ha : t.get id = some a) :
    t.modify id f hf = t.modify id g hg ↔ f a = g a := by
  constructor
  · intro h
    have he := congrArg (fun t : AgentTable => t.get id) h
    simpa [Keyed.get_modify_self, ha] using he
  · intro h
    apply Keyed.ext
    apply map_of_present ha
    · intro r hr
      simp [hr]
    · simp [h]

/-- The assignment is carried out, without a fence, and the row holds an epoch. -/
def keepsOldEpoch (s : StoreState) (id : AgentId) (w : WorkerId) (fence : Option ControlFence) :
    Prop :=
  fence = none ∧ ∃ a, s.agents.get id = some a ∧ grants s id w (workerCap s w) a = true ∧
    a.commandControlEpoch ≠ none

/-- The command changes, without a fence, and the row holds an epoch. -/
def commandsOldEpoch (s : StoreState) (id : AgentId) (desired : AgentDesiredStatus)
    (fence : Option ControlFence) : Prop :=
  fence = none ∧ ∃ a, s.agents.get id = some a ∧ a.desiredStatus ≠ desired ∧
    a.commandControlEpoch ≠ none

theorem verdicts_alike :
    (pgVerdict s id w fence).1 = (MemStore.assignLocked s id w (workerCap s w) fence).1 ∧
      (pgVerdict s id w fence = MemStore.assignLocked s id w (workerCap s w) fence ↔
        ¬ keepsOldEpoch s id w fence) := by
  have refused {r : SlotClaim × StoreState}
      (hp : pgVerdict s id w fence = r)
      (hm : MemStore.assignLocked s id w (workerCap s w) fence = r)
      (hk : ¬ keepsOldEpoch s id w fence) :
      (pgVerdict s id w fence).1 = (MemStore.assignLocked s id w (workerCap s w) fence).1 ∧
        (pgVerdict s id w fence = MemStore.assignLocked s id w (workerCap s w) fence ↔
          ¬ keepsOldEpoch s id w fence) :=
    ⟨by rw [hp, hm], fun _ => hk, fun _ => hp.trans hm.symm⟩
  cases ha : s.agents.get id with
  | none =>
    apply refused (r := (.noSuchAgent, s))
    · simp [pgVerdict, ha]
    · simp [MemStore.assignLocked, ha]
    · rintro ⟨-, a, ha', -⟩
      rw [ha] at ha'
      cases ha'
  | some a =>
    have hkeeps : keepsOldEpoch s id w fence ↔ fence = none ∧
        grants s id w (workerCap s w) a = true ∧ a.commandControlEpoch ≠ none := by
      simp [keepsOldEpoch, ha]
    cases hw : workerCap s w with
    | none =>
      rw [← hw]
      apply refused (r := (.noSuchWorker, s))
      · simp [pgVerdict, ha, hw]
      · simp [MemStore.assignLocked, ha, hw]
      · simp [hkeeps, hw, grants]
    | some cap =>
      rw [← hw]
      by_cases hfull : full cap (countOthers s w id) = true
      · apply refused (r := (.capReached, s))
        · simp [pgVerdict, ha, hw, hfull]
        · simp [MemStore.assignLocked, ha, hw, hfull]
        · simp [hkeeps, hw, grants, hfull]
      · by_cases hm : PgStore.movable w a = true
        · have hmem := movable_iff.mp hm
          have hgrants : grants s id w (workerCap s w) a = true := by
            simpa [grants, hw, hfull, or_iff_not_imp_left] using hmem
          have hp : pgVerdict s id w fence = (.claimed, { s with
              agents := s.agents.modify id (PgStore.placed s.now w fence)
                (PgStore.placed_id s.now w fence) }) := by
            simp [pgVerdict, ha, hw, hfull, hm]
          have he : MemStore.assignLocked s id w (workerCap s w) fence = (.claimed, { s with
              agents := s.agents.modify id (MemStore.placed s.now w fence)
                (MemStore.placed_id s.now w fence) }) := by
            simp only [MemStore.assignLocked, ha, hw, hfull, if_neg hmem]
            rfl
          have hiff : pgVerdict s id w fence = MemStore.assignLocked s id w (workerCap s w) fence ↔
              PgStore.placed s.now w fence a = MemStore.placed s.now w fence a := by
            rw [hp, he, ← modify_eq_iff (PgStore.placed_id s.now w fence)
              (MemStore.placed_id s.now w fence) ha]
            simp
          refine ⟨by rw [hp, he], ?_⟩
          rw [hiff, placed_eq_iff, hkeeps]
          simp [hgrants]
        · have hmem : a.observedStatus = some .running ∧ a.workerId ≠ some w :=
            not_not.mp (mt movable_iff.mpr hm)
          apply refused (r := (.observedRunning, s))
          · simp [pgVerdict, ha, hw, hfull, hm]
          · simp [MemStore.assignLocked, ha, hw, hfull, hmem]
          · simp [hkeeps, hw, grants, hmem]

theorem assigned_alike_iff :
    (assignAlone .pg rank s id w fence).1 = (assignAlone .mem rank s id w fence).1 ∧
      ((assignAlone .pg rank s id w fence).2 = (assignAlone .mem rank s id w fence).2 ↔
        ¬ keepsOldEpoch s id w fence) := by
  obtain ⟨hverdict, hiff⟩ := @verdicts_alike s id w fence
  rw [pg_assign_alone, mem_assign_alone]
  by_cases hf : s.controlFenceHolds fence = true
  · rw [if_pos hf, if_pos hf]
    refine ⟨by rw [hverdict], ?_⟩
    rw [← hiff, Prod.ext_iff, and_iff_right hverdict]
  · rw [if_neg hf, if_neg hf]
    cases fence with
    | none => exact absurd rfl hf
    | some f => simp [keepsOldEpoch]

theorem mem_desire_alone (desired : AgentDesiredStatus) : desireAlone .mem rank s id desired fence =
    if s.controlFenceHolds fence = true then
      (.issued (MemStore.desireLocked s id desired fence).1,
        (MemStore.desireLocked s id desired fence).2)
    else (.issued .fenced, s) := by
  simp only [desireAlone, serve, Prog.alone_map, MemStore.setAgentDesiredStatus, execute,
    Prog.perform_bind, Prog.alone, Statement.effect]
  by_cases hf : s.controlFenceHolds fence = true
  · simp [hf, Prog.alone, Prog.perform, Statement.effect]
  · simp [hf, Prog.alone]

theorem issuable_iff (hf : s.controlFenceHolds fence = true) (a : Agent) :
    PgStore.issuable s id fence a = true ↔ a.id = id := by
  simp [PgStore.issuable, fenceExists_eq, hf]

theorem updateDesired_present (desired : AgentDesiredStatus)
    (hf : s.controlFenceHolds fence = true) (ha : s.agents.get id = some a) :
    0 < (PgStore.updateDesired s id desired fence).1 ∧
      (PgStore.updateDesired s id desired fence).2 =
        { s with
          agents := s.agents.modify id (PgStore.desire s.now desired fence)
            (PgStore.desire_id s.now desired fence) } := by
  constructor
  · apply Keyed.rowsAffected_pos.mpr
    exact ⟨a, (Keyed.get_eq_some.mp ha).1, (issuable_iff hf a).mpr (Keyed.get_key ha)⟩
  · have hrows : s.agents.updateWhere (PgStore.issuable s id fence)
        (PgStore.desire s.now desired fence) (PgStore.desire_id s.now desired fence) =
        s.agents.modify id (PgStore.desire s.now desired fence)
          (PgStore.desire_id s.now desired fence) := by
      apply Keyed.updateWhere_eq_modify
      exact fun r _ => issuable_iff hf r
    simp only [PgStore.updateDesired, hrows]

theorem updateDesired_absent (desired : AgentDesiredStatus) (fence : Option ControlFence)
    (ha : s.agents.get id = none) :
    PgStore.updateDesired s id desired fence = (0, s) := by
  have hnone : ∀ r ∈ s.agents.rows, PgStore.issuable s id fence r = false := by
    intro r hr
    have hne := Keyed.get_eq_none.mp ha r hr
    simp [PgStore.issuable, hne]
  have hzero : s.agents.rowsAffected (PgStore.issuable s id fence) = 0 := by
    apply Nat.eq_zero_of_not_pos
    rw [Keyed.rowsAffected_pos]
    rintro ⟨r, hr, hc⟩
    rw [hnone r hr] at hc
    cases hc
  simp only [PgStore.updateDesired, hzero, Keyed.updateWhere_of_none hnone]

theorem pg_desire_alone (desired : AgentDesiredStatus) : desireAlone .pg rank s id desired fence =
    if s.controlFenceHolds fence = true then
      match s.agents.get id with
      | none => (.issued .noSuchAgent, s)
      | some _ => (.issued .issued, { s with
          agents := s.agents.modify id (PgStore.desire s.now desired fence)
            (PgStore.desire_id s.now desired fence) })
    else (.issued .fenced, s) := by
  simp only [desireAlone, serve, Prog.alone_map, PgStore.setAgentDesiredStatus, execute,
    Prog.perform_bind, Prog.alone, Statement.effect]
  by_cases hf : s.controlFenceHolds fence = true
  · cases ha : s.agents.get id with
    | none =>
      have hzero := updateDesired_absent desired fence ha
      simp [hf, Prog.alone, Statement.effect, hzero]
    | some a =>
      obtain ⟨hpos, hset⟩ := updateDesired_present desired hf ha
      simp [hf, Prog.alone, Statement.effect, hpos, hset]
  · simp [hf, Prog.alone]

theorem desired_alike_iff (desired : AgentDesiredStatus) :
    (desireAlone .pg rank s id desired fence).1 = (desireAlone .mem rank s id desired fence).1 ∧
      ((desireAlone .pg rank s id desired fence).2 =
          (desireAlone .mem rank s id desired fence).2 ↔
        ¬ commandsOldEpoch s id desired fence) := by
  rw [pg_desire_alone, mem_desire_alone]
  by_cases hf : s.controlFenceHolds fence = true
  · rw [if_pos hf, if_pos hf]
    cases ha : s.agents.get id with
    | none => simp [MemStore.desireLocked, ha, commandsOldEpoch]
    | some a =>
      refine ⟨by simp [MemStore.desireLocked, ha], ?_⟩
      have hiff := modify_eq_iff (PgStore.desire_id s.now desired fence)
        (MemStore.desire_id s.now desired fence) ha
      rw [desire_eq_iff] at hiff
      simp only [MemStore.desireLocked, ha, commandsOldEpoch, StoreState.mk.injEq]
      simp [hiff]
  · rw [if_neg hf, if_neg hf]
    cases fence with
    | none => exact absurd rfl hf
    | some f => simp [commandsOldEpoch]

/-- The verdicts agree on every state. The rows agree unless, without a fence, the next command
goes to an agent whose row holds an epoch. -/
theorem agents_served_alike_iff (rank : AgentId → ℕ) (s : StoreState) (id : AgentId)
    (w : WorkerId) (desired : AgentDesiredStatus) (fence : Option ControlFence) :
    (assignAlone .pg rank s id w fence).1 = (assignAlone .mem rank s id w fence).1 ∧
    (desireAlone .pg rank s id desired fence).1 = (desireAlone .mem rank s id desired fence).1 ∧
    ((assignAlone .pg rank s id w fence).2 = (assignAlone .mem rank s id w fence).2 ↔
      ¬ keepsOldEpoch s id w fence) ∧
    ((desireAlone .pg rank s id desired fence).2 = (desireAlone .mem rank s id desired fence).2 ↔
      ¬ commandsOldEpoch s id desired fence) :=
  ⟨assigned_alike_iff.1, (desired_alike_iff desired).1, assigned_alike_iff.2,
    (desired_alike_iff desired).2⟩

end Alone

/-- The row of an agent that the holder of epoch 5 has started. -/
def commandedStore : StoreState :=
  { idleStore none with
    agents := ⟨[{ agentFor 1 1 with
      desiredStatus := .running, commandGeneration := 1, commandControlEpoch := some 5 }],
      List.nodup_singleton _⟩ }

def epochAfter (r : Reply × StoreState) : Option (Option ℤ) :=
  (r.2.agents.get ⟨1⟩).map Agent.commandControlEpoch

theorem unfenced_calls_differ :
    epochAfter (assignAlone .mem AgentId.uuid commandedStore ⟨1⟩ ⟨1⟩ none) = some none ∧
      epochAfter (assignAlone .pg AgentId.uuid commandedStore ⟨1⟩ ⟨1⟩ none) = some (some 5) ∧
      epochAfter (desireAlone .mem AgentId.uuid commandedStore ⟨1⟩ .stopped none) = some none ∧
      epochAfter (desireAlone .pg AgentId.uuid commandedStore ⟨1⟩ .stopped none) =
        some (some 5) :=
  ⟨rfl, rfl, rfl, rfl⟩

end FleetOrchestrator.Agents
