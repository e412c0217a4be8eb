import FleetOrchestrator.Agents.Placement

/-! Which control generation a row says its command was issued under. -/

namespace FleetOrchestrator.Agents

open Core Tables Store Interleaving

/-- The fence of the call that the statement belongs to. -/
def Statement.issuedUnder : Statement → Option ControlFence
  | .assignLocked _ _ _ fence => fence
  | .desireLocked _ _ fence => fence
  | .updatePlacement _ _ fence => fence
  | .updateDesired _ _ fence => fence
  | _ => none

/-- The statement issues the row's next command and leaves the epoch that stands there. -/
def Statement.outdates (s : StoreState) : Statement → Agent → Bool
  | .statusLocked id status, a => a.id = id && status = .stopped && a.desiredStatus ≠ .stopped
  | .updateStatus id status, a => a.id = id && status = .stopped && a.desiredStatus ≠ .stopped
  | .updatePlacement id w none, a => PgStore.claimable s id w none a
  | .updateDesired id desired none, a => a.id = id && a.desiredStatus ≠ desired
  | _, _ => false

def issue (a : Agent) : ℤ × Option ℤ := (a.commandGeneration, a.commandControlEpoch)

/-- The epoch changes only with the generation, and then to that of the fence. -/
def Named (op : Statement) (a a' : Agent) : Prop :=
  (a'.commandGeneration = a.commandGeneration → a'.commandControlEpoch = a.commandControlEpoch) ∧
    (a.commandGeneration < a'.commandGeneration →
      a'.commandControlEpoch = op.issuedUnder.map ControlFence.epoch)

inductive EpochStep (s : StoreState) (op : Statement) (a a' : Agent) : Prop
  | same (hg : a'.commandGeneration = a.commandGeneration)
    (he : a'.commandControlEpoch = a.commandControlEpoch) (ho : op.outdates s a = false)
  | named (hg : a'.commandGeneration = a.commandGeneration + 1)
    (he : a'.commandControlEpoch = op.issuedUnder.map ControlFence.epoch) (ho : op.outdates s a = false)
  | outdated (hg : a'.commandGeneration = a.commandGeneration + 1)
    (he : a'.commandControlEpoch = a.commandControlEpoch) (hu : op.issuedUnder = none)
    (ho : op.outdates s a = true)

theorem EpochStep.named_iff {s : StoreState} {op : Statement} {a a' : Agent}
    (h : EpochStep s op a a') :
    Named op a a' ↔ (op.outdates s a = true → a.commandControlEpoch = none) := by
  cases h with
  | same hg he ho =>
    constructor
    · exact fun _ hout => absurd hout (by simp [ho])
    · refine fun _ => ⟨fun _ => he, ?_⟩
      intro hlt
      omega
  | named hg he ho =>
    constructor
    · exact fun _ hout => absurd hout (by simp [ho])
    · refine fun _ => ⟨?_, fun _ => he⟩
      intro heq
      omega
  | outdated hg he hu ho =>
    constructor
    · intro hn _
      have hnone := hn.2 (by omega)
      rw [hu, he] at hnone
      exact hnone
    · intro hn
      constructor
      · intro heq
        omega
      · intro _
        rw [hu, he]
        exact hn ho

section Rows

variable {s : StoreState} {a : Agent}

theorem status_epoch {op : Statement} (now : ℤ) (status : AgentStatus) (hu : op.issuedUnder = none)
    (ho : op.outdates s a = true ↔ status = .stopped ∧ a.desiredStatus ≠ .stopped) :
    EpochStep s op a (MemStore.withStatus now status a) := by
  unfold MemStore.withStatus
  split
  · next h => exact .outdated rfl rfl hu (ho.mpr h)
  · next h => exact .same rfl rfl (by simpa using mt ho.mp h)

theorem assign_epoch {id : AgentId} {w : WorkerId} {cap : Option (Option ℕ)}
    {fence : Option ControlFence} (now : ℤ) :
    EpochStep s (.assignLocked id w cap fence) a (MemStore.placed now w fence a) := by
  refine .named ?_ rfl rfl
  unfold MemStore.placed
  split <;> rfl

theorem placement_epoch {id : AgentId} {w : WorkerId} {fence : Option ControlFence} (now : ℤ)
    (hc : PgStore.claimable s id w fence a = true) :
    EpochStep s (.updatePlacement id w fence) a (PgStore.placed now w fence a) := by
  have hg : (PgStore.placed now w fence a).commandGeneration = a.commandGeneration + 1 := by
    unfold PgStore.placed PgStore.clearPlacementAndObservation
    dsimp only
    split <;> split <;> rfl
  have he : (PgStore.placed now w fence a).commandControlEpoch =
      (PgStore.assigned now w fence a).commandControlEpoch := by
    unfold PgStore.placed PgStore.clearPlacementAndObservation
    dsimp only
    split <;> split <;> rfl
  cases fence with
  | none => exact .outdated hg he rfl hc
  | some f => exact .named hg he rfl

theorem desire_epoch {id : AgentId} {desired : AgentDesiredStatus} {fence : Option ControlFence}
    (now : ℤ) :
    EpochStep s (.desireLocked id desired fence) a (MemStore.desire now desired fence a) := by
  unfold MemStore.desire
  split
  · exact .named rfl rfl rfl
  · exact .same rfl rfl rfl

theorem desired_epoch {id : AgentId} {desired : AgentDesiredStatus} {fence : Option ControlFence}
    (now : ℤ) (hid : a.id = id) :
    EpochStep s (.updateDesired id desired fence) a (PgStore.desire now desired fence a) := by
  by_cases h : a.desiredStatus = desired
  · apply EpochStep.same
    · simp [PgStore.desire, h]
    · cases fence with
      | none => rfl
      | some f => simp [PgStore.desire, h]
    · cases fence with
      | none => simp [Statement.outdates, h]
      | some f => rfl
  · have hg : (PgStore.desire now desired fence a).commandGeneration = a.commandGeneration + 1 := by
      simp [PgStore.desire, h]
    cases fence with
    | none => exact .outdated hg rfl rfl (by simp [Statement.outdates, hid, h])
    | some f =>
      refine .named hg ?_ rfl
      simp [PgStore.desire, h, Statement.issuedUnder]

theorem epoch_step (s : StoreState) (op : Statement) (a : Agent) :
    EpochStep s op a (op.onRow s a) := by
  have same {op : Statement} {a' : Agent} (ho : op.outdates s a = false)
      (h : issue a' = issue a) : EpochStep s op a a' :=
    .same (Prod.mk.inj h).1 (Prod.mk.inj h).2 ho
  cases op with
  | statusLocked id status =>
    simp only [Statement.onRow]
    split
    · next hid => exact status_epoch s.now status rfl (by simp [Statement.outdates, hid])
    · next hid => exact same (by simp [Statement.outdates, hid]) rfl
  | updateStatus id status =>
    simp only [Statement.onRow, withStatus_eq]
    split
    · next hid => exact status_epoch s.now status rfl (by simp [Statement.outdates, hid])
    · next hid => exact same (by simp [Statement.outdates, hid]) rfl
  | assignLocked id w cap fence =>
    simp only [Statement.onRow]
    split
    · exact assign_epoch s.now
    · exact same rfl rfl
  | updatePlacement id w fence =>
    simp only [Statement.onRow]
    split
    · next hc => exact placement_epoch s.now hc
    · next hc =>
      refine same ?_ rfl
      cases fence with
      | none => simpa [Statement.outdates] using hc
      | some f => rfl
  | desireLocked id desired fence =>
    simp only [Statement.onRow]
    split
    · exact desire_epoch s.now
    · exact same rfl rfl
  | updateDesired id desired fence =>
    simp only [Statement.onRow]
    split
    · next hi =>
      simp only [PgStore.issuable, Bool.and_eq_true, decide_eq_true_eq] at hi
      exact desired_epoch s.now hi.1
    · next hi =>
      refine same ?_ rfl
      cases fence with
      | none =>
        have hid : a.id ≠ id := by
          intro hid
          apply hi
          simp [PgStore.issuable, PgStore.fenceExists, hid]
        simp [Statement.outdates, hid]
      | some f => rfl
  | ackLocked w acks => exact same rfl (ackRows_keeps issue (fun _ _ => rfl) acks a)
  | updateAcked w ack => exact same rfl (ackRow_keeps issue (fun _ _ => rfl) a ack)
  | observeLocked w os =>
    exact same rfl
      (observeLocked_keeps issue (fun _ => rfl) (fun _ _ _ => rfl) s os a)
  | clearUnspoken w spoken =>
    exact same rfl (silence_keeps issue (fun _ => rfl) spoken a)
  | updateObserved now w o =>
    exact same rfl (observeRow_keeps issue (fun _ _ _ => rfl) now a o)
  | _ => exact same rfl rfl

end Rows

/-- No row that holds an epoch gets its next command from a statement that leaves the epoch. -/
def covered (c : AgentConfig) : AgentAction → Bool
  | .run i _ =>
    match c.next i with
    | some op => c.state.store.agents.rows.all fun a =>
        !(op.outdates c.state.store a && a.commandControlEpoch.isSome)
    | none => true
  | _ => true

section Runs

variable {b : Backend} {c₀ c c' : AgentConfig} {id : AgentId} {x : AgentAction}

/-- The row holds no command yet, or its epoch is that of the call that issued its command. -/
def EpochOfIssuer (b : Backend) (c₀ c : AgentConfig) (id : AgentId) (a : Agent) : Prop :=
  (a.commandGeneration = 0 ∧ a.commandControlEpoch = none) ∨
    ∃ c₁ c₂ i rank op, ∃ _ : (fleetAgents b).Ran c₁ c₂ i rank op, ∃ a₁ a₂,
      (fleetAgents b).Reaches Machine.always c₀ c₁ ∧
        (fleetAgents b).Reaches Machine.always c₂ c ∧ row c₁ id = some a₁ ∧ row c₂ id = some a₂ ∧
          a₁.commandGeneration < a₂.commandGeneration ∧
            a₂.commandGeneration = a.commandGeneration ∧
              a.commandControlEpoch = op.issuedUnder.map ControlFence.epoch

theorem issuer_step {a a' : Agent} (hs : (fleetAgents b).step c x = some c')
    (hi : issue a' = issue a) (h : EpochOfIssuer b c₀ c id a) : EpochOfIssuer b c₀ c' id a' := by
  obtain ⟨hg, he⟩ := Prod.mk.inj hi
  rcases h with ⟨hz, hn⟩ | ⟨c₁, c₂, i, rank, op, r, a₁, a₂, h₁, h₂, hr₁, hr₂, hlt, hg₂, hep⟩
  · exact .inl ⟨hg.trans hz, he.trans hn⟩
  · exact .inr ⟨c₁, c₂, i, rank, op, r, a₁, a₂, h₁, .tail x h₂ trivial hs, hr₁, hr₂, hlt,
      hg₂.trans hg.symm, he.trans hep⟩

theorem isNew_issue {a : Agent} (h : isNew a = true) :
    a.commandGeneration = 0 ∧ a.commandControlEpoch = none := by
  simp only [isNew, Bool.and_eq_true, decide_eq_true_eq, Option.isNone_iff_eq_none] at h
  simp [h]

theorem epochs_step (h₀ : Start c₀)
    (hr : (fleetAgents b).Reaches (fun c x => covered c x = true) c₀ c) (hcov : covered c x = true)
    (hs : (fleetAgents b).step c x = some c')
    (h : ∀ id a, row c id = some a → EpochOfIssuer b c₀ c id a) :
    ∀ id a, row c' id = some a → EpochOfIssuer b c₀ c' id a := by
  intro id a' ha'
  have hstep := row_step h₀ hr hs id
  rw [ha'] at hstep
  generalize ho : row c id = o at hstep
  cases hstep with
  | kept => exact issuer_step hs rfl (h id a' ho)
  | born _ hn => exact .inl (isNew_issue hn)
  | changed i rank op r hx hl a hid =>
    have hout : op.outdates c.state.store a = true → a.commandControlEpoch = none := by
      subst hx
      simp only [covered, r.next, List.all_eq_true] at hcov
      simpa [imp_iff_not_or] using hcov a (Keyed.get_eq_some.mp ho).1
    cases epoch_step c.state.store op a with
    | same hg he _ =>
      have hi : issue (op.onRow c.state.store a) = issue a := by rw [issue, hg, he, issue]
      exact issuer_step hs hi (h id a ho)
    | named hg he _ =>
      refine .inr ⟨c, c', i, rank, op, r, a, _, hr.any, .refl, ho, ha', ?_, rfl, he⟩
      omega
    | outdated hg he hu hod =>
      refine .inr ⟨c, c', i, rank, op, r, a, _, hr.any, .refl, ho, ha', ?_, rfl, ?_⟩
      · omega
      · rw [he, hout hod, hu]
        rfl

/-- The stored epoch over runs from an empty table. A step keeps it right exactly when it does not
outdate it; where all steps do, it always names the issuer of the current command. -/
theorem epochs_named (h₀ : Start c₀) (hnone : c₀.state.store.agents.rows = []) :
    (∀ c i rank c' op, (fleetAgents b).Reaches Machine.always c₀ c →
      (fleetAgents b).step c (.run i rank) = some c' → (fleetAgents b).Ran c c' i rank op →
        ∀ id a a', row c id = some a → row c' id = some a' →
          (Named op a a' ↔
            (op.outdates c.state.store a = true → a.commandControlEpoch = none))) ∧
    ∀ c, (fleetAgents b).Reaches (fun c x => covered c x = true) c₀ c →
      ∀ id a, row c id = some a → EpochOfIssuer b c₀ c id a := by
  constructor
  · intro c i rank c' op h hs r id a a' ha ha'
    have hrow := epoch_step c.state.store op a
    cases hc : op.creates with
    | none =>
      have he := row_read r hc id
      rw [ha, ha'] at he
      cases he
      exact hrow.named_iff
    | some agent =>
      have hstep := row_step h₀ h hs id
      rw [ha, ha'] at hstep
      cases hstep with
      | kept =>
        have hout : op.outdates c.state.store a = false := by
          cases op <;> first | rfl | cases hc
        rw [hout]
        refine ⟨fun _ ho => absurd ho (by simp), fun _ => ⟨fun _ => rfl, ?_⟩⟩
        exact fun hlt => absurd hlt (lt_irrefl _)
      | changed j rank' op' r' hx hl a hid =>
        cases hx
        cases r.op_eq r'
        exact hrow.named_iff
  · intro c h
    apply h.invariant (P := fun c => ∀ id a, row c id = some a → EpochOfIssuer b c₀ c id a)
    · intro id a ha
      have hm := (Keyed.get_eq_some.mp ha).1
      rw [hnone] at hm
      cases hm
    · intro c x c' hr hx hs hp
      exact epochs_step h₀ hr hx hs hp

end Runs

/-- An agent is created and started by the holder of epoch 5. -/
def fencedStart : List AgentAction :=
  serving 0 (.createAgent (agentFor 1 1)) 2 ++
    serving 1 (.setAgentDesiredStatus ⟨1⟩ .running (some ⟨"c", 5⟩)) 2

/-- Then a call without a fence stops it. -/
def unfencedStop : List AgentAction := [.start 2 (.updateAgentStatus ⟨1⟩ .stopped)]

/-- Some step issues a command and leaves the epoch of another. -/
def Misnames (b : Backend) : Prop :=
  ∃ c c' i rank op a a', (fleetAgents b).Reaches Machine.always (idleFleet none) c ∧
    (fleetAgents b).step c (.run i rank) = some c' ∧
      Nonempty ((fleetAgents b).Ran c c' i rank op) ∧ row c ⟨1⟩ = some a ∧ row c' ⟨1⟩ = some a' ∧
        ¬ Named op a a'

theorem stopped_agent_keeps_epoch : Misnames .mem ∧ Misnames .pg := by
  have stop (b : Backend) (xs : List AgentAction) (c' : AgentConfig) (a a' : Agent)
      (hs : (fleetAgents b).step ((fleetAgents b).after (idleFleet none) xs)
        (.run 2 AgentId.uuid) = some c')
      (ha : row ((fleetAgents b).after (idleFleet none) xs) ⟨1⟩ = some a)
      (ha' : row c' ⟨1⟩ = some a') (hg : a.commandGeneration < a'.commandGeneration)
      (he : a'.commandControlEpoch = some 5)
      (hu : ∀ op, ((fleetAgents b).after (idleFleet none) xs).next 2 = some op →
        op.issuedUnder = none) : Misnames b := by
    obtain ⟨op, ⟨r⟩⟩ := Machine.step_run hs
    refine ⟨_, c', 2, AgentId.uuid, op, a, a', Machine.after_reaches xs, hs, ⟨r⟩, ha, ha', ?_⟩
    intro hn
    have hnone := hn.2 hg
    rw [he, hu op r.next] at hnone
    cases hnone
  constructor
  · refine stop .mem (fencedStart ++ unfencedStop) _ _ _ rfl rfl rfl (by decide) rfl ?_
    intro op ho
    cases ho
    rfl
  · refine stop .pg (fencedStart ++ unfencedStop) _ _ _ rfl rfl rfl (by decide) rfl ?_
    intro op ho
    cases ho
    rfl

theorem fenced_start_named :
    EpochOfIssuer .mem (idleFleet none) ((fleetAgents .mem).after (idleFleet none) fencedStart)
      ⟨1⟩ { agentFor 1 1 with
        desiredStatus := .running, commandGeneration := 1, commandIssuedAt := some 0,
        commandControlEpoch := some 5 } := by
  have h : (fleetAgents .mem).replayWhile covered (idleFleet none) fencedStart =
      some ((fleetAgents .mem).after (idleFleet none) fencedStart) := rfl
  exact (epochs_named (idleFleet_start none) rfl).2 _ (Machine.replayWhile_reaches h) ⟨1⟩ _ rfl

end FleetOrchestrator.Agents
