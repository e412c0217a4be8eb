import FleetOrchestrator.Agents.Commands

/-! The second gate of placement: what is seen of an agent, and where it may go meanwhile. -/

namespace FleetOrchestrator.Agents

open Core Tables Store Interleaving

def observation (a : Agent) :
    Option AgentObservedStatus × Option ℤ × Option AgentObservationReason :=
  (a.observedStatus, a.observedAt, a.observedReason)

/-- The list says that the worker does not run the agent. -/
def Denied (os : List AgentObservation) (id : AgentId) : Prop :=
  (∀ o ∈ os, o.agentId ≠ id) ∨ ∃ o ∈ os, o.agentId = id ∧ o.status ≠ .running

def Statement.denies : Statement → WorkerId → AgentId → Prop
  | .observeLocked v os, w, id => v = w ∧ Denied os id
  | .clearUnspoken v spoken, w, id => v = w ∧ id ∉ spoken
  | .updateObserved _ v o, w, id => v = w ∧ o.agentId = id ∧ o.status ≠ .running
  | _, _, _ => False

def Statement.reports : Statement → WorkerId → AgentObservation → Prop
  | .observeLocked v os, w, o => v = w ∧ o ∈ os
  | .updateObserved _ v o', w, o => v = w ∧ o' = o
  | _, _, _ => False

/-- The worker itself speaks about its agents. -/
def Statement.observesFor : Statement → WorkerId → Prop
  | .observeLocked v _, w => v = w
  | .clearUnspoken v _, w => v = w
  | .updateObserved _ v _, w => v = w
  | _, _ => False

def Statement.assigns : Statement → AgentId → WorkerId → Prop
  | .assignLocked i v _ _, id, w => i = id ∧ v = w
  | .updatePlacement i v _, id, w => i = id ∧ v = w
  | _, _, _ => False

/-- A statement leaves the placement and what was seen there, moves a row that was not seen
running, or is its worker's word about it. -/
inductive SightStep (op : Statement) (a a' : Agent) : Prop
  | same (hw : a'.workerId = a.workerId) (h : observation a' = observation a)
  | moved (v : WorkerId) (hw : a'.workerId = some v) (hne : a.workerId ≠ some v)
    (hn : a.observedStatus ≠ some .running) (ho : op.assigns a.id v)
    (h : observation a' = (none, none, none))
  | silenced (w : WorkerId) (hw : a.workerId = some w) (hw' : a'.workerId = a.workerId)
    (ho : op.observesFor w) (hd : op.denies w a.id) (h : observation a' = (none, none, none))
  | seen (w : WorkerId) (o : AgentObservation) (hw : a.workerId = some w)
    (hw' : a'.workerId = a.workerId) (ho : op.observesFor w) (hr : op.reports w o)
    (hid : o.agentId = a.id) (hd : o.status ≠ .running → op.denies w a.id)
    (hst : a'.observedStatus = some o.status) (hre : a'.observedReason = o.reason)

section Rows

variable {s : StoreState} {a : Agent} {w : WorkerId} {op : Statement}

theorem status_sight (now : ℤ) (status : AgentStatus) :
    SightStep op a (MemStore.withStatus now status a) := by
  unfold MemStore.withStatus
  split
  · exact .same rfl rfl
  · exact .same rfl rfl

theorem mem_placed_sight {id : AgentId} {cap : Option (Option ℕ)} {fence : Option ControlFence}
    (now : ℤ) (hid : a.id = id) (hg : grants s id w cap a = true) :
    SightStep (.assignLocked id w cap fence) a (MemStore.placed now w fence a) := by
  by_cases hw : a.workerId = some w
  · apply SightStep.same
    · simp [MemStore.placed, hw]
    · simp [MemStore.placed, hw, observation]
  · refine .moved w rfl hw ?_ ⟨hid.symm, rfl⟩ ?_
    · intro hobs
      unfold grants at hg
      cases cap with
      | none => cases hg
      | some cap => simp [hobs, hw] at hg
    · simp [MemStore.placed, hw, observation, unobserved]

theorem pg_placed_sight {id : AgentId} {fence : Option ControlFence} (now : ℤ)
    (hc : PgStore.claimable s id w fence a = true) :
    SightStep (.updatePlacement id w fence) a (PgStore.placed now w fence a) := by
  simp only [PgStore.claimable, PgStore.movable, Bool.and_eq_true, Bool.or_eq_true,
    decide_eq_true_eq] at hc
  obtain ⟨⟨hid, hm⟩, -⟩ := hc
  by_cases hw : a.workerId = some w
  · apply SightStep.same
    · simp [PgStore.placed, PgStore.clearPlacementAndObservation, PgStore.assigned, hw]
    · simp [PgStore.placed, PgStore.clearPlacementAndObservation, PgStore.assigned, hw,
        observation]
  · have hne : some w ≠ a.workerId := fun h => hw h.symm
    refine .moved w ?_ hw ?_ ⟨hid.symm, rfl⟩ ?_
    · simp [PgStore.placed, PgStore.clearPlacementAndObservation, PgStore.assigned, hne,
        unobserved]
    · intro hobs
      rcases hm with (h | h) | h
      · exact hw h
      · rw [hobs] at h
        cases h
      · rw [hobs] at h
        cases h
    · simp [PgStore.placed, PgStore.clearPlacementAndObservation, PgStore.assigned, hne,
        unobserved, observation]

theorem observeRows_elsewhere (now : ℤ) (hw : a.workerId ≠ some w) (os : List AgentObservation) :
    os.foldl (observeRow now w) a = a := by
  induction os with
  | nil => rfl
  | cons o os ih => rw [List.foldl_cons, observeRow, if_neg fun h => hw h.2, ih]

/-- The last word of a list counts. -/
theorem observeRows_cases (now : ℤ) (hw : a.workerId = some w) (os : List AgentObservation) :
    ((∀ o ∈ os, o.agentId ≠ a.id) ∧ os.foldl (observeRow now w) a = a) ∨
      ∃ o ∈ os, o.agentId = a.id ∧ os.foldl (observeRow now w) a = observed now o a := by
  induction os generalizing a with
  | nil => exact .inl ⟨by simp, rfl⟩
  | cons o os ih =>
    rw [List.foldl_cons]
    by_cases hid : a.id = o.agentId
    · rw [observeRow, if_pos ⟨hid, hw⟩]
      rcases ih (a := observed now o a) hw with ⟨-, he⟩ | ⟨o', ho', hid', he⟩
      · exact .inr ⟨o, List.mem_cons_self, hid.symm, he⟩
      · exact .inr ⟨o', List.mem_cons_of_mem _ ho', hid', he⟩
    · rw [observeRow, if_neg fun h => hid h.1]
      rcases ih hw with ⟨hno, he⟩ | ⟨o', ho', hid', he⟩
      · refine .inl ⟨?_, he⟩
        intro o' ho'
        rcases List.mem_cons.mp ho' with rfl | ho'
        · exact fun h => hid h.symm
        · exact hno o' ho'
      · exact .inr ⟨o', List.mem_cons_of_mem _ ho', hid', he⟩

theorem silence_cases (spoken : List AgentId) :
    silence w spoken a = a ∨
      (a.workerId = some w ∧ a.id ∉ spoken ∧ silence w spoken a = unobserved a) := by
  unfold silence
  by_cases h : unspoken w spoken a = true
  · rw [if_pos h]
    simp only [unspoken, Bool.and_eq_true, decide_eq_true_eq, Bool.not_eq_true',
      List.contains_eq_mem, decide_eq_false_iff_not] at h
    exact .inr ⟨h.1.1, h.2, rfl⟩
  · rw [if_neg h]
    exact .inl rfl

theorem observeLocked_sight (s : StoreState) (os : List AgentObservation) :
    SightStep (.observeLocked w os) a ((Statement.observeLocked w os).onRow s a) := by
  change SightStep _ a
    (os.foldl (observeRow s.now w) (silence w (os.map AgentObservation.agentId) a))
  by_cases hw : a.workerId = some w
  · rcases silence_cases (w := w) (a := a) (os.map AgentObservation.agentId) with
      he | ⟨-, hno, he⟩
    · rw [he]
      rcases observeRows_cases s.now hw os with ⟨-, hf⟩ | ⟨o, ho, hid, hf⟩
      · rw [hf]
        exact .same rfl rfl
      · rw [hf]
        refine .seen w o hw rfl rfl ⟨rfl, ho⟩ hid ?_ rfl rfl
        exact fun hst => ⟨rfl, .inr ⟨o, ho, hid, hst⟩⟩
    · rw [he]
      have hdenied : ∀ o ∈ os, o.agentId ≠ a.id := by
        intro o ho hid
        exact hno (List.mem_map.mpr ⟨o, ho, hid⟩)
      rcases observeRows_cases (a := unobserved a) s.now hw os with ⟨-, hf⟩ | ⟨o, ho, hid, -⟩
      · rw [hf]
        exact .silenced w hw rfl rfl ⟨rfl, .inl hdenied⟩ rfl
      · exact absurd hid (hdenied o ho)
  · have hsilent : silence w (os.map AgentObservation.agentId) a = a := by
      rcases silence_cases (w := w) (a := a) (os.map AgentObservation.agentId) with he | ⟨h, -⟩
      · exact he
      · exact absurd h hw
    rw [hsilent, observeRows_elsewhere s.now hw os]
    exact .same rfl rfl

theorem sight_step (s : StoreState) (op : Statement) (a : Agent) :
    SightStep op a (op.onRow s a) := by
  cases op with
  | statusLocked id status =>
    simp only [Statement.onRow]
    split
    · exact status_sight s.now status
    · exact .same rfl rfl
  | updateStatus id status =>
    simp only [Statement.onRow, withStatus_eq]
    split
    · exact status_sight s.now status
    · exact .same rfl rfl
  | assignLocked id w cap fence =>
    simp only [Statement.onRow]
    split
    · next h => exact mem_placed_sight s.now h.1 h.2
    · exact .same rfl rfl
  | updatePlacement id w fence =>
    simp only [Statement.onRow]
    split
    · next h => exact pg_placed_sight s.now h
    · exact .same rfl rfl
  | desireLocked id desired fence =>
    simp only [Statement.onRow, MemStore.desire]
    split
    · split
      · exact .same rfl rfl
      · exact .same rfl rfl
    · exact .same rfl rfl
  | updateDesired id desired fence =>
    simp only [Statement.onRow]
    split
    · exact .same rfl rfl
    · exact .same rfl rfl
  | ackLocked w acks =>
    have hw := ackRows_keeps (w := w) Agent.workerId (fun _ _ => rfl) acks a
    have hobs := ackRows_keeps (w := w) observation (fun _ _ => rfl) acks a
    exact .same hw hobs
  | updateAcked w ack =>
    have hw := ackRow_keeps (w := w) Agent.workerId (fun _ _ => rfl) a ack
    have hobs := ackRow_keeps (w := w) observation (fun _ _ => rfl) a ack
    exact .same hw hobs
  | observeLocked w os => exact observeLocked_sight s os
  | clearUnspoken w spoken =>
    change SightStep _ a (silence w spoken a)
    rcases silence_cases (w := w) (a := a) spoken with he | ⟨hw, hno, he⟩
    · rw [he]
      exact .same rfl rfl
    · rw [he]
      exact .silenced w hw rfl rfl ⟨rfl, hno⟩ rfl
  | updateObserved now w o =>
    change SightStep _ a (observeRow now w a o)
    unfold observeRow
    split
    · next h =>
      refine .seen w o h.2 rfl rfl ⟨rfl, rfl⟩ h.1.symm ?_ rfl rfl
      exact fun hst => ⟨rfl, h.1.symm, hst⟩
    · exact .same rfl rfl
  | _ => exact .same rfl rfl

end Rows

section Runs

variable {b : Backend} {c₀ c₁ c c' : AgentConfig} {w : WorkerId} {id : AgentId} {x : AgentAction}

/-- Since `c₁` the worker sent a list that denies running the agent. -/
def DeniedSince (c₁ c : AgentConfig) (w : WorkerId) (id : AgentId) : Prop :=
  ∃ i os k, Serving c i (.applyAgentObservations w os) ∧ Denied os id ∧ Since c₁.log c.log k ∧
    k.thread = i ∧ k.op.denies w id

/-- Since `c₁` the worker reported the agent so. -/
def ReportedSince (c₁ c : AgentConfig) (w : WorkerId) (id : AgentId) (status : AgentObservedStatus)
    (reason : Option AgentObservationReason) : Prop :=
  ∃ i os o k, Serving c i (.applyAgentObservations w os) ∧ o ∈ os ∧ o.agentId = id ∧
    o.status = status ∧ o.reason = reason ∧ Since c₁.log c.log k ∧ k.thread = i ∧ k.op.reports w o

/-- Since `c₁` nobody assigned the agent to another worker, and its own worker said nothing. -/
def UndisturbedSince (c₁ c : AgentConfig) (w : WorkerId) (id : AgentId) : Prop :=
  ∀ k, Since c₁.log c.log k → (∀ v, k.op.assigns id v → v = w) ∧ ¬ k.op.observesFor w

theorem denies_request {request : Request} {op : Statement} (hs : Serves request op)
    (ho : op.denies w id) : ∃ os, request = .applyAgentObservations w os ∧ Denied os id := by
  cases hs with
  | reads hr hp => cases op <;> first | exact ho.elim | cases hr
  | observeLocked v os =>
    obtain ⟨rfl, hd⟩ := ho
    exact ⟨os, rfl, hd⟩
  | clearUnspoken v os =>
    obtain ⟨rfl, hn⟩ := ho
    refine ⟨os, rfl, .inl ?_⟩
    rintro o hm rfl
    exact hn (List.mem_map_of_mem hm)
  | updateObserved now v os o hm =>
    obtain ⟨rfl, hid, hst⟩ := ho
    exact ⟨os, rfl, .inr ⟨o, hm, hid, hst⟩⟩
  | _ => exact ho.elim

theorem reports_request {request : Request} {op : Statement} {o : AgentObservation}
    (hs : Serves request op) (ho : op.reports w o) :
    ∃ os, request = .applyAgentObservations w os ∧ o ∈ os := by
  cases hs with
  | reads hr hp => cases op <;> first | exact ho.elim | cases hr
  | observeLocked v os =>
    obtain ⟨rfl, hm⟩ := ho
    exact ⟨os, rfl, hm⟩
  | updateObserved now v os o' hm =>
    obtain ⟨rfl, rfl⟩ := ho
    exact ⟨os, rfl, hm⟩
  | _ => exact ho.elim

theorem denied_step (hs : (fleetAgents b).step c x = some c') (h : DeniedSince c₁ c w id) :
    DeniedSince c₁ c' w id := by
  obtain ⟨i, os, k, hserve, hd, hk, hi, ho⟩ := h
  exact ⟨i, os, k, serving_step hs hserve, hd, hk.later (Machine.step_log hs), hi, ho⟩

theorem reported_step {status : AgentObservedStatus} {reason : Option AgentObservationReason}
    (hs : (fleetAgents b).step c x = some c') (h : ReportedSince c₁ c w id status reason) :
    ReportedSince c₁ c' w id status reason := by
  obtain ⟨i, os, o, k, hserve, hm, hid, hst, hre, hk, hi, ho⟩ := h
  exact ⟨i, os, o, k, serving_step hs hserve, hm, hid, hst, hre, hk.later (Machine.step_log hs), hi,
    ho⟩

section Ran

variable {i : ℕ} {rank : AgentId → ℕ} {op : Statement}

theorem ran_since (hlog : c₁.log <:+ c.log) (r : (fleetAgents b).Ran c c' i rank op) :
    Since c₁.log c'.log ⟨i, r.party, op, r.resp⟩ := by
  rw [r.log]
  exact Since.cons hlog

theorem denied_now (hlog : c₁.log <:+ c.log) (hs : (fleetAgents b).step c x = some c')
    (r : (fleetAgents b).Ran c c' i rank op) (hl : Serves r.act op) (ho : op.denies w id) :
    DeniedSince c₁ c' w id := by
  obtain ⟨os, hact, hd⟩ := denies_request hl ho
  exact ⟨i, os, _, serving_step hs (hact ▸ ran_serving r), hd, ran_since hlog r, rfl, ho⟩

theorem reported_now {o : AgentObservation} (hlog : c₁.log <:+ c.log)
    (hs : (fleetAgents b).step c x = some c') (r : (fleetAgents b).Ran c c' i rank op)
    (hl : Serves r.act op) (ho : op.reports w o) :
    ReportedSince c₁ c' w o.agentId o.status o.reason := by
  obtain ⟨os, hact, hm⟩ := reports_request hl ho
  exact ⟨i, os, o, _, serving_step hs (hact ▸ ran_serving r), hm, rfl, rfl, rfl, ran_since hlog r,
    rfl, ho⟩

end Ran

/-- Running under its worker, or denied by it meanwhile. -/
def HeldOrDenied (c₁ c : AgentConfig) (w : WorkerId) (id : AgentId) : Prop :=
  (∃ a, row c id = some a ∧ a.workerId = some w ∧ a.observedStatus = some .running) ∨
    DeniedSince c₁ c w id

theorem held_step (h₀ : Start c₀) (hr : (fleetAgents b).Reaches Machine.always c₀ c)
    (hlog : c₁.log <:+ c.log) (hs : (fleetAgents b).step c x = some c')
    (h : HeldOrDenied c₁ c w id) : HeldOrDenied c₁ c' w id := by
  rcases h with ⟨a, ha, hw, hobs⟩ | hd
  · have hstep := row_step h₀ hr hs id
    rw [ha] at hstep
    generalize ho : row c' id = o at hstep
    cases hstep with
    | kept => exact .inl ⟨a, ho, hw, hobs⟩
    | changed i rank op r hx hl a hid =>
      cases sight_step c.state.store op a with
      | same hw' hsame =>
        have hst := congrArg Prod.fst hsame
        exact .inl ⟨_, ho, hw'.trans hw, hst.trans hobs⟩
      | moved v hw' hne hn hop hnone => exact absurd hobs hn
      | silenced v hv hw' hop hd hnone =>
        rw [hw] at hv
        cases hv
        rw [hid] at hd
        exact .inr (denied_now hlog hs r hl.1 hd)
      | seen v o hv hw' hop hrep hoid hd hst hre =>
        rw [hw] at hv
        cases hv
        by_cases hrun : o.status = .running
        · rw [hrun] at hst
          exact .inl ⟨_, ho, hw'.trans hw, hst⟩
        · have hdenied := hd hrun
          rw [hid] at hdenied
          exact .inr (denied_now hlog hs r hl.1 hdenied)
  · exact .inr (denied_step hs hd)

/-- What is seen of an agent is about the worker it is on: it stood so at `c₁` already, or that
worker said so since. -/
def SeenThere (c₁ c : AgentConfig) (id : AgentId) : Prop :=
  ∀ a status, row c id = some a → a.observedStatus = some status → ∃ w, a.workerId = some w ∧
    ((∃ a₁, row c₁ id = some a₁ ∧ a₁.workerId = some w ∧ observation a₁ = observation a) ∨
      ReportedSince c₁ c w id status a.observedReason)

theorem isNew_unobserved {a : Agent} (h : isNew a = true) : a.observedStatus = none := by
  simp only [isNew, Bool.and_eq_true, Option.isNone_iff_eq_none] at h
  simp [h]

theorem seen_step (h₀ : Start c₀) (hr : (fleetAgents b).Reaches Machine.always c₀ c)
    (hlog : c₁.log <:+ c.log) (hs : (fleetAgents b).step c x = some c')
    (h : SeenThere c₁ c id) : SeenThere c₁ c' id := by
  intro a' status ha' hst'
  have hstep := row_step h₀ hr hs id
  rw [ha'] at hstep
  generalize ho : row c id = o at hstep
  have stays {a : Agent} (ha : row c id = some a) (hw : a'.workerId = a.workerId)
      (hobs : observation a' = observation a) : ∃ w, a'.workerId = some w ∧
      ((∃ a₁, row c₁ id = some a₁ ∧ a₁.workerId = some w ∧ observation a₁ = observation a') ∨
        ReportedSince c₁ c' w id status a'.observedReason) := by
    obtain ⟨hst, -, hre⟩ : a'.observedStatus = a.observedStatus ∧
        a'.observedAt = a.observedAt ∧ a'.observedReason = a.observedReason := by
      simpa [observation] using hobs
    obtain ⟨w, haw, hsource⟩ := h a status ha (hst.symm.trans hst')
    refine ⟨w, hw.trans haw, ?_⟩
    rcases hsource with ⟨a₁, h₁, hw₁, he⟩ | hrep
    · exact .inl ⟨a₁, h₁, hw₁, he.trans hobs.symm⟩
    · rw [hre]
      exact .inr (reported_step hs hrep)
  cases hstep with
  | kept => exact stays ho rfl rfl
  | born _ hn =>
    rw [isNew_unobserved hn] at hst'
    cases hst'
  | changed i rank op r hx hl a hid =>
    cases sight_step c.state.store op a with
    | same hw hsame => exact stays ho hw hsame
    | moved v hw hne hn hop hnone =>
      cases hst'.symm.trans (congrArg Prod.fst hnone)
    | silenced v hv hw hop hd hnone =>
      cases hst'.symm.trans (congrArg Prod.fst hnone)
    | seen v o hv hw hop hrep hoid hd hst hre =>
      rw [hst] at hst'
      cases hst'
      refine ⟨v, hw.trans hv, .inr ?_⟩
      rw [hre, ← hid, ← hoid]
      exact reported_now hlog hs r hl.1 hrep

/-- As at `c₁`, with what was seen there. -/
def KeptThere (c₁ c : AgentConfig) (w : WorkerId) (id : AgentId) (a₁ : Agent) : Prop :=
  UndisturbedSince c₁ c w id →
    ∃ a, row c id = some a ∧ a.workerId = some w ∧ observation a = observation a₁

theorem kept_step {a₁ : Agent} (h₀ : Start c₀)
    (hr : (fleetAgents b).Reaches Machine.always c₀ c) (hlog : c₁.log <:+ c.log)
    (hs : (fleetAgents b).step c x = some c') (h : KeptThere c₁ c w id a₁) :
    KeptThere c₁ c' w id a₁ := by
  intro hund
  obtain ⟨a, ha, hw, hobs⟩ := h fun k hk => hund k (hk.later (Machine.step_log hs))
  have hstep := row_step h₀ hr hs id
  rw [ha] at hstep
  generalize ho : row c' id = o at hstep
  cases hstep with
  | kept => exact ⟨a, rfl, hw, hobs⟩
  | changed i rank op r hx hl a hid =>
    refine ⟨_, rfl, ?_⟩
    obtain ⟨hassign, hsilent⟩ := hund _ (ran_since hlog r)
    cases sight_step c.state.store op a with
    | same hw' hsame => exact ⟨hw'.trans hw, hsame.trans hobs⟩
    | moved v hw' hne hn hop hnone =>
      rw [hid] at hop
      cases hassign v hop
      exact absurd hw hne
    | silenced v hv hw' hop hd hnone =>
      rw [hw] at hv
      cases hv
      exact absurd hop hsilent
    | seen v o hv hw' hop hrep hoid hd hst hre =>
      rw [hw] at hv
      cases hv
      exact absurd hop hsilent

theorem observed_placed (h₀ : Start c₀) (hnone : c₀.state.store.agents.rows = [])
    (h : (fleetAgents b).Reaches Machine.always c₀ c) {a : Agent} {status : AgentObservedStatus}
    (ha : row c id = some a) (hst : a.observedStatus = some status) : ∃ w, a.workerId = some w := by
  have hseen : SeenThere c₀ c id := by
    apply h.invariant (P := fun c => SeenThere c₀ c id)
    · intro a status ha
      have hm := (Keyed.get_eq_some.mp ha).1
      rw [hnone] at hm
      cases hm
    · intro c x c' hr _ hs hp
      exact seen_step h₀ hr hr.log_suffix hs hp
  obtain ⟨w, hw, -⟩ := hseen a status ha hst
  exact ⟨w, hw⟩

/-- The second gate, between any two moments `c₁` and `c` of a run from an empty table. -/
theorem placement_gated (h₀ : Start c₀) (hnone : c₀.state.store.agents.rows = [])
    (h₁ : (fleetAgents b).Reaches Machine.always c₀ c₁)
    (h : (fleetAgents b).Reaches Machine.always c₁ c) (id : AgentId) :
    (∀ a₁ w a, row c₁ id = some a₁ → a₁.workerId = some w → a₁.observedStatus = some .running →
      row c id = some a → a.workerId ≠ some w → DeniedSince c₁ c w id) ∧
    SeenThere c₁ c id ∧
    ∀ a₁ w, row c₁ id = some a₁ → a₁.workerId = some w → KeptThere c₁ c w id a₁ := by
  refine ⟨?_, ?_, ?_⟩
  · intro a₁ w a ha₁ hw₁ hobs ha hw
    have hheld : HeldOrDenied c₁ c w id := by
      apply h.invariant (P := fun c => HeldOrDenied c₁ c w id)
      · exact .inl ⟨a₁, ha₁, hw₁, hobs⟩
      · intro c x c' hr _ hs hp
        exact held_step h₀ (h₁.trans hr) hr.log_suffix hs hp
    rcases hheld with ⟨a', ha', hw', -⟩ | hd
    · rw [ha] at ha'
      cases ha'
      exact absurd hw' hw
    · exact hd
  · apply h.invariant (P := fun c => SeenThere c₁ c id)
    · intro a status ha hst
      obtain ⟨w, hw⟩ := observed_placed h₀ hnone h₁ ha hst
      exact ⟨w, hw, .inl ⟨a, ha, hw, rfl⟩⟩
    · intro c x c' hr _ hs hp
      exact seen_step h₀ (h₁.trans hr) hr.log_suffix hs hp
  · intro a₁ w ha₁ hw₁
    apply h.invariant (P := fun c => KeptThere c₁ c w id a₁)
    · exact fun _ => ⟨a₁, ha₁, hw₁, rfl⟩
    · intro c x c' hr _ hs hp
      exact kept_step h₀ (h₁.trans hr) hr.log_suffix hs hp

end Runs

/-- An agent is seen running at its worker, which then denies it, and is moved. -/
def seenRunning : List AgentAction :=
  serving 0 (.createAgent (agentFor 1 1)) 2 ++
    serving 1 (.applyAgentObservations ⟨1⟩ [.running ⟨1⟩]) 3

def deniedAndMoved : List AgentAction :=
  serving 2 (.applyAgentObservations ⟨1⟩ []) 2 ++
    serving 3 (.assignAgentWorker ⟨1⟩ ⟨2⟩ none) 4

theorem moved_agent_was_denied :
    DeniedSince ((fleetAgents .pg).after (idleFleet none) seenRunning)
      ((fleetAgents .pg).after ((fleetAgents .pg).after (idleFleet none) seenRunning)
        deniedAndMoved) ⟨1⟩ ⟨1⟩ :=
  (placement_gated (idleFleet_start none) rfl
    (Machine.after_reaches (M := fleetAgents .pg) seenRunning)
    (Machine.after_reaches (M := fleetAgents .pg) deniedAndMoved) ⟨1⟩).1 _ ⟨1⟩ _ rfl rfl rfl rfl
      (by decide)

end FleetOrchestrator.Agents
