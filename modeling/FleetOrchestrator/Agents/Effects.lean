import FleetOrchestrator.Agents.Calls

/-! What each statement makes of a row of the agents' table. Only a creation adds a row. -/

namespace FleetOrchestrator.Agents

open Core Tables Store Interleaving

def ackRow (w : WorkerId) (a : Agent) (ack : AgentAck) : Agent :=
  if ackApplies w ack a then acked ack.generation a else a

def silence (w : WorkerId) (spoken : List AgentId) (a : Agent) : Agent :=
  if unspoken w spoken a then unobserved a else a

def observeRow (now : ℤ) (w : WorkerId) (a : Agent) (o : AgentObservation) : Agent :=
  if a.id = o.agentId ∧ a.workerId = some w then observed now o a else a

/-- The verdict of the in-memory assignment, for the row that it is about. -/
def grants (s : StoreState) (id : AgentId) (w : WorkerId) (cap : Option (Option ℕ))
    (a : Agent) : Bool :=
  match cap with
  | none => false
  | some cap =>
    !full cap (countOthers s w id) && !(a.observedStatus = some .running && a.workerId ≠ some w)

def Statement.onRow (s : StoreState) : Statement → Agent → Agent
  | .statusLocked id status, a => if a.id = id then MemStore.withStatus s.now status a else a
  | .updateStatus id status, a => if a.id = id then PgStore.withStatus s.now status a else a
  | .assignLocked id w cap fence, a =>
    if a.id = id ∧ grants s id w cap a then MemStore.placed s.now w fence a else a
  | .updatePlacement id w fence, a =>
    if PgStore.claimable s id w fence a then PgStore.placed s.now w fence a else a
  | .desireLocked id desired fence, a =>
    if a.id = id then MemStore.desire s.now desired fence a else a
  | .updateDesired id desired fence, a =>
    if PgStore.issuable s id fence a then PgStore.desire s.now desired fence a else a
  | .ackLocked w acks, a => acks.foldl (ackRow w) a
  | .updateAcked w ack, a => ackRow w a ack
  | .observeLocked w os, a =>
    os.foldl (observeRow s.now w) (silence w (os.map AgentObservation.agentId) a)
  | .clearUnspoken w spoken, a => silence w spoken a
  | .updateObserved now w o, a => observeRow now w a o
  | _, a => a

/-- The agent that the statement may add. -/
def Statement.creates : Statement → Option Agent
  | .createLocked agent _ => some agent
  | .insertAgent agent _ => some agent
  | _ => none

section Keeps

variable {γ : Type} (g : Agent → γ) {w : WorkerId}

/-- What an acknowledgement does not write, it keeps. -/
theorem ackRow_keeps (hg : ∀ k a, g (acked k a) = g a) (a : Agent) (ack : AgentAck) :
    g (ackRow w a ack) = g a := by
  unfold ackRow
  split
  · exact hg ack.generation a
  · rfl

theorem ackRows_keeps (hg : ∀ k a, g (acked k a) = g a) (acks : List AgentAck) (a : Agent) :
    g (acks.foldl (ackRow w) a) = g a := by
  induction acks generalizing a with
  | nil => rfl
  | cons ack acks ih => rw [List.foldl_cons, ih, ackRow_keeps g hg]

theorem silence_keeps (hg : ∀ a, g (unobserved a) = g a) (spoken : List AgentId) (a : Agent) :
    g (silence w spoken a) = g a := by
  unfold silence
  split
  · exact hg a
  · rfl

theorem observeRow_keeps (hg : ∀ now o a, g (observed now o a) = g a) (now : ℤ) (a : Agent)
    (o : AgentObservation) : g (observeRow now w a o) = g a := by
  unfold observeRow
  split
  · exact hg now o a
  · rfl

theorem observeRows_keeps (hg : ∀ now o a, g (observed now o a) = g a) (now : ℤ)
    (os : List AgentObservation) (a : Agent) : g (os.foldl (observeRow now w) a) = g a := by
  induction os generalizing a with
  | nil => rfl
  | cons o os ih => rw [List.foldl_cons, ih, observeRow_keeps g hg]

theorem observeLocked_keeps (hu : ∀ a, g (unobserved a) = g a)
    (ho : ∀ now o a, g (observed now o a) = g a) (s : StoreState) (os : List AgentObservation)
    (a : Agent) : g ((Statement.observeLocked w os).onRow s a) = g a :=
  (observeRows_keeps g ho s.now os _).trans (silence_keeps g hu _ a)

end Keeps

theorem onRow_id (s : StoreState) (op : Statement) (a : Agent) : (op.onRow s a).id = a.id := by
  cases op with
  | ackLocked w acks => exact ackRows_keeps Agent.id (fun _ _ => rfl) acks a
  | updateAcked w ack => exact ackRow_keeps Agent.id (fun _ _ => rfl) a ack
  | observeLocked w os =>
    exact observeLocked_keeps Agent.id (fun _ => rfl) (fun _ _ _ => rfl) s os a
  | clearUnspoken w spoken => exact silence_keeps Agent.id (fun _ => rfl) spoken a
  | updateObserved now w o => exact observeRow_keeps Agent.id (fun _ _ _ => rfl) now a o
  | statusLocked id status =>
    simp only [Statement.onRow]
    split
    · exact MemStore.withStatus_id s.now status a
    · rfl
  | assignLocked id w cap fence =>
    simp only [Statement.onRow]
    split
    · exact MemStore.placed_id s.now w fence a
    · rfl
  | desireLocked id desired fence =>
    simp only [Statement.onRow]
    split
    · exact MemStore.desire_id s.now desired fence a
    · rfl
  | updateStatus id status =>
    simp only [Statement.onRow]
    split <;> rfl
  | updatePlacement id w fence =>
    simp only [Statement.onRow]
    split
    · exact PgStore.placed_id s.now w fence a
    · rfl
  | updateDesired id desired fence =>
    simp only [Statement.onRow]
    split <;> rfl
  | _ => rfl

section Rows

variable {s : StoreState} {t : AgentTable} {id : AgentId} {a : Agent} {f g : Agent → Agent}

theorem map_of_present (h : t.get id = some a) (hf : ∀ r, r.id ≠ id → f r = g r)
    (ha : f a = g a) : t.rows.map f = t.rows.map g := by
  apply List.map_congr_left
  intro r hr
  by_cases hid : r.id = id
  · have hra : t.get id = some r := Keyed.get_eq_some.mpr ⟨hr, hid⟩
    rw [h] at hra
    cases hra
    exact ha
  · exact hf r hid

theorem map_of_absent (h : t.get id = none) (hf : ∀ r, r.id ≠ id → f r = r) :
    t.rows.map f = t.rows := by
  conv_rhs => rw [← List.map_id t.rows]
  apply List.map_congr_left
  intro r hr
  exact hf r (Keyed.get_eq_none.mp h r hr)

theorem map_of_same (h : t.get id = some a) (hf : ∀ r, r.id ≠ id → f r = r) (ha : f a = a) :
    t.rows.map f = t.rows := by
  conv_rhs => rw [← List.map_id t.rows]
  exact map_of_present h hf ha

theorem statusLocked_rows (status : AgentStatus) :
    (MemStore.statusLocked s id status).2.agents.rows =
      s.agents.rows.map ((Statement.statusLocked id status).onRow s) := by
  unfold MemStore.statusLocked
  cases h : s.agents.get id with
  | none => exact (map_of_absent h fun r hr => if_neg hr).symm
  | some a => simp [Keyed.modify, Keyed.updateWhere, Statement.onRow]

theorem desireLocked_rows (desired : AgentDesiredStatus) (fence : Option ControlFence) :
    (MemStore.desireLocked s id desired fence).2.agents.rows =
      s.agents.rows.map ((Statement.desireLocked id desired fence).onRow s) := by
  unfold MemStore.desireLocked
  cases h : s.agents.get id with
  | none => exact (map_of_absent h fun r hr => if_neg hr).symm
  | some a => simp [Keyed.modify, Keyed.updateWhere, Statement.onRow]

theorem assignLocked_rows (w : WorkerId) (cap : Option (Option ℕ)) (fence : Option ControlFence) :
    (MemStore.assignLocked s id w cap fence).2.agents.rows =
      s.agents.rows.map ((Statement.assignLocked id w cap fence).onRow s) := by
  unfold MemStore.assignLocked
  have hne : ∀ r : Agent, r.id ≠ id → (Statement.assignLocked id w cap fence).onRow s r = r :=
    fun r hr => if_neg fun h => hr h.1
  cases h : s.agents.get id with
  | none => exact (map_of_absent h hne).symm
  | some a =>
    have hid : a.id = id := Keyed.get_key h
    cases cap with
    | none => exact (map_of_same h hne (if_neg (by simp [grants]))).symm
    | some cap =>
      dsimp only
      by_cases hfull : full cap (countOthers s w id) = true
      · rw [if_pos hfull]
        exact (map_of_same h hne (if_neg (by simp [grants, hfull]))).symm
      · rw [if_neg hfull]
        by_cases hobs : a.observedStatus = some .running ∧ a.workerId ≠ some w
        · rw [if_pos hobs]
          exact (map_of_same h hne (if_neg (by simp [grants, hobs]))).symm
        · rw [if_neg hobs]
          have hg : grants s id w (some cap) a = true := by
            simpa [grants, hfull, or_iff_not_imp_left] using hobs
          apply map_of_present h
          · intro r hr
            rw [hne r hr]
            simp [hr]
          · simp [Statement.onRow, hid, hg]

theorem ackOne_rows (w : WorkerId) (ack : AgentAck) :
    (MemStore.ackOne s w ack).2.agents.rows = s.agents.rows.map fun a => ackRow w a ack := by
  unfold MemStore.ackOne
  have hne : ∀ r : Agent, r.id ≠ ack.agentId → ackRow w r ack = r :=
    fun r hr => if_neg (by simp [ackApplies, hr])
  cases h : s.agents.get ack.agentId with
  | none => exact (map_of_absent h hne).symm
  | some a =>
    dsimp only
    by_cases ha : ackApplies w ack a = true
    · rw [if_pos ha]
      apply map_of_present h
      · intro r hr
        rw [hne r hr]
        simp [hr]
      · simp [ackRow, ha, Keyed.get_key h]
    · rw [if_neg ha]
      exact (map_of_same h hne (if_neg ha)).symm

theorem ackLocked_rows (w : WorkerId) (acks : List AgentAck) :
    (MemStore.ackLocked s w acks).2.agents.rows =
      s.agents.rows.map ((Statement.ackLocked w acks).onRow s) := by
  induction acks generalizing s with
  | nil => exact (List.map_id _).symm
  | cons ack acks ih =>
    simp only [MemStore.ackLocked, ih, ackOne_rows, List.map_map]
    rfl

theorem observeOne_rows (now : ℤ) (w : WorkerId) (o : AgentObservation) :
    (MemStore.observeOne s now w o).2.agents.rows =
      s.agents.rows.map fun a => observeRow now w a o := by
  unfold MemStore.observeOne
  have hne : ∀ r : Agent, r.id ≠ o.agentId → observeRow now w r o = r :=
    fun r hr => if_neg fun h => hr h.1
  cases h : s.agents.get o.agentId with
  | none => exact (map_of_absent h hne).symm
  | some a =>
    dsimp only
    by_cases ha : a.workerId = some w
    · rw [if_neg (not_not.mpr ha)]
      apply map_of_present h
      · intro r hr
        rw [hne r hr]
        simp [hr]
      · simp [observeRow, ha, Keyed.get_key h]
    · rw [if_pos ha]
      exact (map_of_same h hne (if_neg fun h => ha h.2)).symm

theorem observeEach_rows (now : ℤ) (w : WorkerId) (os : List AgentObservation) :
    (MemStore.observeEach s now w os).2.agents.rows =
      s.agents.rows.map fun a => os.foldl (observeRow now w) a := by
  induction os generalizing s with
  | nil => simp [MemStore.observeEach]
  | cons o os ih =>
    simp only [MemStore.observeEach, ih, observeOne_rows, List.map_map]
    rfl

theorem clearUnspoken_rows (w : WorkerId) (spoken : List AgentId) :
    (clearUnspoken s w spoken).2.agents.rows = s.agents.rows.map (silence w spoken) := rfl

theorem observeLocked_rows (w : WorkerId) (os : List AgentObservation) :
    (MemStore.observeLocked s w os).2.agents.rows =
      s.agents.rows.map ((Statement.observeLocked w os).onRow s) := by
  simp only [MemStore.observeLocked, observeEach_rows, clearUnspoken_rows, List.map_map]
  rfl

theorem updateObserved_rows (now : ℤ) (w : WorkerId) (o : AgentObservation) :
    (PgStore.updateObserved s now w o).2.agents.rows =
      s.agents.rows.map ((Statement.updateObserved now w o).onRow s) := by
  simp [PgStore.updateObserved, Keyed.updateWhere, Statement.onRow, observeRow]

/-- Every statement that creates nothing changes the rows one by one. -/
theorem rows_effect {rank : AgentId → ℕ} {op : Statement} (h : op.creates = none) :
    (op.effect rank s).2.agents.rows = s.agents.rows.map (op.onRow s) := by
  cases op with
  | createLocked agent cap => cases h
  | insertAgent agent claimed => cases h
  | statusLocked id status => exact statusLocked_rows status
  | assignLocked id w cap fence => exact assignLocked_rows w cap fence
  | desireLocked id desired fence => exact desireLocked_rows desired fence
  | ackLocked w acks => exact ackLocked_rows w acks
  | observeLocked w os => exact observeLocked_rows w os
  | updateObserved now w o => exact updateObserved_rows now w o
  | updateStatus id status =>
    simp [Statement.effect, PgStore.updateStatus, Keyed.updateWhere, Statement.onRow]
  | updatePlacement id w fence => rfl
  | updateDesired id desired fence => rfl
  | updateAcked w ack => rfl
  | clearUnspoken w spoken => rfl
  | _ => exact (List.map_id _).symm

theorem get_effect {rank : AgentId → ℕ} {op : Statement} (h : op.creates = none) (id : AgentId) :
    (op.effect rank s).2.agents.get id = (s.agents.get id).map (op.onRow s) := by
  have hid : (fun a : Agent => decide (a.id = id)) ∘ op.onRow s = fun a => decide (a.id = id) := by
    funext a
    simp only [Function.comp_apply, onRow_id]
  rw [Keyed.get, rows_effect h, List.find?_map, hid, Keyed.get]

end Rows

section Creations

variable {s : StoreState} {agent : Agent}

theorem isNew_withoutPlacement (h : isNew agent = true) : isNew agent.withoutPlacement = true := by
  simp only [isNew, Agent.withoutPlacement, Bool.and_eq_true, decide_eq_true_eq] at h ⊢
  simp [h]

theorem isNew_inserted {claimed : Option WorkerId} {assigned : Option ℤ} (h : isNew agent = true)
    (hp : claimed.isSome = assigned.isSome) :
    isNew (PgStore.insertedRow { agent with workerId := claimed, assignedAt := assigned }) =
      true := by
  simp only [isNew, Bool.and_eq_true, decide_eq_true_eq] at h
  simp [isNew, PgStore.insertedRow, h, hp]

theorem createLocked_rows (cap : Option (Option ℕ)) :
    (MemStore.createLocked s agent cap).2.agents = s.agents ∨
      ∃ row, (MemStore.createLocked s agent cap).2.agents = s.agents.put row ∧
        (row = agent.withoutPlacement ∨
          row = agent ∧ ∃ w c, agent.workerId = some w ∧ cap = some c ∧
            full c (countAgents s w) = false) := by
  unfold MemStore.createLocked
  by_cases hname : s.agents.rows.any fun a => a.projectId = agent.projectId && a.name = agent.name
  · rw [if_pos hname]
    exact .inl rfl
  · rw [if_neg hname]
    cases hpin : MemStore.checkPin s agent.templatePin with
    | error e => exact .inl rfl
    | ok u =>
      cases hw : agent.workerId with
      | none => exact .inr ⟨_, rfl, .inl rfl⟩
      | some w =>
        cases cap with
        | none => exact .inr ⟨_, rfl, .inl rfl⟩
        | some c =>
          dsimp only
          by_cases hfull : full c (countAgents s w) = true
          · rw [if_pos hfull]
            exact .inr ⟨_, rfl, .inl rfl⟩
          · rw [if_neg hfull]
            exact .inr ⟨_, rfl, .inr ⟨rfl, w, c, rfl, rfl, by simpa using hfull⟩⟩

theorem insertAgent_rows (claimed : Option WorkerId) :
    (PgStore.insertAgent s agent claimed).2.agents = s.agents ∨
      ∃ row, (PgStore.insertAgent s agent claimed).2.agents = s.agents.put row ∧
        row.id = agent.id ∧ row.workerId = claimed ∧ row.status = agent.status ∧
        (isNew agent = true → isNew row = true) := by
  unfold PgStore.insertAgent
  dsimp only
  split
  · exact .inl rfl
  · next hplace =>
    split
    · exact .inl rfl
    · split
      · exact .inl rfl
      · split
        · exact .inl rfl
        · split
          · exact .inl rfl
          · exact .inr ⟨_, rfl, rfl, rfl, rfl, fun h => isNew_inserted h (not_not.mp hplace)⟩

/-- A creation adds at most one row: that of its agent, as good as new. -/
theorem created {rank : AgentId → ℕ} {op : Statement} (h : op.creates = some agent) :
    (op.effect rank s).2.agents = s.agents ∨
      ∃ row, (op.effect rank s).2.agents = s.agents.put row ∧ row.id = agent.id ∧
        row.status = agent.status ∧ (isNew agent = true → isNew row = true) := by
  cases op with
  | createLocked a cap =>
    cases h
    rcases @createLocked_rows s agent cap with he | ⟨row, he, rfl | ⟨rfl, -⟩⟩
    · exact .inl he
    · exact .inr ⟨_, he, rfl, rfl, isNew_withoutPlacement⟩
    · exact .inr ⟨_, he, rfl, rfl, fun h => h⟩
  | insertAgent a claimed =>
    cases h
    rcases @insertAgent_rows s agent claimed with he | ⟨row, he, hid, -, hst, hn⟩
    · exact .inl he
    · exact .inr ⟨row, he, hid, hst, hn⟩
  | _ => cases h

end Creations

end FleetOrchestrator.Agents
