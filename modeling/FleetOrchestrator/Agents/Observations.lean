import FleetOrchestrator.Agents.Placement

/-! What a worker's list of observations leaves in the store, in either backend. -/

namespace FleetOrchestrator.Agents

open Core Tables Store Interleaving

/-- The check `agents_observation_complete`. -/
def ObservationComplete (a : Agent) : Prop :=
  observation a = (none, none, none) ∨
    (a.observedStatus = some .running ∧ a.observedAt ≠ none ∧ a.observedReason = none) ∨
    (a.observedStatus = some .failed ∧ a.observedAt ≠ none ∧ a.observedReason ≠ none)

/-- What the list makes of a row: the last word about it, or none. -/
def heard (now : ℤ) (w : WorkerId) (os : List AgentObservation) (a : Agent) : Agent :=
  if a.workerId = some w then
    match os.reverse.find? fun o => o.agentId = a.id with
    | some o => observed now o a
    | none => unobserved a
  else a

def observeAlone (b : Backend) (rank : AgentId → ℕ) (s : StoreState) (w : WorkerId)
    (os : List AgentObservation) : Reply × StoreState :=
  (serve b (.applyAgentObservations w os)).alone (Statement.effect rank) s

section Rows

variable {s : StoreState} {a : Agent} {w : WorkerId} {os : List AgentObservation} {now : ℤ}

theorem complete_observed (now : ℤ) (o : AgentObservation) (a : Agent) :
    ObservationComplete (observed now o a) := by
  cases o with
  | running id => exact Or.inr (Or.inl ⟨rfl, nofun, rfl⟩)
  | failed id reason => exact Or.inr (Or.inr ⟨rfl, nofun, nofun⟩)

theorem complete_of_observation {a' : Agent} (h : ObservationComplete a)
    (he : observation a' = observation a) : ObservationComplete a' := by
  simp only [observation, Prod.mk.injEq] at he
  obtain ⟨hstatus, hat, hreason⟩ := he
  simp only [ObservationComplete, observation, hstatus, hat, hreason]
  exact h

theorem observeRows_last (hw : a.workerId = some w) (os : List AgentObservation) :
    os.foldl (observeRow now w) a =
      match os.reverse.find? fun o => o.agentId = a.id with
      | some o => observed now o a
      | none => a := by
  induction os using List.reverseRecOn with
  | nil => rfl
  | append_singleton os o ih =>
    rw [List.foldl_append, List.foldl_cons, List.foldl_nil, ih, List.reverse_append,
      List.reverse_singleton, List.singleton_append]
    by_cases hid : o.agentId = a.id
    · rw [List.find?_cons_of_pos (by simpa using hid)]
      cases os.reverse.find? fun o => o.agentId = a.id with
      | none => exact if_pos ⟨hid.symm, hw⟩
      | some o' => exact if_pos ⟨hid.symm, hw⟩
    · rw [List.find?_cons_of_neg (by simpa using hid)]
      cases os.reverse.find? fun o => o.agentId = a.id with
      | none => exact if_neg fun h => hid h.1.symm
      | some o' => exact if_neg fun h => hid h.1.symm

theorem unobserved_of_unseen (ha : ObservationComplete a) (hn : a.observedStatus = none) :
    unobserved a = a := by
  rcases ha with h | ⟨h, -⟩ | ⟨h, -⟩
  · simp only [observation, Prod.mk.injEq] at h
    obtain ⟨hstatus, hat, hreason⟩ := h
    rw [unobserved, ← hstatus, ← hat, ← hreason]
  · rw [hn] at h
    cases h
  · rw [hn] at h
    cases h

/-- A complete row that nobody has spoken about is one that nothing is seen of. -/
theorem onRow_heard (ha : ObservationComplete a) :
    (Statement.observeLocked w os).onRow s a = heard s.now w os a := by
  change os.foldl (observeRow s.now w) (silence w (os.map AgentObservation.agentId) a) = _
  by_cases hw : a.workerId = some w
  · rw [heard, if_pos hw]
    cases hlast : os.reverse.find? fun o => o.agentId = a.id with
    | some o =>
      have hspoken : a.id ∈ os.map AgentObservation.agentId := by
        have hmem := List.mem_of_find?_eq_some hlast
        have hid := List.find?_some hlast
        exact List.mem_map.mpr ⟨o, List.mem_reverse.mp hmem, by simpa using hid⟩
      have hsilent : silence w (os.map AgentObservation.agentId) a = a :=
        if_neg (by simp [unspoken, hspoken])
      rw [hsilent, observeRows_last hw, hlast]
    | none =>
      have hunspoken : a.id ∉ os.map AgentObservation.agentId := by
        intro hmem
        obtain ⟨o, ho, hid⟩ := List.mem_map.mp hmem
        have hno := List.find?_eq_none.mp hlast o (List.mem_reverse.mpr ho)
        exact hno (by simpa using hid)
      have hsilent : silence w (os.map AgentObservation.agentId) a = unobserved a := by
        unfold silence
        by_cases hobs : a.observedStatus.isSome
        · exact if_pos (by simp [unspoken, hw, hobs, hunspoken])
        · rw [if_neg (by simp [unspoken, hobs]), unobserved_of_unseen ha (by simpa using hobs)]
      rw [hsilent, observeRows_last (a := unobserved a) hw, show (unobserved a).id = a.id from rfl,
        hlast]
  · have hsilent : silence w (os.map AgentObservation.agentId) a = a :=
      if_neg (by simp [unspoken, hw])
    rw [hsilent, observeRows_elsewhere s.now hw os, heard, if_neg hw]

theorem complete_observeRows (now : ℤ) (w : WorkerId) (os : List AgentObservation)
    (ha : ObservationComplete a) : ObservationComplete (os.foldl (observeRow now w) a) := by
  by_cases hw : a.workerId = some w
  · rcases observeRows_cases now hw os with ⟨-, he⟩ | ⟨o, -, -, he⟩
    · rwa [he]
    · rw [he]
      exact complete_observed now o a
  · rwa [observeRows_elsewhere now hw os]

theorem complete_silence (w : WorkerId) (spoken : List AgentId) (ha : ObservationComplete a) :
    ObservationComplete (silence w spoken a) := by
  rcases silence_cases (w := w) (a := a) spoken with he | ⟨-, -, he⟩
  · rwa [he]
  · rw [he]
    exact .inl rfl

/-- No statement writes a part of what is seen of an agent. -/
theorem complete_onRow (s : StoreState) (op : Statement) (ha : ObservationComplete a) :
    ObservationComplete (op.onRow s a) := by
  cases sight_step s op a with
  | same hw h => exact complete_of_observation ha h
  | moved v hw hne hn ho h => exact .inl h
  | silenced w hw hw' ho hd h => exact .inl h
  | seen w o hw hw' ho hr =>
    cases op with
    | observeLocked v os => exact complete_observeRows s.now v os (complete_silence v _ ha)
    | updateObserved now v o' => exact complete_observeRows now v [o'] ha
    | _ => exact hr.elim

end Rows

section Backends

variable {s : StoreState} {w : WorkerId} {now : ℤ} {rank : AgentId → ℕ}

theorem observeOne_eq (o : AgentObservation) :
    MemStore.observeOne s now w o = PgStore.updateObserved s now w o := by
  have hframe : ∀ t : AgentTable, t.rows = (PgStore.updateObserved s now w o).2.agents.rows →
      { s with agents := t } = (PgStore.updateObserved s now w o).2 := by
    intro t ht
    rw [Keyed.ext ht]
    rfl
  have hrows := (observeOne_rows (s := s) now w o).trans (updateObserved_rows now w o).symm
  apply Prod.ext
  · change _ = s.agents.rowsAffected fun a => decide (a.id = o.agentId) && decide (a.workerId = some w)
    rw [Keyed.rowsAffected_key]
    unfold MemStore.observeOne
    cases s.agents.get o.agentId with
    | none => rfl
    | some a => by_cases ha : a.workerId = some w <;> simp [ha]
  · rw [← hframe _ hrows]
    unfold MemStore.observeOne
    cases s.agents.get o.agentId with
    | none => rfl
    | some a => by_cases ha : a.workerId = some w <;> simp [ha]

theorem writeObservations_alone (os : List AgentObservation) (n : ℕ) :
    (PgStore.writeObservations now w os n).alone (Statement.effect rank) s =
      (n + (MemStore.observeEach s now w os).1, (MemStore.observeEach s now w os).2) := by
  induction os generalizing s n with
  | nil => rfl
  | cons o os ih =>
    change (PgStore.writeObservations now w os
      (n + (PgStore.updateObserved s now w o).1)).alone (Statement.effect rank)
      (PgStore.updateObserved s now w o).2 = _
    rw [ih, ← observeOne_eq, Nat.add_assoc]
    rfl

theorem applyAgentObservations_alone (os : List AgentObservation) :
    (PgStore.applyAgentObservations w os).alone (Statement.effect rank) s =
      MemStore.observeLocked s w os :=
  writeObservations_alone os _

theorem observeAlone_eq (b : Backend) (os : List AgentObservation) :
    observeAlone b rank s w os =
      (.counted (MemStore.observeLocked s w os).1, (MemStore.observeLocked s w os).2) := by
  cases b with
  | mem => rfl
  | pg =>
    change (Reply.counted <$> PgStore.applyAgentObservations w os).alone _ s = _
    rw [Prog.alone_map, applyAgentObservations_alone]

theorem observeEach_frame (os : List AgentObservation) :
    ∃ t, (MemStore.observeEach s now w os).2 = { s with agents := t } := by
  induction os generalizing s with
  | nil => exact ⟨s.agents, rfl⟩
  | cons o os ih =>
    obtain ⟨t, ht⟩ := ih (s := (MemStore.observeOne s now w o).2)
    refine ⟨t, ht.trans ?_⟩
    rw [observeOne_eq]
    rfl

theorem observeLocked_frame (os : List AgentObservation) :
    (MemStore.observeLocked s w os).2 =
      { s with agents := (MemStore.observeLocked s w os).2.agents } := by
  obtain ⟨t, ht⟩ : ∃ t, (MemStore.observeLocked s w os).2 = { s with agents := t } :=
    observeEach_frame (s := (clearUnspoken s w (os.map AgentObservation.agentId)).2) os
  rw [ht]

end Backends

section Twice

variable {w : WorkerId} {os : List AgentObservation} {a : Agent}

theorem heard_worker (now : ℤ) : (heard now w os a).workerId = a.workerId := by
  unfold heard
  split
  · split <;> rfl
  · rfl

theorem heard_id (now : ℤ) : (heard now w os a).id = a.id := by
  unfold heard
  split
  · split <;> rfl
  · rfl

/-- Said again, a list says the same of an agent, if at another time. -/
theorem heard_twice (now later : ℤ) :
    (heard later w os (heard now w os a)).observedStatus = (heard now w os a).observedStatus ∧
      (heard later w os (heard now w os a)).observedReason =
        (heard now w os a).observedReason := by
  by_cases hw : a.workerId = some w
  · have hagain : (heard now w os a).workerId = some w := (heard_worker now).trans hw
    rw [heard, if_pos hagain, heard_id, heard, if_pos hw]
    cases os.reverse.find? fun o => o.agentId = a.id with
    | some o => exact ⟨rfl, rfl⟩
    | none => exact ⟨rfl, rfl⟩
  · have hsame (now : ℤ) : heard now w os a = a := if_neg hw
    rw [hsame, hsame]
    exact ⟨rfl, rfl⟩

end Twice

section Runs

variable {b : Backend} {c₀ c : AgentConfig}

theorem isNew_complete {a : Agent} (h : isNew a = true) : ObservationComplete a := by
  simp only [isNew, Bool.and_eq_true, Option.isNone_iff_eq_none] at h
  exact .inl (by simp [observation, h])

/-- In every run the rows are as the check wants them. -/
theorem reached_complete (h₀ : Start c₀) (hr : (fleetAgents b).Reaches Machine.always c₀ c)
    (hc : ∀ a ∈ c₀.state.store.agents.rows, ObservationComplete a) :
    ∀ a ∈ c.state.store.agents.rows, ObservationComplete a := by
  have hget : ∀ id a, row c id = some a → ObservationComplete a := by
    apply hr.invariant (P := fun c => ∀ id a, row c id = some a → ObservationComplete a)
    · intro id a ha
      exact hc a (Keyed.get_eq_some.mp ha).1
    · intro c x c' hr _ hs h id a' ha'
      have hstep := row_step h₀ hr hs id
      rw [ha'] at hstep
      generalize ho : row c id = o at hstep
      cases hstep with
      | kept => exact h id a' ho
      | changed i rank op r hx hl a hid => exact complete_onRow _ op (h id a ho)
      | born _ hn => exact isNew_complete hn
  intro a ha
  exact hget a.id a (Keyed.get_of_mem ha)

end Runs

section Lists

variable {b : Backend} {rank : AgentId → ℕ} {s : StoreState} {w : WorkerId}
  {os : List AgentObservation}

theorem observeAlone_get (hs : ∀ a ∈ s.agents.rows, ObservationComplete a) (id : AgentId) :
    (observeAlone b rank s w os).2.agents.get id =
      (s.agents.get id).map (heard s.now w os) := by
  have heffect := @get_effect s rank (.observeLocked w os) rfl id
  rw [observeAlone_eq]
  refine heffect.trans ?_
  cases h : s.agents.get id with
  | none => rfl
  | some a => exact congrArg some (onRow_heard (hs a (Keyed.get_eq_some.mp h).1))

theorem observeAlone_complete (hs : ∀ a ∈ s.agents.rows, ObservationComplete a) :
    ∀ a ∈ (observeAlone b rank s w os).2.agents.rows, ObservationComplete a := by
  rw [observeAlone_eq]
  intro a ha
  rw [observeLocked_rows] at ha
  obtain ⟨a₀, ha₀, rfl⟩ := List.mem_map.mp ha
  exact complete_onRow s _ (hs a₀ ha₀)

/-- The list is the whole truth about the worker's agents, and about nothing else. -/
theorem observations_exact (rank : AgentId → ℕ) (s : StoreState) (w : WorkerId)
    (os : List AgentObservation) (hs : ∀ a ∈ s.agents.rows, ObservationComplete a) :
    observeAlone .pg rank s w os = observeAlone .mem rank s w os ∧
      ∀ b : Backend,
        (∀ id, (observeAlone b rank s w os).2.agents.get id =
          (s.agents.get id).map (heard s.now w os)) ∧
        (observeAlone b rank s w os).2 =
          { s with agents := (observeAlone b rank s w os).2.agents } ∧
        (∀ a ∈ (observeAlone b rank s w os).2.agents.rows, ObservationComplete a) ∧
        ∀ (later : ℤ) (id : AgentId),
          let once := (observeAlone b rank s w os).2
          let twice := (observeAlone b rank { once with now := later } w os).2
          (twice.agents.get id).map (fun a => (a.observedStatus, a.observedReason)) =
            (once.agents.get id).map fun a => (a.observedStatus, a.observedReason) := by
  refine ⟨(observeAlone_eq .pg os).trans (observeAlone_eq .mem os).symm, ?_⟩
  intro b
  have hcomplete := @observeAlone_complete b rank s w os hs
  refine ⟨observeAlone_get hs, ?_, hcomplete, ?_⟩
  · rw [observeAlone_eq]
    exact observeLocked_frame os
  · intro later id once twice
    have htwice : twice.agents.get id = (once.agents.get id).map (heard later w os) :=
      observeAlone_get (s := { once with now := later }) hcomplete id
    rw [htwice, observeAlone_get hs]
    cases s.agents.get id with
    | none => rfl
    | some a =>
      obtain ⟨hstatus, hreason⟩ := @heard_twice w os a s.now later
      simp only [Option.map_some, hstatus, hreason]

/-- One agent seen running on each of two workers. -/
def seenStore : StoreState :=
  let seen (n w : ℕ) : Agent := observed 0 (.running ⟨n⟩) (agentFor n w)
  { idleStore none with agents := ⟨[seen 7 1, seen 8 2], by simp [seen, agentFor, observed]⟩ }

theorem observations_exact_foreign :
    ((observeAlone .pg (fun id => id.uuid) seenStore ⟨1⟩
      [.failed ⟨8⟩ .spawnFailed]).2.agents.get ⟨7⟩).map observation = some (none, none, none) := by
  have hs : ∀ a ∈ seenStore.agents.rows, ObservationComplete a := by
    intro a ha
    rcases List.mem_cons.mp ha with rfl | ha
    · exact complete_observed 0 _ _
    · rw [List.mem_singleton.mp ha]
      exact complete_observed 0 _ _
  have h := observations_exact (fun id => id.uuid) seenStore ⟨1⟩ [.failed ⟨8⟩ .spawnFailed] hs
  rw [(h.2 .pg).1 ⟨7⟩]
  rfl

end Lists

end FleetOrchestrator.Agents
