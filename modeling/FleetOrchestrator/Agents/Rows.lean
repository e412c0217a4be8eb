import FleetOrchestrator.Agents.Runs

/-! One agent's row along a run: it appears once, with a fresh id, and then every statement makes
of it what it makes of a row. -/

namespace FleetOrchestrator.Agents

open Core Tables Store Interleaving

def row (c : AgentConfig) (id : AgentId) : Option Agent := c.state.store.agents.get id

/-- The request that the thread `i` serves. -/
def Serving (c : AgentConfig) (i : ℕ) (request : Request) : Prop :=
  ∃ t, c.threads[i]? = some t ∧ t.act = request

section Steps

variable {b : Backend} {c c' : AgentConfig} {i : ℕ} {ch : AgentId → ℕ} {op : Statement}
  {x : AgentAction} {request : Request} {cond : AgentConfig → AgentAction → Prop}

theorem settle_store (p : ℕ) (w : World) (op : Statement) (r : op.Resp) :
    (op.settle p w r).store = w.store := by
  cases op with
  | lockWorker v => cases r <;> rfl
  | updatePlacement id v fence =>
    simp only [Statement.settle]
    split <;> rfl
  | _ => rfl

theorem settle_minted (p : ℕ) (w : World) (op : Statement) (r : op.Resp) :
    (op.settle p w r).minted = w.minted := by
  cases op with
  | lockWorker v => cases r <;> rfl
  | updatePlacement id v fence =>
    simp only [Statement.settle]
    split <;> rfl
  | _ => rfl

theorem ran_exec (r : (fleetAgents b).Ran c c' i ch op) :
    op.waits r.party c.state = false ∧ r.resp = (op.effect ch c.state.store).1 ∧
      c'.state = op.settle r.party (c.state.withStore (op.effect ch c.state.store).2) r.resp := by
  have hd : op.exec ch r.party c.state = some (r.resp, c'.state) := r.done
  unfold Statement.exec at hd
  by_cases hw : op.waits r.party c.state = true
  · rw [if_pos hw] at hd
    cases hd
  · rw [if_neg hw] at hd
    obtain ⟨hr, hs⟩ := Prod.mk.inj (Option.some.inj hd)
    refine ⟨by simpa using hw, hr.symm, ?_⟩
    rw [← hs, hr]

theorem ran_store (r : (fleetAgents b).Ran c c' i ch op) :
    c'.state.store = (op.effect ch c.state.store).2 := by
  rw [(ran_exec r).2.2, settle_store]
  rfl

theorem ran_minted (r : (fleetAgents b).Ran c c' i ch op) : c'.state.minted = c.state.minted := by
  rw [(ran_exec r).2.2, settle_minted]
  rfl

/-- What accepting a call leaves alone, and what it asks of a creation. -/
theorem start_state {p : ℕ} (hs : (fleetAgents b).step c (.start p request) = some c') :
    c'.state.store = c.state.store ∧
      (∀ agent, request = .createAgent agent →
        isNew agent = true ∧ agent.id ∉ c.state.minted ∧
          c'.state.minted = agent.id :: c.state.minted) ∧
      ((∀ agent, request ≠ .createAgent agent) → c'.state.minted = c.state.minted) := by
  have ha : accept p request c.state = some c'.state := (Machine.step_start hs).1
  unfold accept at ha
  by_cases hp : c.state.connections.contains p = true
  · rw [if_pos hp] at ha
    cases ha
  · rw [if_neg hp] at ha
    cases request with
    | createAgent agent =>
      simp only [Option.ite_none_right_eq_some, Bool.and_eq_true, Bool.not_eq_true',
        Option.some.injEq] at ha
      obtain ⟨⟨hn, hm⟩, he⟩ := ha
      rw [← he]
      refine ⟨rfl, ?_, fun h => absurd rfl (h agent)⟩
      intro a hc
      cases hc
      exact ⟨hn, by simpa using hm, rfl⟩
    | ackAgentCommands w acks =>
      simp only [Option.ite_none_right_eq_some, Option.some.injEq] at ha
      rw [← ha.2]
      refine ⟨rfl, ?_, fun _ => rfl⟩
      intro a hc
      cases hc
    | _ =>
      simp only [Option.some.injEq] at ha
      rw [← ha]
      refine ⟨rfl, ?_, fun _ => rfl⟩
      intro a hc
      cases hc

theorem env_state {s : StoreState} (hs : (fleetAgents b).step c (.env s) = some c') :
    c'.state = c.state.withStore s ∧ s.agents = c.state.store.agents := by
  have hd : (fleetAgents b).disturb s c.state = some c'.state := (Machine.step_env hs).1
  simp only [fleetAgents, Option.ite_none_right_eq_some, Option.some.injEq] at hd
  exact ⟨hd.2.symm, Keyed.ext hd.1⟩

theorem serving_step (hs : (fleetAgents b).step c x = some c') (h : Serving c i request) :
    Serving c' i request := by
  obtain ⟨t, ht, ha⟩ := h
  obtain ⟨t', ht', -, ha'⟩ := Machine.step_thread hs ht
  exact ⟨t', ht', ha'.trans ha⟩

theorem serving_origin (hs : (fleetAgents b).step c x = some c') (h : Serving c' i request) :
    Serving c i request ∨ ∃ p, x = .start p request ∧ i = c.threads.length := by
  obtain ⟨t, ht, ha⟩ := h
  rcases Machine.thread_origin hs ht with ⟨t₀, ht₀, -, ha₀⟩ | ⟨-, ⟨p, a, hx, rfl, hi⟩ | hsp⟩
  · exact .inl ⟨t₀, ht₀, ha₀.trans ha⟩
  · cases ha
    exact .inr ⟨p, hx, hi⟩
  · obtain ⟨j, ch, op, r, a, hm, -⟩ := hsp
    cases hm

theorem ran_serving (r : (fleetAgents b).Ran c c' i ch op) : Serving c i r.act := ⟨_, r.was, rfl⟩

end Steps

/-- Every agent's id was minted for the one call that creates it, and until then has no row. -/
structure Minted (c : AgentConfig) : Prop where
  ids : ∀ a ∈ c.state.store.agents.rows, a.id ∈ c.state.minted
  creators : ∀ i agent, Serving c i (.createAgent agent) →
    isNew agent = true ∧ agent.id ∈ c.state.minted
  single : ∀ i j agent other, Serving c i (.createAgent agent) →
    Serving c j (.createAgent other) → agent.id = other.id → i = j
  unborn : ∀ i agent, Serving c i (.createAgent agent) →
    (∀ e ∈ history c.log i, e.op.creates = none) → row c agent.id = none

section Runs

variable {b : Backend} {c₀ c c' : AgentConfig} {cond : AgentConfig → AgentAction → Prop} {i : ℕ}

theorem minted_row {id : AgentId} (h : Minted c) (hid : id ∉ c.state.minted) : row c id = none := by
  apply Keyed.get_eq_none.mpr
  rintro a ha rfl
  exact hid (h.ids a ha)

theorem minted_start {p : ℕ} {request : Request} (h : Minted c)
    (hs : (fleetAgents b).step c (.start p request) = some c') : Minted c' := by
  obtain ⟨hstore, hcreate, hother⟩ := start_state hs
  obtain ⟨-, -, hlog⟩ := Machine.step_start hs
  have hsub : c.state.minted ⊆ c'.state.minted := by
    by_cases hc : ∃ agent, request = .createAgent agent
    · obtain ⟨agent, rfl⟩ := hc
      rw [(hcreate agent rfl).2.2]
      exact List.subset_cons_self _ _
    · rw [hother fun agent he => hc ⟨agent, he⟩]
      exact List.Subset.refl _
  have hcreator : ∀ i agent, Serving c' i (.createAgent agent) → Serving c i (.createAgent agent) ∨
      (i = c.threads.length ∧ isNew agent = true ∧ agent.id ∉ c.state.minted ∧
        c'.state.minted = agent.id :: c.state.minted) := by
    intro i agent hserve
    rcases serving_origin hs hserve with hold | ⟨q, he, hi⟩
    · exact .inl hold
    · cases he
      exact .inr ⟨hi, hcreate agent rfl⟩
  constructor
  · intro a ha
    rw [hstore] at ha
    exact hsub (h.ids a ha)
  · intro i agent hserve
    rcases hcreator i agent hserve with hold | ⟨-, hn, -, hm⟩
    · exact ⟨(h.creators i agent hold).1, hsub (h.creators i agent hold).2⟩
    · rw [hm]
      exact ⟨hn, List.mem_cons_self⟩
  · intro i j agent other hi hj he
    rcases hcreator i agent hi with hi | ⟨hi, -, hni, -⟩
    · rcases hcreator j other hj with hj | ⟨-, -, hnj, -⟩
      · exact h.single i j agent other hi hj he
      · rw [← he] at hnj
        exact absurd (h.creators i agent hi).2 hnj
    · rcases hcreator j other hj with hj | ⟨hj, -⟩
      · rw [he] at hni
        exact absurd (h.creators j other hj).2 hni
      · rw [hi, hj]
  · intro i agent hserve hno
    rw [row, hstore]
    rw [hlog] at hno
    rcases hcreator i agent hserve with hold | ⟨-, -, hn, -⟩
    · exact h.unborn i agent hold hno
    · exact minted_row h hn

theorem minted_env {s : StoreState} (h : Minted c)
    (hs : (fleetAgents b).step c (.env s) = some c') : Minted c' := by
  obtain ⟨hstate, hrows⟩ := env_state hs
  obtain ⟨-, hts, hlog⟩ := Machine.step_env hs
  have hserve : ∀ {i request}, Serving c' i request → Serving c i request := by
    rintro i request ⟨t, ht, ha⟩
    rw [hts] at ht
    exact ⟨t, ht, ha⟩
  constructor
  · intro a ha
    rw [hstate] at ha ⊢
    exact h.ids a (by rwa [← hrows])
  · intro i agent hi
    rw [hstate]
    exact h.creators i agent (hserve hi)
  · intro i j agent other hi hj he
    exact h.single i j agent other (hserve hi) (hserve hj) he
  · intro i agent hi hno
    rw [hlog] at hno
    have hrow := h.unborn i agent (hserve hi) hno
    rw [row, hstate]
    exact (congrArg (fun t : AgentTable => t.get agent.id) hrows).trans hrow

theorem row_read {op : Statement} {rank : AgentId → ℕ} (r : (fleetAgents b).Ran c c' i rank op)
    (hc : op.creates = none) (id : AgentId) :
    row c' id = (row c id).map (op.onRow c.state.store) := by
  rw [row, ran_store r, get_effect hc]
  rfl

theorem ran_created {op : Statement} {rank : AgentId → ℕ} {agent : Agent}
    (r : (fleetAgents b).Ran c c' i rank op) (hc : op.creates = some agent) :
    c'.state.store.agents = c.state.store.agents ∨
      ∃ a, c'.state.store.agents = c.state.store.agents.put a ∧ a.id = agent.id ∧
        (isNew agent = true → isNew a = true) := by
  rw [ran_store r]
  rcases created hc with he | ⟨a, he, hid, -, hn⟩
  · exact .inl he
  · exact .inr ⟨a, he, hid, hn⟩

theorem minted_run {rank : AgentId → ℕ} (h : Minted c)
    (hs : (fleetAgents b).step c (.run i rank) = some c')
    (hl : ∀ op (r : (fleetAgents b).Ran c c' i rank op), Serves r.act op) : Minted c' := by
  obtain ⟨op, ⟨r⟩⟩ := Machine.step_run hs
  have hminted : c'.state.minted = c.state.minted := ran_minted r
  have hserve : ∀ {j request}, Serving c' j request → Serving c j request := by
    intro j request hj
    rcases serving_origin hs hj with hj | ⟨p, he, -⟩
    · exact hj
    · cases he
  have hhist : ∀ j, history c.log j <:+ history c'.log j :=
    fun j => history_suffix (Machine.step_log hs) j
  have hids : ∀ a ∈ c'.state.store.agents.rows, a.id ∈ c.state.minted := by
    intro a ha
    cases hc : op.creates with
    | none =>
      rw [ran_store r, rows_effect hc] at ha
      obtain ⟨a₀, ha₀, rfl⟩ := List.mem_map.mp ha
      rw [onRow_id]
      exact h.ids a₀ ha₀
    | some agent =>
      have hact := creates_request (hl op r) hc
      have hi : Serving c i (.createAgent agent) := hact ▸ ran_serving r
      rcases ran_created r hc with he | ⟨a₁, he, hid, -⟩
      · rw [he] at ha
        exact h.ids a ha
      · rw [he] at ha
        rcases List.mem_append.mp ha with ha | ha
        · exact h.ids a (List.mem_of_mem_filter ha)
        · rw [List.mem_singleton.mp ha, hid]
          exact (h.creators i agent hi).2
  constructor
  · rw [hminted]
    exact hids
  · intro j agent hj
    rw [hminted]
    exact h.creators j agent (hserve hj)
  · intro j k agent other hj hk he
    exact h.single j k agent other (hserve hj) (hserve hk) he
  · intro j agent hj hno
    have hold : row c agent.id = none :=
      h.unborn j agent (hserve hj) fun e he => hno e ((hhist j).subset he)
    cases hc : op.creates with
    | none =>
      rw [row_read r hc, hold]
      rfl
    | some other =>
      have hact := creates_request (hl op r) hc
      have hi : Serving c i (.createAgent other) := hact ▸ ran_serving r
      rcases ran_created r hc with he | ⟨a₁, he, hid, -⟩
      · rw [row, he]
        exact hold
      · have hne : agent.id ≠ a₁.id := by
          intro heq
          have hij := h.single j i agent other (hserve hj) hi (heq.trans hid)
          subst hij
          have hmem : (⟨op, r.resp⟩ : Entry Statement Statement.Resp) ∈ history c'.log j := by
            rw [r.after.2]
            exact List.mem_cons_self
          have := hno _ hmem
          rw [hc] at this
          cases this
        rw [row, he, Keyed.get_put_ne hne]
        exact hold

theorem start_minted (h : Start c) : Minted c := by
  have hno : ∀ {i request}, ¬ Serving c i request := by
    rintro i request ⟨t, ht, -⟩
    rw [h.fresh.threads] at ht
    cases ht
  exact ⟨h.minted, fun i a hi => absurd hi hno, fun i _ _ _ hi => absurd hi hno,
    fun i a hi => absurd hi hno⟩

theorem ran_serves {op : Statement} {rank : AgentId → ℕ} (h₀ : Start c₀)
    (h : (fleetAgents b).Reaches cond c₀ c) (r : (fleetAgents b).Ran c c' i rank op) :
    Licensed r.act (history c.log i) op :=
  r.licensed (calls_disciplined b) h₀.fresh h

theorem reached_minted (h₀ : Start c₀) (h : (fleetAgents b).Reaches cond c₀ c) : Minted c := by
  apply h.invariant (start_minted h₀)
  intro c x c' hr _ hs hm
  cases x with
  | start p request => exact minted_start hm hs
  | run i rank => exact minted_run hm hs fun op r => (ran_serves h₀ hr r).1
  | env s => exact minted_env hm hs

/-- What a step can make of one agent's row. -/
inductive RowStep (b : Backend) (c c' : AgentConfig) (x : AgentAction) (id : AgentId) :
    Option Agent → Option Agent → Prop
  | kept (o : Option Agent) : RowStep b c c' x id o o
  | changed (i : ℕ) (rank : AgentId → ℕ) (op : Statement)
    (r : (fleetAgents b).Ran c c' i rank op) (hx : x = .run i rank)
    (hl : Licensed r.act (history c.log i) op) (a : Agent) (hid : a.id = id) :
    RowStep b c c' x id (some a) (some (op.onRow c.state.store a))
  | born (a : Agent) (hn : isNew a = true) : RowStep b c c' x id none (some a)

theorem row_step (h₀ : Start c₀) (h : (fleetAgents b).Reaches cond c₀ c) {x : AgentAction}
    (hs : (fleetAgents b).step c x = some c') (id : AgentId) :
    RowStep b c c' x id (row c id) (row c' id) := by
  cases x with
  | start p request =>
    rw [row, row, (start_state hs).1]
    exact .kept _
  | env s =>
    obtain ⟨hstate, hrows⟩ := env_state hs
    have he : row c' id = row c id := by
      rw [row, hstate]
      exact congrArg (fun t : AgentTable => t.get id) hrows
    rw [he]
    exact .kept _
  | run i rank =>
    obtain ⟨op, ⟨r⟩⟩ := Machine.step_run hs
    have hl := ran_serves h₀ h r
    cases hc : op.creates with
    | none =>
      rw [row_read r hc]
      cases hr : row c id with
      | none => exact .kept _
      | some a => exact .changed i rank op r rfl hl a (Keyed.get_key hr)
    | some agent =>
      have hact := creates_request hl.1 hc
      have hi : Serving c i (.createAgent agent) := hact ▸ ran_serving r
      have hm := reached_minted h₀ h
      have hno : ∀ e ∈ history c.log i, e.op.creates = none := hl.2 (by simp [hc])
      rcases ran_created r hc with he | ⟨a, he, hid, hn⟩
      · rw [row, row, he]
        exact .kept _
      · by_cases heq : id = a.id
        · subst heq
          have hnone : row c a.id = none := hid ▸ hm.unborn i agent hi hno
          have hsome : row c' a.id = some a := by
            rw [row, he, Keyed.get_put_self]
          rw [hnone, hsome]
          exact .born a (hn (hm.creators i agent hi).1)
        · have hsame : row c' id = row c id := by
            rw [row, he, Keyed.get_put_ne heq]
            rfl
          rw [hsame]
          exact .kept _

end Runs

section Fleet

/-- Two workers with room for `cap` agents each, one project, a lease of epoch 5, no agent yet. -/
def idleStore (cap : Option ℕ) : StoreState :=
  let worker (n : ℕ) : Worker :=
    { id := ⟨n⟩, name := "worker", maxAgentProcesses := cap, registeredAt := 0,
      incarnationStartedAt := 0 }
  { StoreState.empty with
    workers := ⟨[worker 1, worker 2], by simp [worker]⟩
    projects := [⟨1⟩]
    controlLeases := ⟨[⟨"c", "i", 5, 0, 60, 0, none⟩], List.nodup_singleton _⟩ }

def idleFleet (cap : Option ℕ) : AgentConfig := ⟨⟨idleStore cap, [], [], [], []⟩, [], []⟩

theorem idleFleet_start (cap : Option ℕ) : Start (idleFleet cap) :=
  ⟨⟨rfl, rfl⟩, rfl, rfl, rfl, by intro a ha; cases ha⟩

/-- A new agent, for the given worker. -/
def agentFor (n w : ℕ) : Agent where
  id := ⟨n⟩
  projectId := ⟨1⟩
  name := toString n
  workerId := some ⟨w⟩
  assignedAt := some 0
  createdAt := 0
  updatedAt := 0

/-- The `i`-th call, carried out in `n` statements with nobody in between. -/
def serving (i : ℕ) (request : Request) (n : ℕ) : List AgentAction :=
  .start i request :: List.replicate n (.run i fun id => id.uuid)

end Fleet

end FleetOrchestrator.Agents
