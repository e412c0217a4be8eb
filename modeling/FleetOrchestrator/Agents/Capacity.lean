import FleetOrchestrator.Agents.Slots

/-! A worker's slots are never overrun, unless a stopped agent that is still placed on it comes
back. -/

namespace FleetOrchestrator.Agents

open Core Tables Store Interleaving

/-- The statement brings back a stopped agent of the worker. -/
def Statement.revives (w : WorkerId) : Statement → Agent → Bool
  | .statusLocked id .ready, a => a.id = id && a.workerId = some w && a.status = .stopped
  | .updateStatus id .ready, a => a.id = id && a.workerId = some w && a.status = .stopped
  | _, _ => false

section Rows

variable {s : StoreState} {a : Agent} {w : WorkerId} {op : Statement}

def slot (a : Agent) : Option WorkerId × AgentStatus := (a.workerId, a.status)

theorem claims_of_slot {a a' : Agent} (h : slot a' = slot a) :
    claimsSlot w a' = claimsSlot w a := by
  obtain ⟨hw, hs⟩ := Prod.mk.inj h
  rw [claimsSlot, claimsSlot, hw, hs]

theorem status_slot (now : ℤ) (status : AgentStatus) :
    (MemStore.withStatus now status a).workerId = a.workerId ∧
      (MemStore.withStatus now status a).status = status := by
  unfold MemStore.withStatus
  split
  · exact ⟨rfl, rfl⟩
  · exact ⟨rfl, rfl⟩

theorem mem_placed_slot (now : ℤ) (fence : Option ControlFence) :
    slot (MemStore.placed now w fence a) = (some w, a.status) := by
  unfold MemStore.placed
  split <;> rfl

theorem pg_placed_slot (now : ℤ) (fence : Option ControlFence) :
    slot (PgStore.placed now w fence a) = (some w, a.status) := by
  unfold PgStore.placed PgStore.clearPlacementAndObservation
  dsimp only
  split <;> split <;> simp_all [PgStore.assigned, slot, unobserved]

/-- A row comes to hold a slot only by coming back or by an assignment. -/
theorem claims_origin (s : StoreState) (op : Statement) (a : Agent)
    (h : claimsSlot w (op.onRow s a) = true) :
    claimsSlot w a = true ∨ op.revives w a = true ∨ op.assigns a.id w := by
  have same {a' : Agent} (hs : slot a' = slot a) (hc : claimsSlot w a' = true) :
      claimsSlot w a = true ∨ op.revives w a = true ∨ op.assigns a.id w :=
    .inl ((claims_of_slot hs).symm.trans hc)
  have status {id : AgentId} {status : AgentStatus}
      (hrev : a.id = id → a.workerId = some w → a.status = .stopped → status = .ready →
        op.revives w a = true)
      (hc : claimsSlot w (if a.id = id then MemStore.withStatus s.now status a else a) = true) :
      claimsSlot w a = true ∨ op.revives w a = true ∨ op.assigns a.id w := by
    by_cases hid : a.id = id
    · rw [if_pos hid] at hc
      obtain ⟨hw, hst⟩ := status_slot (a := a) s.now status
      simp only [claimsSlot, hw, hst, Bool.and_eq_true, decide_eq_true_eq, ne_eq] at hc
      have hready : status = .ready := by
        cases status with
        | ready => rfl
        | stopped => exact absurd rfl hc.2
      cases hs : a.status with
      | ready => exact .inl (by simp [claimsSlot, hc.1, hs])
      | stopped => exact .inr (.inl (hrev hid hc.1 hs hready))
    · rw [if_neg hid] at hc
      exact .inl hc
  cases op with
  | statusLocked id st =>
    apply status ?_ h
    rintro hid hw hs rfl
    simp [Statement.revives, hid, hw, hs]
  | updateStatus id st =>
    simp only [Statement.onRow, withStatus_eq] at h
    apply status ?_ h
    rintro hid hw hs rfl
    simp [Statement.revives, hid, hw, hs]
  | assignLocked id v cap fence =>
    simp only [Statement.onRow] at h
    by_cases hg : a.id = id ∧ grants s id v cap a = true
    · rw [if_pos hg] at h
      obtain ⟨hw, -⟩ := Prod.mk.inj (mem_placed_slot (w := v) (a := a) s.now fence)
      simp only [claimsSlot, hw, Bool.and_eq_true, decide_eq_true_eq, Option.some.injEq] at h
      exact .inr (.inr ⟨hg.1.symm, h.1⟩)
    · rw [if_neg hg] at h
      exact .inl h
  | updatePlacement id v fence =>
    simp only [Statement.onRow] at h
    by_cases hc : PgStore.claimable s id v fence a = true
    · rw [if_pos hc] at h
      obtain ⟨hw, -⟩ := Prod.mk.inj (pg_placed_slot (w := v) (a := a) s.now fence)
      simp only [claimsSlot, hw, Bool.and_eq_true, decide_eq_true_eq, Option.some.injEq] at h
      simp only [PgStore.claimable, Bool.and_eq_true, decide_eq_true_eq] at hc
      exact .inr (.inr ⟨hc.1.1.symm, h.1⟩)
    · rw [if_neg hc] at h
      exact .inl h
  | desireLocked id desired fence =>
    refine same ?_ h
    simp only [Statement.onRow, MemStore.desire]
    split
    · split <;> rfl
    · rfl
  | updateDesired id desired fence =>
    refine same ?_ h
    simp only [Statement.onRow]
    split <;> rfl
  | ackLocked v acks => exact same (ackRows_keeps slot (fun _ _ => rfl) acks a) h
  | updateAcked v ack => exact same (ackRow_keeps slot (fun _ _ => rfl) a ack) h
  | observeLocked v os =>
    exact same (observeLocked_keeps slot (fun _ => rfl) (fun _ _ _ => rfl) s os a) h
  | clearUnspoken v spoken => exact same (silence_keeps slot (fun _ => rfl) spoken a) h
  | updateObserved now v o => exact same (observeRow_keeps slot (fun _ _ _ => rfl) now a o) h
  | _ => exact .inl h

end Rows

section Counts

variable {s s' : StoreState} {w : WorkerId} {op : Statement}

/-- The worker's agents among those that are counted. -/
def countAmong (s : StoreState) (w : WorkerId) (q : AgentId → Bool) : ℕ :=
  s.agents.rows.countP fun a => claimsSlot w a && q a.id

theorem countAgents_eq : countAgents s w = countAmong s w fun _ => true := by
  simp [countAgents, countAmong]

theorem countAmong_map {f : Agent → Agent} (q : AgentId → Bool)
    (hrows : s'.agents.rows = s.agents.rows.map f) (hid : ∀ a, (f a).id = a.id)
    (h : ∀ a ∈ s.agents.rows, q a.id = true → claimsSlot w (f a) = true →
      claimsSlot w a = true) : countAmong s' w q ≤ countAmong s w q := by
  rw [countAmong, hrows, List.countP_map, countAmong]
  apply List.countP_mono_left
  intro a ha hc
  simp only [Function.comp_apply, hid, Bool.and_eq_true] at hc ⊢
  exact ⟨h a ha hc.2 hc.1, hc.2⟩

theorem countP_split {α : Type} (p q : α → Bool) (l : List α) :
    l.countP p ≤ (l.countP fun a => p a && !q a) + l.countP q := by
  induction l with
  | nil => simp
  | cons a l ih =>
    simp only [List.countP_cons]
    cases p a <;> cases q a <;> simp <;> omega

theorem countAgents_le (id : AgentId) : countAgents s w ≤ countOthers s w id + 1 := by
  have hone : (s.agents.rows.countP fun a => decide (a.id = id)) ≤ 1 := by
    have hcount := List.nodup_iff_count_le_one.mp s.agents.nodup id
    rw [List.count, List.countP_map] at hcount
    simpa [Function.comp_def, beq_eq_decide] using hcount
  have hsplit := countP_split (claimsSlot w) (fun a => decide (a.id = id)) s.agents.rows
  have hothers : (s.agents.rows.countP fun a => claimsSlot w a && !decide (a.id = id)) =
      countOthers s w id := by
    simp [countOthers]
  rw [hothers] at hsplit
  rw [countAgents]
  omega

theorem countAmong_put {row : Agent} (q : AgentId → Bool) (h : s'.agents = s.agents.put row) :
    countAmong s' w q ≤ countAmong s w q + if claimsSlot w row then 1 else 0 := by
  have herase : ((s.agents.erase row.id).rows.countP fun a => claimsSlot w a && q a.id) ≤
      countAmong s w q := List.Sublist.countP_le List.filter_sublist
  rw [countAmong, h, Keyed.put, List.countP_append, List.countP_singleton]
  cases claimsSlot w row with
  | false =>
    simp only [Bool.false_and, Bool.false_eq_true, if_false]
    omega
  | true =>
    split <;> simp <;> omega

theorem full_some {cap k : ℕ} : full (some cap) k = false ↔ k < cap := by
  simp [full]

end Counts

/-- The worker keeps its size, and no stopped agent of its own comes back. -/
def steady (w : WorkerId) (n : ℕ) (c : AgentConfig) : AgentAction → Bool
  | .run i _ => workerCap c.state.store w = some (some n) &&
      match c.next i with
      | some op => c.state.store.agents.rows.all fun a => !op.revives w a
      | none => true
  | _ => true

/-- The thread is between locking the worker's row and the statement that ends its transaction. -/
def Holding (w : WorkerId) (h : Past) : Prop :=
  ∃ rest, (∃ cap, h = ⟨.lockWorker w, some cap⟩ :: rest) ∨ (∃ n, h = ⟨.countAgents w, n⟩ :: rest) ∨
    ∃ id n, h = ⟨.countOthers w id, n⟩ :: rest

abbrev AgentThread := Thread Statement Statement.Resp ℕ Request Reply

/-- What the transactions and the counts of a worker's agents rely on. -/
structure Slots (b : Backend) (w : WorkerId) (n : ℕ) (c : AgentConfig) : Prop where
  parties : ∀ (i : ℕ) (t : AgentThread), c.threads[i]? = some t → t.party ∈ c.state.connections
  single : ∀ (i j : ℕ) (t u : AgentThread), c.threads[i]? = some t → c.threads[j]? = some u →
    t.party = u.party → i = j
  lock : ∀ p q, (w, p) ∈ c.state.locks → (w, q) ∈ c.state.locks → p = q
  held : ∀ (i : ℕ) (t : AgentThread), c.threads[i]? = some t → Holding w (history c.log i) →
    b = .pg ∧ (w, t.party) ∈ c.state.locks
  agents : ∀ i k rest, history c.log i = ⟨.countAgents w, k⟩ :: rest →
    countAgents c.state.store w ≤ k
  others : ∀ i id k rest, history c.log i = ⟨.countOthers w id, k⟩ :: rest →
    countOthers c.state.store w id ≤ k
  caps : ∀ i r, ⟨.readCap w, r⟩ ∈ history c.log i → r = some (some n)
  sizes : ∀ i r, ⟨.lockWorker w, r⟩ ∈ history c.log i → r = some (some n)

section Runs

variable {b : Backend} {w : WorkerId} {n : ℕ} {c₀ c c' : AgentConfig} {i : ℕ}
  {rank : AgentId → ℕ} {op : Statement}

theorem not_holding_nil : ¬ Holding w [] := by
  rintro ⟨rest, ⟨cap, h⟩ | ⟨n, h⟩ | ⟨id, n, h⟩⟩
  · cases h
  · cases h
  · cases h

/-- Only a lock is waited for, and no statement takes away another transaction's lock. -/
theorem settle_locks (p : ℕ) (v : World) (op : Statement) (r : op.Resp) {l : WorkerId × ℕ}
    (h : l ∈ v.locks) (hp : l.2 ≠ p) : l ∈ (op.settle p v r).locks := by
  have hrelease : l ∈ (v.release p).locks :=
    List.mem_filter.mpr ⟨h, by simpa using hp⟩
  cases op with
  | lockWorker u =>
    cases r with
    | none => exact h
    | some cap => exact List.mem_cons_of_mem _ h
  | insertAgent agent claimed => exact hrelease
  | updatePlacement id u fence =>
    simp only [Statement.settle]
    split
    · exact hrelease
    · exact h
  | finish => exact hrelease
  | _ => exact h

theorem settle_locks_origin (p : ℕ) (v : World) (op : Statement) (r : op.Resp) {l : WorkerId × ℕ}
    (h : l ∈ (op.settle p v r).locks) : l ∈ v.locks ∨ op = .lockWorker l.1 ∧ l.2 = p := by
  have hrelease (h : l ∈ (v.release p).locks) : l ∈ v.locks := (List.mem_filter.mp h).1
  cases op with
  | lockWorker u =>
    cases r with
    | none => exact .inl h
    | some cap =>
      rcases List.mem_cons.mp h with rfl | h
      · exact .inr ⟨rfl, rfl⟩
      · exact .inl h
  | insertAgent agent claimed => exact .inl (hrelease h)
  | updatePlacement id u fence =>
    simp only [Statement.settle] at h
    split at h
    · exact .inl (hrelease h)
    · exact .inl h
  | finish => exact .inl (hrelease h)
  | _ => exact .inl h

theorem settle_connections (p : ℕ) (v : World) (op : Statement) (r : op.Resp) :
    (op.settle p v r).connections = v.connections := by
  cases op with
  | lockWorker u => cases r <;> rfl
  | updatePlacement id u fence =>
    simp only [Statement.settle]
    split <;> rfl
  | _ => rfl

/-- A statement that can give the worker one more agent: a creation or an assignment. -/
def Statement.claims (op : Statement) (w : WorkerId) : Prop :=
  (∃ agent cap, op = .createLocked agent cap ∧ agent.workerId = some w) ∨
    (∃ agent, op = .insertAgent agent (some w)) ∨ ∃ id, op.assigns id w

theorem claims_of_assigns {id : AgentId} (h : op.assigns id w) : op.claims w := .inr (.inr ⟨id, h⟩)

/-- Whoever claims a slot through SQL holds the lock. -/
theorem holding_of_claims {h : Past} (hl : SlotLicensed .pg h op) (hc : op.claims w) :
    Holding w h := by
  have room {count : Statement} {counted : ℕ → count.Resp}
      (hcount : ∀ k rest, Holding w ((⟨count, counted k⟩ : Entry _ _) :: rest))
      (hr : RoomKnown w count counted h) : Holding w h := by
    rcases hr with ⟨cap, k, rest, rfl, -⟩ | ⟨rest, rfl⟩
    · exact hcount k _
    · exact ⟨rest, .inl ⟨none, rfl⟩⟩
  rcases hc with ⟨agent, cap, rfl, -⟩ | ⟨agent, rfl⟩ | ⟨id, ha⟩
  · exact absurd hl.1 (by simp)
  · exact room (fun k rest => ⟨rest, .inr (.inl ⟨k, rfl⟩)⟩) (hl.2 w rfl)
  · cases op with
    | assignLocked j v cap fence => exact absurd hl.1 (by simp)
    | updatePlacement j v fence =>
      obtain ⟨rfl, rfl⟩ := ha
      exact room (fun k rest => ⟨rest, .inr (.inr ⟨j, k, rfl⟩)⟩) hl.2
    | _ => exact ha.elim

theorem start_connections {p : ℕ} {request : Request}
    (hs : (fleetAgents b).step c (.start p request) = some c') :
    p ∉ c.state.connections ∧ c'.state.connections = p :: c.state.connections ∧
      c'.state.locks = c.state.locks := by
  have ha : accept p request c.state = some c'.state := (Machine.step_start hs).1
  unfold accept at ha
  by_cases hp : c.state.connections.contains p = true
  · rw [if_pos hp] at ha
    cases ha
  · rw [if_neg hp] at ha
    refine ⟨by simpa using hp, ?_⟩
    cases request with
    | createAgent agent =>
      simp only [Option.ite_none_right_eq_some, Option.some.injEq] at ha
      rw [← ha.2]
      exact ⟨rfl, rfl⟩
    | ackAgentCommands v acks =>
      simp only [Option.ite_none_right_eq_some, Option.some.injEq] at ha
      rw [← ha.2]
      exact ⟨rfl, rfl⟩
    | _ =>
      simp only [Option.some.injEq] at ha
      rw [← ha]
      exact ⟨rfl, rfl⟩

theorem slots_start {p : ℕ} {request : Request} (h : Slots b w n c) (hw : Machine.LogWithin c)
    (hs : (fleetAgents b).step c (.start p request) = some c') : Slots b w n c' := by
  obtain ⟨hfresh, hconn, hlocks⟩ := start_connections hs
  obtain ⟨-, hts, hlog⟩ := Machine.step_start hs
  have hstore := (start_state hs).1
  have hthread : ∀ (i : ℕ) (t : AgentThread), c'.threads[i]? = some t → c.threads[i]? = some t ∨
      i = c.threads.length ∧ t.party = p := by
    intro i t ht
    rw [hts] at ht
    rcases Nat.lt_or_ge i c.threads.length with hi | hi
    · rw [List.getElem?_append_left hi] at ht
      exact .inl ht
    · rw [List.getElem?_append_right hi] at ht
      have hz := (List.getElem?_eq_some_iff.mp ht).1
      have ht' := List.mem_singleton.mp (List.mem_of_getElem? ht)
      simp only [List.length_singleton] at hz
      exact .inr ⟨by omega, by rw [ht']; rfl⟩
  constructor
  · intro i t ht
    rw [hconn]
    rcases hthread i t ht with ht | ⟨-, rfl⟩
    · exact List.mem_cons_of_mem _ (h.parties i t ht)
    · exact List.mem_cons_self
  · intro i j t u ht hu he
    rcases hthread i t ht with ht | ⟨hi, hp⟩
    · rcases hthread j u hu with hu | ⟨hj, hp⟩
      · exact h.single i j t u ht hu he
      · have hmem := h.parties i t ht
        rw [he, hp] at hmem
        exact absurd hmem hfresh
    · rcases hthread j u hu with hu | ⟨hj, -⟩
      · have hmem := h.parties j u hu
        rw [← he, hp] at hmem
        exact absurd hmem hfresh
      · rw [hi, hj]
  · rw [hlocks]
    exact h.lock
  · intro i t ht hold
    rw [hlog] at hold
    rw [hlocks]
    rcases hthread i t ht with ht | ⟨rfl, -⟩
    · exact h.held i t ht hold
    · rw [Machine.history_of_within hw le_rfl] at hold
      exact absurd hold not_holding_nil
  · rw [hlog, hstore]
    exact h.agents
  · rw [hlog, hstore]
    exact h.others
  · rw [hlog]
    exact h.caps
  · rw [hlog]
    exact h.sizes

theorem counts_of_agents {s s' : StoreState} (h : s'.agents = s.agents) :
    countAgents s' w = countAgents s w ∧ ∀ id, countOthers s' w id = countOthers s w id := by
  constructor
  · rw [countAgents, h, countAgents]
  · intro id
    rw [countOthers, h, countOthers]

theorem slots_env {s : StoreState} (h : Slots b w n c)
    (hs : (fleetAgents b).step c (.env s) = some c') : Slots b w n c' := by
  obtain ⟨hstate, hagents⟩ := env_state hs
  obtain ⟨-, hts, hlog⟩ := Machine.step_env hs
  obtain ⟨hcount, hothers⟩ := counts_of_agents (w := w) hagents
  constructor
  · rw [hts, hstate]
    exact h.parties
  · rw [hts]
    exact h.single
  · rw [hstate]
    exact h.lock
  · rw [hts, hlog, hstate]
    exact h.held
  · rw [hlog, hstate]
    intro i k rest hk
    exact hcount.le.trans (h.agents i k rest hk)
  · rw [hlog, hstate]
    intro i id k rest hk
    exact (hothers id).le.trans (h.others i id k rest hk)
  · rw [hlog]
    exact h.caps
  · rw [hlog]
    exact h.sizes

theorem unclaimed_row {agent row : Agent} (h : row.workerId = none ∨ row.workerId = agent.workerId)
    (hn : agent.workerId ≠ some w) : claimsSlot w row = false := by
  rcases h with h | h
  · simp [claimsSlot, h]
  · simp [claimsSlot, h, hn]

/-- What claims no slot of the worker leaves its agents as many as they are. -/
theorem count_unclaimed (r : (fleetAgents b).Ran c c' i rank op) (hno : ¬ op.claims w)
    (hrev : ∀ a ∈ c.state.store.agents.rows, op.revives w a = false) (q : AgentId → Bool) :
    countAmong c'.state.store w q ≤ countAmong c.state.store w q := by
  cases hc : op.creates with
  | none =>
    refine countAmong_map q ?_ (onRow_id c.state.store op) ?_
    · rw [ran_store r, rows_effect hc]
    · intro a ha _ hclaims
      rcases claims_origin c.state.store op a hclaims with h | h | h
      · exact h
      · rw [hrev a ha] at h
        cases h
      · exact absurd (claims_of_assigns h) hno
  | some agent =>
    have put {row : Agent} (hp : c'.state.store.agents = c.state.store.agents.put row)
        (hw : claimsSlot w row = false) :
        countAmong c'.state.store w q ≤ countAmong c.state.store w q := by
      have hle := countAmong_put (w := w) q hp
      rw [hw] at hle
      simpa using hle
    have same (hp : c'.state.store.agents = c.state.store.agents) :
        countAmong c'.state.store w q ≤ countAmong c.state.store w q := by
      rw [countAmong, hp, countAmong]
    have hstore := ran_store r
    cases op with
    | createLocked a cap =>
      cases hc
      have hw : agent.workerId ≠ some w := fun h => hno (.inl ⟨agent, cap, rfl, h⟩)
      rcases @createLocked_rows c.state.store agent cap with he | ⟨row, he, rfl | ⟨rfl, -⟩⟩
      · exact same (by rw [hstore]; exact he)
      · exact put (by rw [hstore]; exact he) (unclaimed_row (.inl rfl) hw)
      · exact put (by rw [hstore]; exact he) (unclaimed_row (.inr rfl) hw)
    | insertAgent a claimed =>
      cases hc
      have hw : claimed ≠ some w := fun h => hno (.inr (.inl ⟨agent, by rw [h]⟩))
      rcases @insertAgent_rows c.state.store agent claimed with he | ⟨row, he, -, hrow, -⟩
      · exact same (by rw [hstore]; exact he)
      · refine put (by rw [hstore]; exact he) ?_
        simp [claimsSlot, hrow, hw]
    | _ => cases hc

/-- An assignment takes at most one slot more than the others hold. -/
theorem count_assigned {id : AgentId} (r : (fleetAgents b).Ran c c' i rank op)
    (ha : op.assigns id w) : countAgents c'.state.store w ≤ countOthers c.state.store w id + 1 := by
  have hc : op.creates = none := by
    cases op with
    | createLocked agent cap => exact ha.elim
    | insertAgent agent claimed => exact ha.elim
    | _ => rfl
  have hrev : ∀ a, op.revives w a = false := by
    cases op with
    | statusLocked j status => exact ha.elim
    | updateStatus j status => exact ha.elim
    | _ => exact fun _ => rfl
  have hothers : countOthers c'.state.store w id ≤ countOthers c.state.store w id := by
    refine countAmong_map (fun j => j ≠ id) ?_ (onRow_id c.state.store op) ?_
    · rw [ran_store r, rows_effect hc]
    · intro a _ hid hclaims
      rcases claims_origin c.state.store op a hclaims with h | h | h
      · exact h
      · rw [hrev a] at h
        cases h
      · have heq : a.id = id := by
          cases op with
          | assignLocked j v cap fence => exact h.1.symm.trans ha.1
          | updatePlacement j v fence => exact h.1.symm.trans ha.1
          | _ => exact ha.elim
        simp [heq] at hid
  have hle := countAgents_le (s := c'.state.store) (w := w) id
  omega

/-- What a transaction knows of the worker's slots is still so. -/
theorem room_left {count : Statement} {counted : ℕ → count.Resp} (h : Slots b w n c) {m : ℕ}
    (hcount : ∀ k rest, history c.log i = ⟨count, counted k⟩ :: rest → m ≤ k)
    (hr : RoomKnown w count counted (history c.log i)) : m < n := by
  rcases hr with ⟨cap, k, rest, hhist, hfull⟩ | ⟨rest, hhist⟩
  · have hm : (⟨.lockWorker w, some (some cap)⟩ : Entry Statement Statement.Resp) ∈
        history c.log i := by
      rw [hhist]
      exact List.mem_cons_of_mem _ List.mem_cons_self
    have hcap := h.sizes i _ hm
    simp only [Option.some.injEq] at hcap
    have hle := hcount k _ hhist
    rw [full_some] at hfull
    omega
  · have hm : (⟨.lockWorker w, some none⟩ : Entry Statement Statement.Resp) ∈
        history c.log i := by
      rw [hhist]
      exact List.mem_cons_self
    cases h.sizes i _ hm

/-- A row is put into the table where there is room for it. -/
theorem put_bound {s s' : StoreState} (row : Agent)
    (he : s'.agents = s.agents ∨ s'.agents = s.agents.put row)
    (hle : countAgents s w ≤ n) (hlt : claimsSlot w row = true → countAgents s w < n) :
    countAgents s' w ≤ n := by
  rcases he with he | he
  · rw [(counts_of_agents he).1]
    exact hle
  · have hput := countAmong_put (w := w) (fun _ => true) he
    rw [← countAgents_eq, ← countAgents_eq] at hput
    by_cases hc : claimsSlot w row = true
    · have := hlt hc
      rw [if_pos hc] at hput
      omega
    · rw [if_neg hc] at hput
      omega

theorem create_bound {agent : Agent} {cap : Option (Option ℕ)} (h : Slots b w n c)
    (hl : SlotLicensed b (history c.log i) (.createLocked agent cap))
    (r : (fleetAgents b).Ran c c' i rank (.createLocked agent cap))
    (hle : countAgents c.state.store w ≤ n) : countAgents c'.state.store w ≤ n := by
  have hstore := congrArg StoreState.agents (ran_store r)
  rcases @createLocked_rows c.state.store agent cap with
    he | ⟨row, he, rfl | ⟨rfl, v, size, hv, hcap, hfull⟩⟩
  · exact put_bound agent.withoutPlacement (.inl (hstore.trans he)) hle
      fun hc => absurd hc (by simp [claimsSlot, Agent.withoutPlacement])
  · exact put_bound _ (.inr (hstore.trans he)) hle
      fun hc => absurd hc (by simp [claimsSlot, Agent.withoutPlacement])
  · refine put_bound _ (.inr (hstore.trans he)) hle fun hc => ?_
    simp only [claimsSlot, hv, Bool.and_eq_true, decide_eq_true_eq, Option.some.injEq] at hc
    obtain ⟨rfl, -⟩ := hc
    obtain ⟨rest, hhist⟩ := hl.2 v hv
    have hread := h.caps i cap (by rw [hhist]; exact List.mem_cons_self)
    rw [hcap, Option.some.injEq] at hread
    rw [hread, full_some] at hfull
    exact hfull

theorem insert_bound {agent : Agent} {claimed : Option WorkerId} (h : Slots b w n c)
    (hl : SlotLicensed b (history c.log i) (.insertAgent agent claimed))
    (r : (fleetAgents b).Ran c c' i rank (.insertAgent agent claimed))
    (hle : countAgents c.state.store w ≤ n) : countAgents c'.state.store w ≤ n := by
  have hstore := congrArg StoreState.agents (ran_store r)
  rcases @insertAgent_rows c.state.store agent claimed with he | ⟨row, he, -, hrow, -⟩
  · exact put_bound agent.withoutPlacement (.inl (hstore.trans he)) hle
      fun hc => absurd hc (by simp [claimsSlot, Agent.withoutPlacement])
  · refine put_bound _ (.inr (hstore.trans he)) hle fun hc => ?_
    simp only [claimsSlot, hrow, Bool.and_eq_true, decide_eq_true_eq] at hc
    exact room_left h (h.agents i) (hl.2 w hc.1)

theorem assign_bound {id : AgentId} (h : Slots b w n c)
    (hl : SlotLicensed b (history c.log i) op) (r : (fleetAgents b).Ran c c' i rank op)
    (ha : op.assigns id w) (hle : countAgents c.state.store w ≤ n) :
    countAgents c'.state.store w ≤ n := by
  have hone := count_assigned r ha
  cases op with
  | assignLocked j v cap fence =>
    obtain ⟨rfl, rfl⟩ := ha
    obtain ⟨-, rest, hhist⟩ := hl
    have hcap := h.caps i cap (by rw [hhist]; exact List.mem_cons_self)
    subst hcap
    by_cases hfull : full (some n) (countOthers c.state.store v j) = true
    · -- A full worker: no row changes.
      have hrows : c'.state.store.agents = c.state.store.agents := by
        apply Keyed.ext
        rw [ran_store r, rows_effect rfl]
        conv_rhs => rw [← List.map_id c.state.store.agents.rows]
        apply List.map_congr_left
        intro a _
        exact if_neg (by simp [grants, hfull])
      rw [(counts_of_agents hrows).1]
      exact hle
    · have hlt := full_some.mp (by simpa using hfull)
      omega
  | updatePlacement j v fence =>
    obtain ⟨rfl, rfl⟩ := ha
    have hlt := room_left h (h.others i j) hl.2
    omega
  | _ => exact ha.elim

theorem bound_run (h : Slots b w n c) (hl : SlotLicensed b (history c.log i) op)
    (r : (fleetAgents b).Ran c c' i rank op)
    (hrev : ∀ a ∈ c.state.store.agents.rows, op.revives w a = false)
    (hle : countAgents c.state.store w ≤ n) : countAgents c'.state.store w ≤ n := by
  by_cases hc : op.claims w
  · rcases hc with ⟨agent, cap, rfl, -⟩ | ⟨agent, rfl⟩ | ⟨id, ha⟩
    · exact create_bound h hl r hle
    · exact insert_bound h hl r hle
    · exact assign_bound h hl r ha hle
  · have hcount := count_unclaimed r hc hrev fun _ => true
    rw [← countAgents_eq, ← countAgents_eq] at hcount
    omega

theorem head_held (h : Slots b w n c) (hw : Machine.LogWithin c) {j : ℕ}
    (hold : Holding w (history c.log j)) :
    ∃ t : AgentThread, c.threads[j]? = some t ∧ b = .pg ∧ (w, t.party) ∈ c.state.locks := by
  have hj : j < c.threads.length := by
    by_contra hge
    rw [Machine.history_of_within hw (by omega)] at hold
    exact not_holding_nil hold
  exact ⟨c.threads[j], List.getElem?_eq_getElem hj, h.held j _ (List.getElem?_eq_getElem hj) hold⟩

/-- While one transaction holds the worker's row, no other claims a slot there. -/
theorem others_wait (h : Slots b w n c) (hw : Machine.LogWithin c)
    (hl : SlotLicensed b (history c.log i) op) (r : (fleetAgents b).Ran c c' i rank op) {j : ℕ}
    (hj : j ≠ i) (hold : Holding w (history c.log j)) : ¬ op.claims w := by
  intro hc
  obtain ⟨t, ht, rfl, hlock⟩ := head_held h hw hold
  obtain ⟨-, hown⟩ := h.held i _ r.was (holding_of_claims hl hc)
  exact hj (h.single j i t _ ht r.was (h.lock _ _ hlock hown))

theorem steady_run (h : steady w n c (.run i rank) = true)
    (r : (fleetAgents b).Ran c c' i rank op) : workerCap c.state.store w = some (some n) ∧
      ∀ a ∈ c.state.store.agents.rows, op.revives w a = false := by
  simp only [steady, r.next, Bool.and_eq_true, decide_eq_true_eq, List.all_eq_true,
    Bool.not_eq_true'] at h
  exact h

/-- What a waiting thread counted is still an upper bound after another's step. -/
theorem counts_kept (h : Slots b w n c) (hw : Machine.LogWithin c)
    (hl : SlotLicensed b (history c.log i) op) (r : (fleetAgents b).Ran c c' i rank op)
    (hrev : ∀ a ∈ c.state.store.agents.rows, op.revives w a = false) {j : ℕ} (hj : j ≠ i)
    (hold : Holding w (history c.log j)) (q : AgentId → Bool) :
    countAmong c'.state.store w q ≤ countAmong c.state.store w q :=
  count_unclaimed r (others_wait h hw hl r hj hold) hrev q

theorem thread_before (hs : (fleetAgents b).step c (.run i rank) = some c') {j : ℕ}
    {t : AgentThread} (ht : c'.threads[j]? = some t) :
    ∃ u : AgentThread, c.threads[j]? = some u ∧ u.party = t.party := by
  rcases Machine.thread_origin hs ht with ⟨u, hu, hp, -⟩ | ⟨-, ⟨p, a, hx, -⟩ | hspawn⟩
  · exact ⟨u, hu, hp⟩
  · cases hx
  · obtain ⟨k, ch, op', r', a, hm, -⟩ := hspawn
    cases hm

section Run

variable (r : (fleetAgents b).Ran c c' i rank op)

include r

theorem other_history {j : ℕ} (hj : j ≠ i) : history c'.log j = history c.log j := by
  rw [r.log]
  exact history_cons_ne _ hj.symm

/-- What is new in a history after a step is the step's own answer. -/
theorem mem_run_history {j : ℕ} {e : Entry Statement Statement.Resp}
    (he : e ∈ history c'.log j) : e = ⟨op, r.resp⟩ ∨ e ∈ history c.log j := by
  by_cases hj : j = i
  · subst hj
    rw [r.after.2] at he
    exact List.mem_cons.mp he
  · rw [other_history r hj] at he
    exact .inr he

theorem lock_run (h : Slots b w n c) {p q : ℕ} (hp : (w, p) ∈ c'.state.locks)
    (hq : (w, q) ∈ c'.state.locks) : p = q := by
  obtain ⟨hwait, -, hstate⟩ := ran_exec r
  rw [hstate] at hp hq
  have new (k : ℕ) (hop : op = .lockWorker w) (hheld : (w, k) ∈ c.state.locks) :
      k = r.party := by
    subst hop
    by_contra hne
    have hwaits : c.state.lockedByOther w r.party = true := by
      rw [World.lockedByOther, List.any_eq_true]
      exact ⟨(w, k), hheld, by simpa using hne⟩
    rw [Statement.waits, hwaits] at hwait
    cases hwait
  rcases settle_locks_origin _ _ _ _ hp with hp | ⟨hop, hp⟩
  · rcases settle_locks_origin _ _ _ _ hq with hq | ⟨hop, hq⟩
    · exact h.lock p q hp hq
    · exact (new p hop hp).trans hq.symm
  · rcases settle_locks_origin _ _ _ _ hq with hq | ⟨-, hq⟩
    · exact hp.trans (new q hop hq).symm
    · exact hp.trans hq.symm

/-- A transaction that has just locked the row, or counted under its lock, holds it. -/
theorem own_held (h : Slots b w n c) (hl : SlotLicensed b (history c.log i) op)
    (hold : Holding w (⟨op, r.resp⟩ :: history c.log i)) :
    b = .pg ∧ (w, r.party) ∈ c'.state.locks := by
  obtain ⟨-, hresp, hstate⟩ := ran_exec r
  have counted {cap : ℕ} {rest : Past}
      (hhist : history c.log i = ⟨.lockWorker w, some (some cap)⟩ :: rest) :
      (w, r.party) ∈ c.state.locks :=
    (h.held i _ r.was (hhist ▸ ⟨rest, .inl ⟨some cap, rfl⟩⟩)).2
  rw [hstate]
  rcases hold with ⟨rest, ⟨cap, he⟩ | ⟨k, he⟩ | ⟨id, k, he⟩⟩
  · obtain ⟨hhead, -⟩ := List.cons.inj he
    cases op with
    | lockWorker v =>
      simp only [Entry.mk.injEq, Statement.lockWorker.injEq] at hhead
      obtain ⟨rfl, hr⟩ := hhead
      rw [heq_eq_eq] at hr
      rw [hr]
      exact ⟨hl, List.mem_cons_self⟩
    | _ => cases hhead
  · obtain ⟨hhead, -⟩ := List.cons.inj he
    cases op with
    | countAgents v =>
      simp only [Entry.mk.injEq, Statement.countAgents.injEq] at hhead
      obtain ⟨rfl, -⟩ := hhead
      obtain ⟨hpg, cap, rest, hhist⟩ := hl
      exact ⟨hpg, counted hhist⟩
    | _ => cases hhead
  · obtain ⟨hhead, -⟩ := List.cons.inj he
    cases op with
    | countOthers v id' =>
      simp only [Entry.mk.injEq, Statement.countOthers.injEq] at hhead
      obtain ⟨⟨rfl, -⟩, -⟩ := hhead
      obtain ⟨hpg, cap, rest, hhist⟩ := hl
      exact ⟨hpg, counted hhist⟩
    | _ => cases hhead

theorem held_run (h : Slots b w n c) (hl : SlotLicensed b (history c.log i) op)
    (hs : (fleetAgents b).step c (.run i rank) = some c') {j : ℕ} {t : AgentThread}
    (ht : c'.threads[j]? = some t) (hold : Holding w (history c'.log j)) :
    b = .pg ∧ (w, t.party) ∈ c'.state.locks := by
  obtain ⟨u, hu, hp⟩ := thread_before hs ht
  by_cases hj : j = i
  · subst hj
    rw [r.was] at hu
    cases hu
    rw [r.after.2] at hold
    rw [← hp]
    exact own_held r h hl hold
  · rw [other_history r hj] at hold
    obtain ⟨hpg, hlock⟩ := h.held j u hu hold
    have hne : u.party ≠ r.party := fun he => hj (h.single j i u _ hu r.was he)
    rw [← hp, (ran_exec r).2.2]
    exact ⟨hpg, settle_locks _ _ _ _ hlock hne⟩

/-- A number that a transaction counted under its lock stays an upper bound. -/
theorem counted_run {count : Statement} {counted : ℕ → count.Resp} {m m' : ℕ}
    (hold : ∀ j k rest, history c.log j = ⟨count, counted k⟩ :: rest → m ≤ k)
    (hown : ∀ k, (⟨op, r.resp⟩ : Entry Statement Statement.Resp) = ⟨count, counted k⟩ → m' ≤ k)
    (hkept : ∀ j k rest, j ≠ i → history c.log j = ⟨count, counted k⟩ :: rest → m' ≤ m) :
    ∀ j k rest, history c'.log j = ⟨count, counted k⟩ :: rest → m' ≤ k := by
  intro j k rest hhist
  by_cases hj : j = i
  · subst hj
    rw [r.after.2] at hhist
    exact hown k (List.cons.inj hhist).1
  · rw [other_history r hj] at hhist
    have hle := hold j k rest hhist
    have hstep := hkept j k rest hj hhist
    omega

/-- The worker's size is read as it is. -/
theorem size_run {read : Statement} {size : Option (Option ℕ) → read.Resp}
    (hold : ∀ j v, ⟨read, size v⟩ ∈ history c.log j → v = some (some n))
    (hnow : ∀ v, (⟨op, r.resp⟩ : Entry Statement Statement.Resp) = ⟨read, size v⟩ →
      v = some (some n)) :
    ∀ j v, ⟨read, size v⟩ ∈ history c'.log j → v = some (some n) := by
  intro j v hm
  rcases mem_run_history r hm with he | hm
  · exact hnow v he.symm
  · exact hold j v hm

theorem slots_run (h : Slots b w n c) (hw : Machine.LogWithin c)
    (hl : SlotLicensed b (history c.log i) op) (hcond : steady w n c (.run i rank) = true)
    (hs : (fleetAgents b).step c (.run i rank) = some c') : Slots b w n c' := by
  obtain ⟨hcap, hrev⟩ := steady_run hcond r
  have hresp := (ran_exec r).2.1
  constructor
  · intro j t ht
    obtain ⟨u, hu, hp⟩ := thread_before hs ht
    rw [(ran_exec r).2.2, settle_connections, ← hp]
    exact h.parties j u hu
  · intro j k t t' ht ht' he
    obtain ⟨u, hu, hp⟩ := thread_before hs ht
    obtain ⟨u', hu', hp'⟩ := thread_before hs ht'
    exact h.single j k u u' hu hu' (hp.trans (he.trans hp'.symm))
  · exact fun p q hp hq => lock_run r h hp hq
  · exact fun j t ht hold => held_run r h hl hs ht hold
  · refine counted_run r h.agents ?_ ?_
    · intro k he
      cases op with
      | countAgents v =>
        simp only [Entry.mk.injEq, Statement.countAgents.injEq] at he
        obtain ⟨rfl, hr⟩ := he
        rw [heq_eq_eq] at hr
        rw [← hr, hresp, ran_store r]
        exact le_rfl
      | _ => cases he
    · intro j k rest hj hhist
      have hkept := counts_kept h hw hl r hrev hj (hhist ▸ ⟨rest, .inr (.inl ⟨k, rfl⟩)⟩)
        fun _ => true
      rwa [← countAgents_eq, ← countAgents_eq] at hkept
  · intro j id
    refine counted_run r (fun j => h.others j id) ?_ ?_ j
    · intro k he
      cases op with
      | countOthers v id' =>
        simp only [Entry.mk.injEq, Statement.countOthers.injEq] at he
        obtain ⟨⟨rfl, rfl⟩, hr⟩ := he
        rw [heq_eq_eq] at hr
        rw [← hr, hresp, ran_store r]
        exact le_rfl
      | _ => cases he
    · intro j k rest hj hhist
      exact counts_kept h hw hl r hrev hj (hhist ▸ ⟨rest, .inr (.inr ⟨id, k, rfl⟩)⟩)
        fun i => i ≠ id
  · refine size_run r h.caps ?_
    intro v he
    cases op with
    | readCap u =>
      simp only [Entry.mk.injEq, Statement.readCap.injEq] at he
      obtain ⟨rfl, hr⟩ := he
      rw [heq_eq_eq] at hr
      rw [← hr, hresp]
      exact hcap
    | _ => cases he
  · refine size_run r h.sizes ?_
    intro v he
    cases op with
    | lockWorker u =>
      simp only [Entry.mk.injEq, Statement.lockWorker.injEq] at he
      obtain ⟨rfl, hr⟩ := he
      rw [heq_eq_eq] at hr
      rw [← hr, hresp]
      exact hcap
    | _ => cases he

end Run

theorem slots_initial (h : Start c) : Slots b w n c := by
  have hno : ∀ {i : ℕ} {t : AgentThread}, c.threads[i]? ≠ some t := by
    intro i t ht
    rw [h.fresh.threads] at ht
    cases ht
  have hempty : ∀ i, history c.log i = [] := by
    intro i
    rw [h.fresh.log]
    rfl
  constructor
  · exact fun i t ht => absurd ht hno
  · exact fun i j t u ht => absurd ht hno
  · intro p q hp
    rw [h.locks] at hp
    cases hp
  · exact fun i t ht => absurd ht hno
  · intro i k rest hk
    rw [hempty] at hk
    cases hk
  · intro i id k rest hk
    rw [hempty] at hk
    cases hk
  · intro i r hm
    rw [hempty] at hm
    cases hm
  · intro i r hm
    rw [hempty] at hm
    cases hm

theorem reached_slots (h₀ : Start c₀)
    (h : (fleetAgents b).Reaches (fun c x => steady w n c x = true) c₀ c) : Slots b w n c := by
  apply h.invariant (P := Slots b w n) (slots_initial h₀)
  intro c x c' hr hx hs hslots
  have hw := Machine.within_of_reaches h₀.fresh hr
  cases x with
  | start p request => exact slots_start hslots hw hs
  | env s => exact slots_env hslots hs
  | run i rank =>
    obtain ⟨op, ⟨r⟩⟩ := Machine.step_run hs
    exact slots_run r hslots hw (r.licensed (slots_disciplined b) h₀.fresh hr) hx hs

end Runs

/-- Worker 1 has room for one agent. Its first agent is stopped, a second one takes the slot. -/
def replacedAgent : List AgentAction :=
  serving 0 (.createAgent (agentFor 1 1)) 2 ++
    serving 1 (.updateAgentStatus ⟨1⟩ .stopped) 1 ++ serving 2 (.createAgent (agentFor 2 1)) 2

/-- Then the first one comes back. -/
def broughtBack : List AgentAction := serving 3 (.updateAgentStatus ⟨1⟩ .ready) 1

end FleetOrchestrator.Agents
