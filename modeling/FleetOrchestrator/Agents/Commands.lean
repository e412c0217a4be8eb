import FleetOrchestrator.Agents.Rows

/-! The command protocol: generations, acknowledgements, and what a delivered command says. -/

namespace FleetOrchestrator.Agents

open Core Tables Store Interleaving

def Statement.acks : Statement → WorkerId → AgentAck → Prop
  | .ackLocked v acks, w, ack => v = w ∧ ack ∈ acks
  | .updateAcked v a, w, ack => v = w ∧ a = ack
  | _, _, _ => False

/-- The columns of the command protocol. -/
def commandPart (a : Agent) : AgentDesiredStatus × Option WorkerId × ℤ × ℤ :=
  (a.desiredStatus, a.workerId, a.commandGeneration, a.lastAckedGeneration)

/-- A statement leaves a row's command as it is, issues the next one, or acknowledges it. -/
inductive CommandStep (op : Statement) (a a' : Agent) : Prop
  | same (h : commandPart a' = commandPart a)
  | issued (hg : a'.commandGeneration = a.commandGeneration + 1)
    (ha : a'.lastAckedGeneration = a.lastAckedGeneration)
  | acked (w : WorkerId) (hw : a.workerId = some w) (ho : op.acks w ⟨a.id, a.commandGeneration⟩)
    (hlt : a.lastAckedGeneration < a.commandGeneration)
    (h : commandPart a' = (a.desiredStatus, a.workerId, a.commandGeneration, a.commandGeneration))

section Rows

variable {s : StoreState} {a : Agent} {w : WorkerId}

theorem withStatus_eq (now : ℤ) (status : AgentStatus) (a : Agent) :
    PgStore.withStatus now status a = MemStore.withStatus now status a := by
  unfold PgStore.withStatus MemStore.withStatus
  by_cases h : status = .stopped
  · by_cases hd : a.desiredStatus = .stopped <;> simp [h, hd]
  · simp [h]

theorem status_step {op : Statement} (now : ℤ) (status : AgentStatus) :
    CommandStep op a (MemStore.withStatus now status a) := by
  unfold MemStore.withStatus
  split
  · exact .issued rfl rfl
  · exact .same rfl

theorem mem_placed_step {op : Statement} (now : ℤ) (fence : Option ControlFence) :
    CommandStep op a (MemStore.placed now w fence a) := by
  apply CommandStep.issued
  · unfold MemStore.placed
    split <;> rfl
  · unfold MemStore.placed
    split <;> rfl

theorem pg_placed_step {op : Statement} (now : ℤ) (fence : Option ControlFence) :
    CommandStep op a (PgStore.placed now w fence a) := by
  apply CommandStep.issued
  · unfold PgStore.placed PgStore.clearPlacementAndObservation
    dsimp only
    split <;> split <;> rfl
  · unfold PgStore.placed PgStore.clearPlacementAndObservation
    dsimp only
    split <;> split <;> rfl

theorem mem_desire_step {op : Statement} (now : ℤ) (desired : AgentDesiredStatus)
    (fence : Option ControlFence) : CommandStep op a (MemStore.desire now desired fence a) := by
  unfold MemStore.desire
  split
  · exact .issued rfl rfl
  · exact .same rfl

theorem pg_desire_step {op : Statement} (now : ℤ) (desired : AgentDesiredStatus)
    (fence : Option ControlFence) : CommandStep op a (PgStore.desire now desired fence a) := by
  by_cases h : a.desiredStatus = desired
  · apply CommandStep.same
    simp [commandPart, PgStore.desire, h]
  · apply CommandStep.issued
    · simp [PgStore.desire, h]
    · rfl

theorem ackRow_cases (ack : AgentAck) :
    ackRow w a ack = a ∨ (a.workerId = some w ∧ ack = ⟨a.id, a.commandGeneration⟩ ∧
      a.lastAckedGeneration < a.commandGeneration ∧
        ackRow w a ack = acked a.commandGeneration a) := by
  unfold ackRow
  by_cases h : ackApplies w ack a = true
  · rw [if_pos h]
    simp only [ackApplies, Bool.and_eq_true, decide_eq_true_eq] at h
    obtain ⟨⟨⟨hid, hw⟩, hg⟩, hlt⟩ := h
    refine .inr ⟨hw, ?_, by omega, by rw [hg]⟩
    rw [hid, hg]
  · rw [if_neg h]
    exact .inl rfl

/-- Of a list of acknowledgements at most one applies, once. -/
theorem ackRows_cases (acks : List AgentAck) :
    acks.foldl (ackRow w) a = a ∨ (a.workerId = some w ∧ ⟨a.id, a.commandGeneration⟩ ∈ acks ∧
      a.lastAckedGeneration < a.commandGeneration ∧
        acks.foldl (ackRow w) a = acked a.commandGeneration a) := by
  induction acks generalizing a with
  | nil => exact .inl rfl
  | cons ack acks ih =>
    rw [List.foldl_cons]
    rcases ackRow_cases (w := w) (a := a) ack with he | ⟨hw, rfl, hlt, he⟩
    · rw [he]
      rcases ih (a := a) with hf | ⟨hw, hm, hlt, hf⟩
      · exact .inl hf
      · exact .inr ⟨hw, List.mem_cons_of_mem _ hm, hlt, hf⟩
    · rw [he]
      refine .inr ⟨hw, List.mem_cons_self, hlt, ?_⟩
      rcases ih (a := acked a.commandGeneration a) with hf | ⟨-, -, hno, -⟩
      · exact hf
      · exact absurd hno (lt_irrefl a.commandGeneration)

theorem command_step (s : StoreState) (op : Statement) (a : Agent) :
    CommandStep op a (op.onRow s a) := by
  cases op with
  | statusLocked id status =>
    simp only [Statement.onRow]
    split
    · exact status_step s.now status
    · exact .same rfl
  | updateStatus id status =>
    simp only [Statement.onRow, withStatus_eq]
    split
    · exact status_step s.now status
    · exact .same rfl
  | assignLocked id w cap fence =>
    simp only [Statement.onRow]
    split
    · exact mem_placed_step s.now fence
    · exact .same rfl
  | updatePlacement id w fence =>
    simp only [Statement.onRow]
    split
    · exact pg_placed_step s.now fence
    · exact .same rfl
  | desireLocked id desired fence =>
    simp only [Statement.onRow]
    split
    · exact mem_desire_step s.now desired fence
    · exact .same rfl
  | updateDesired id desired fence =>
    simp only [Statement.onRow]
    split
    · exact pg_desire_step s.now desired fence
    · exact .same rfl
  | ackLocked w acks =>
    rcases ackRows_cases (w := w) (a := a) acks with he | ⟨hw, hm, hlt, he⟩
    · exact .same (congrArg commandPart he)
    · exact .acked w hw ⟨rfl, hm⟩ hlt (congrArg commandPart he)
  | updateAcked w ack =>
    rcases ackRow_cases (w := w) (a := a) ack with he | ⟨hw, hack, hlt, he⟩
    · exact .same (congrArg commandPart he)
    · exact .acked w hw ⟨rfl, hack⟩ hlt (congrArg commandPart he)
  | observeLocked w os =>
    exact .same (observeLocked_keeps commandPart (fun _ => rfl) (fun _ _ _ => rfl) s os a)
  | clearUnspoken w spoken => exact .same (silence_keeps commandPart (fun _ => rfl) spoken a)
  | updateObserved now w o =>
    exact .same (observeRow_keeps commandPart (fun _ _ _ => rfl) now a o)
  | _ => exact .same rfl

end Rows

/-- What no step takes back of a row. -/
structure Progress (a a' : Agent) : Prop where
  generation : a.commandGeneration ≤ a'.commandGeneration
  acked : a.lastAckedGeneration ≤ a'.lastAckedGeneration
  rises : a'.desiredStatus ≠ a.desiredStatus ∨ a'.workerId ≠ a.workerId →
    a.commandGeneration < a'.commandGeneration

theorem commandPart_eq {a' : Agent} {d : AgentDesiredStatus} {p : Option WorkerId} {g k : ℤ}
    (h : commandPart a' = (d, p, g, k)) :
    a'.desiredStatus = d ∧ a'.workerId = p ∧ a'.commandGeneration = g ∧
      a'.lastAckedGeneration = k := by
  simpa [commandPart] using h

theorem CommandStep.progress {op : Statement} {a a' : Agent} (h : CommandStep op a a') :
    Progress a a' := by
  cases h with
  | same h =>
    obtain ⟨hd, hw, hg, hk⟩ := commandPart_eq h
    constructor
    · omega
    · omega
    · rintro (hne | hne)
      · exact absurd hd hne
      · exact absurd hw hne
  | issued hg hk =>
    constructor
    · omega
    · omega
    · intro _
      omega
  | acked w hw ho hlt h =>
    obtain ⟨hd, hw, hg, hk⟩ := commandPart_eq h
    constructor
    · omega
    · omega
    · rintro (hne | hne)
      · exact absurd hd hne
      · exact absurd hw hne

section Runs

variable {b : Backend} {c₀ c c' : AgentConfig} {w : WorkerId} {id : AgentId} {g : ℤ}
  {i : ℕ} {x : AgentAction} {ack : AgentAck}

/-- At some moment of the run the command stood in the row, for the worker; it was then still to
be seen whether a thread from the `n`-th on would acknowledge it. -/
def IssuedBefore (b : Backend) (c₀ c : AgentConfig) (w : WorkerId) (ack : AgentAck) (n : ℕ) : Prop :=
  ∃ c₁ a, (fleetAgents b).Reaches Machine.always c₀ c₁ ∧
    (fleetAgents b).Reaches Machine.always c₁ c ∧ c₁.threads.length ≤ n ∧
      row c₁ ack.agentId = some a ∧ a.workerId = some w ∧ a.commandGeneration = ack.generation

/-- After the command was issued to the worker, the worker sent an acknowledgement of exactly this
command, and the store carried it out. -/
def Acknowledged (b : Backend) (c₀ c : AgentConfig) (w : WorkerId) (ack : AgentAck) : Prop :=
  ∃ i acks, IssuedBefore b c₀ c w ack i ∧ Serving c i (.ackAgentCommands w acks) ∧ ack ∈ acks ∧
    ∃ e ∈ history c.log i, e.op.acks w ack

theorem issued_step (hs : (fleetAgents b).step c x = some c') {n : ℕ}
    (h : IssuedBefore b c₀ c w ack n) : IssuedBefore b c₀ c' w ack n := by
  obtain ⟨c₁, a, h₁, h₂, hn, hrow⟩ := h
  exact ⟨c₁, a, h₁, .tail x h₂ trivial hs, hn, hrow⟩

theorem acknowledged_step (hs : (fleetAgents b).step c x = some c')
    (h : Acknowledged b c₀ c w ack) : Acknowledged b c₀ c' w ack := by
  obtain ⟨i, acks, hi, hserve, hm, e, he, ho⟩ := h
  exact ⟨i, acks, issued_step hs hi, serving_step hs hserve, hm, e,
    (history_suffix (Machine.step_log hs) i).subset he, ho⟩

theorem acks_request {request : Request} {op : Statement} (hs : Serves request op)
    (ho : op.acks w ack) : ∃ acks, request = .ackAgentCommands w acks ∧ ack ∈ acks := by
  cases hs with
  | reads hr hp => cases op <;> first | exact ho.elim | cases hr
  | ackLocked v acks =>
    obtain ⟨rfl, hm⟩ := ho
    exact ⟨acks, rfl, hm⟩
  | updateAcked v acks a h =>
    obtain ⟨rfl, rfl⟩ := ho
    exact ⟨acks, rfl, h⟩
  | _ => exact ho.elim

theorem mem_listAgentCommands {s : StoreState} {rank : AgentId → ℕ} {command : AgentCommand}
    (h : command ∈ listAgentCommands s rank w) :
    ∃ a, s.agents.get command.agentId = some a ∧ a.workerId = some w ∧
      a.commandGeneration = command.generation := by
  obtain ⟨a, ha, rfl⟩ := List.mem_map.mp h
  rw [mem_oldestFirst, List.mem_filter, mem_inOrder] at ha
  refine ⟨a, Keyed.get_of_mem ha.1, ?_, rfl⟩
  simp only [Bool.and_eq_true, decide_eq_true_eq] at ha
  exact ha.2.1

theorem settle_told (p : ℕ) (v : World) (op : Statement) (r : op.Resp)
    (h : ∀ w, op ≠ .listCommands w) : (op.settle p v r).told = v.told := by
  cases op with
  | lockWorker v => cases r <;> rfl
  | updatePlacement id v fence =>
    simp only [Statement.settle]
    split <;> rfl
  | listCommands w => exact absurd rfl (h w)
  | _ => rfl

/-- What workers were told was so, and what they acknowledge they were told. -/
structure Heard (b : Backend) (c₀ c : AgentConfig) : Prop where
  told : ∀ t ∈ c.state.told,
    IssuedBefore b c₀ c t.1 ⟨t.2.agentId, t.2.generation⟩ c.threads.length
  sent : ∀ i w acks, Serving c i (.ackAgentCommands w acks) → ∀ ack ∈ acks,
    IssuedBefore b c₀ c w ack i

theorem start_told {p : ℕ} {request : Request}
    (hs : (fleetAgents b).step c (.start p request) = some c') :
    c'.state.told = c.state.told ∧
      ∀ w acks, request = .ackAgentCommands w acks → ∀ ack ∈ acks,
        c.state.wasTold w ack = true := by
  have ha : accept p request c.state = some c'.state := (Machine.step_start hs).1
  unfold accept at ha
  by_cases hp : c.state.connections.contains p = true
  · rw [if_pos hp] at ha
    cases ha
  · rw [if_neg hp] at ha
    cases request with
    | createAgent agent =>
      simp only [Option.ite_none_right_eq_some, Option.some.injEq] at ha
      rw [← ha.2]
      refine ⟨rfl, ?_⟩
      intro w acks he
      cases he
    | ackAgentCommands v acks =>
      simp only [Option.ite_none_right_eq_some, Option.some.injEq] at ha
      rw [← ha.2]
      refine ⟨rfl, ?_⟩
      intro w acks he
      cases he
      simpa [World.wasTold] using ha.1
    | _ =>
      simp only [Option.some.injEq] at ha
      rw [← ha]
      refine ⟨rfl, ?_⟩
      intro w acks he
      cases he

theorem heard_told (h : Heard b c₀ c) (hack : c.state.wasTold w ack = true) :
    IssuedBefore b c₀ c w ack c.threads.length := by
  simp only [World.wasTold, List.any_eq_true, Bool.and_eq_true, decide_eq_true_eq] at hack
  obtain ⟨t, ht, ⟨rfl, hid⟩, hg⟩ := hack
  have hissued := h.told t ht
  rw [hid, hg] at hissued
  exact hissued

theorem heard_step (hr : (fleetAgents b).Reaches Machine.always c₀ c)
    (hs : (fleetAgents b).step c x = some c') (h : Heard b c₀ c) : Heard b c₀ c' := by
  have hlen := Machine.step_threads_le hs
  have hold : ∀ t ∈ c.state.told,
      IssuedBefore b c₀ c' t.1 ⟨t.2.agentId, t.2.generation⟩ c'.threads.length := by
    intro t ht
    obtain ⟨c₁, a, h₁, h₂, hn, hrow⟩ := issued_step hs (h.told t ht)
    exact ⟨c₁, a, h₁, h₂, hn.trans hlen, hrow⟩
  constructor
  · cases x with
    | start p request =>
      rw [(start_told hs).1]
      exact hold
    | env s =>
      rw [(env_state hs).1]
      exact hold
    | run i rank =>
      obtain ⟨op, ⟨r⟩⟩ := Machine.step_run hs
      rw [(ran_exec r).2.2]
      by_cases hop : ∃ v, op = .listCommands v
      · obtain ⟨v, rfl⟩ := hop
        intro t ht
        rcases List.mem_append.mp ht with ht | ht
        · obtain ⟨command, hcommand, rfl⟩ := List.mem_map.mp ht
          rw [(ran_exec r).2.1] at hcommand
          obtain ⟨a, ha, hw, hg⟩ := mem_listAgentCommands hcommand
          exact ⟨c, a, hr, .single trivial hs, hlen, ha, hw, hg⟩
        · exact hold t ht
      · rw [settle_told _ _ _ _ fun w he => hop ⟨w, he⟩]
        exact hold
  · intro i w acks hserve ack hack
    rcases serving_origin hs hserve with hserve | ⟨p, rfl, rfl⟩
    · exact issued_step hs (h.sent i w acks hserve ack hack)
    · exact issued_step hs (heard_told h ((start_told hs).2 w acks rfl ack hack))

theorem reached_heard (h₀ : Start c₀) (h : (fleetAgents b).Reaches Machine.always c₀ c) :
    Heard b c₀ c := by
  apply h.invariant (P := Heard b c₀)
  · constructor
    · intro t ht
      rw [h₀.told] at ht
      cases ht
    · rintro i w acks ⟨t, ht, -⟩
      rw [h₀.fresh.threads] at ht
      cases ht
  · intro c x c' hr _ hs hh
    exact heard_step hr hs hh

theorem isNew_command {a : Agent} (h : isNew a = true) :
    a.commandGeneration = 0 ∧ a.lastAckedGeneration = 0 := by
  simp only [isNew, Bool.and_eq_true, decide_eq_true_eq] at h
  simp [h]

/-- An acknowledgement never runs ahead, and a delivered command was acknowledged. -/
def Accounted (b : Backend) (c₀ c : AgentConfig) : Prop :=
  ∀ id a, row c id = some a → a.lastAckedGeneration ≤ a.commandGeneration ∧
    (0 < a.commandGeneration → a.commandDelivered = true →
      ∃ w, a.workerId = some w ∧ Acknowledged b c₀ c w ⟨id, a.commandGeneration⟩)

theorem accounted_step (h₀ : Start c₀) (hr : (fleetAgents b).Reaches Machine.always c₀ c)
    (hs : (fleetAgents b).step c x = some c') (h : Accounted b c₀ c) : Accounted b c₀ c' := by
  intro id a' ha'
  have hstep := row_step h₀ hr hs id
  rw [ha'] at hstep
  generalize ho : row c id = o at hstep
  cases hstep with
  | kept =>
    obtain ⟨hle, hd⟩ := h id a' ho
    refine ⟨hle, fun hpos hdel => ?_⟩
    obtain ⟨w, hw, hack⟩ := hd hpos hdel
    exact ⟨w, hw, acknowledged_step hs hack⟩
  | born _ hn =>
    obtain ⟨hg, hk⟩ := isNew_command hn
    constructor
    · omega
    · intro hpos
      omega
  | changed i rank op r hx hl a hid =>
    obtain ⟨hle, hd⟩ := h id a ho
    simp only [Agent.commandDelivered, decide_eq_true_eq] at hd ⊢
    cases command_step c.state.store op a with
    | same hpart =>
      obtain ⟨-, hw', hg', hk'⟩ := commandPart_eq hpart
      rw [hw', hg', hk']
      refine ⟨hle, fun hpos hdel => ?_⟩
      obtain ⟨w, hw, hack⟩ := hd hpos hdel
      exact ⟨w, hw, acknowledged_step hs hack⟩
    | issued hg' hk' =>
      constructor
      · omega
      · intro _ hdel
        omega
    | acked w hw hop hlt hpart =>
      obtain ⟨-, hw', hg', hk'⟩ := commandPart_eq hpart
      rw [hw', hg', hk']
      refine ⟨le_rfl, fun _ _ => ⟨w, hw, ?_⟩⟩
      rw [hid] at hop
      obtain ⟨acks, hact, hm⟩ := acks_request hl.1 hop
      have hserve : Serving c i (.ackAgentCommands w acks) := hact ▸ ran_serving r
      have hsent := (reached_heard h₀ hr).sent i w acks hserve _ hm
      refine ⟨i, acks, issued_step hs hsent, serving_step hs hserve, hm, ⟨op, r.resp⟩, ?_, hop⟩
      rw [r.after.2]
      exact List.mem_cons_self

/-- The command protocol: over every run from an empty table, with calls interleaved statement by
statement and acknowledgements sent at any later time, as often as a worker likes. -/
theorem commands_accounted (h₀ : Start c₀) (hnone : c₀.state.store.agents.rows = [])
    (h : (fleetAgents b).Reaches Machine.always c₀ c) :
    (∀ x c', (fleetAgents b).step c x = some c' → ∀ id a, row c id = some a →
      ∃ a', row c' id = some a' ∧ Progress a a') ∧ Accounted b c₀ c := by
  constructor
  · intro x c' hs id a ha
    have hstep := row_step h₀ h hs id
    rw [ha] at hstep
    generalize ho : row c' id = o at hstep
    cases hstep with
    | kept => exact ⟨a, rfl, le_rfl, le_rfl, fun hne => by simp at hne⟩
    | changed i rank op r hx hl a hid => exact ⟨_, rfl, (command_step c.state.store op a).progress⟩
  · apply h.invariant (P := Accounted b c₀)
    · intro id a ha
      have hm := (Keyed.get_eq_some.mp ha).1
      rw [hnone] at hm
      cases hm
    · intro c x c' hr _ hs hacc
      exact accounted_step h₀ hr hs hacc

end Runs

/-- An agent is created, started, and its worker acknowledges what it was told. -/
def startedAgent : List AgentAction :=
  serving 0 (.createAgent (agentFor 1 1)) 2 ++
    serving 1 (.setAgentDesiredStatus ⟨1⟩ .running none) 2 ++
    serving 2 (.listAgentCommands ⟨1⟩) 1 ++ serving 3 (.ackAgentCommands ⟨1⟩ [⟨⟨1⟩, 1⟩]) 1

theorem started_agent_acknowledged :
    Acknowledged .mem (idleFleet none) ((fleetAgents .mem).after (idleFleet none) startedAgent)
      ⟨1⟩ ⟨⟨1⟩, 1⟩ := by
  have h := (commands_accounted (idleFleet_start none) rfl
    (Machine.after_reaches (M := fleetAgents .mem) startedAgent)).2 ⟨1⟩ _ rfl
  obtain ⟨w, hw, hack⟩ := h.2 (by decide) rfl
  cases hw
  exact hack

end FleetOrchestrator.Agents
