import FleetOrchestrator.Worker.Processes

/-! What one pass over the agent processes leaves behind. -/

namespace FleetOrchestrator.Worker

open Core

/-- The agents that the calls terminate. -/
def terminated (calls : List MachineCall) : List AgentId :=
  calls.flatMap fun
    | .terminateAll doomed => doomed.map Prod.fst
    | _ => []

theorem terminated_append (c d : List MachineCall) :
    terminated (c ++ d) = terminated c ++ terminated d := List.flatMap_append

theorem terminated_flatMap {β : Type} {f : β → List MachineCall} {l : List β}
    (h : ∀ b, terminated (f b) = []) : terminated (l.flatMap f) = [] := by
  induction l with
  | nil => rfl
  | cons b l ih => rw [List.flatMap_cons, terminated_append, h, ih, List.append_nil]

theorem terminated_map {f : AgentId → MachineCall} {ids : List AgentId}
    (h : ∀ id, terminated [f id] = []) : terminated (ids.map f) = [] := by
  rw [List.map_eq_flatMap]
  exact terminated_flatMap h

namespace Processes

variable {range : PortRange} {t : Processes range} {id : AgentId}

theorem mem_agents : id ∈ t.agents ↔ ∃ proc, (id, proc) ∈ t.rows := by simp [agents]

theorem mem_filter {p : AgentId → Bool} : id ∈ (t.filter p).agents ↔ id ∈ t.agents ∧ p id := by
  simp [agents, filter]

theorem length_filter_le (t : Processes range) (p : AgentId → Bool) :
    (t.filter p).length ≤ t.length := List.length_filter_le _ _

theorem agents_insert {proc : AgentProc} {hid : id ∉ t.agents} {hport : t.Free proc.port} :
    (t.insert id proc hid hport).agents = t.agents ++ [id] := by
  simp [agents, insert]

theorem length_insert {proc : AgentProc} {hid : id ∉ t.agents} {hport : t.Free proc.port} :
    (t.insert id proc hid hport).length = t.length + 1 := by
  simp [length, insert]

end Processes

namespace AgentProcessManager

variable {m : AgentProcessManager} {machine : Machine} {t : Processes m.portRange} {id : AgentId}

/-- What becomes of an agent that is to run. -/
theorem start_cases (machine : Machine) (t : Processes m.portRange) (id : AgentId) :
    (id ∈ t.agents ∧ m.start machine t id = (t, .running id, [])) ∨
    (id ∉ t.agents ∧ ∃ reason calls, (calls = [] ∨ ∃ port, calls = [.spawn id port none]) ∧
      m.start machine t id = (t, .failed id reason, calls)) ∨
    (t.length < m.maxProcesses ∧ ∃ proc hid hport, m.start machine t id =
      (t.insert id proc hid hport, .running id, [.spawn id proc.port (some proc.child),
        .writeSpawnRecord id proc.child proc.port (machine.writes id)])) := by
  unfold start
  by_cases hid : id ∈ t.agents
  · exact .inl ⟨hid, dif_pos hid⟩
  · rw [dif_neg hid]
    by_cases hcap : t.length ≥ m.maxProcesses
    · exact .inr (.inl ⟨hid, _, _, .inl rfl, if_pos hcap⟩)
    · rw [if_neg hcap]
      cases t.freePort (machine.binds id) with
      | none => exact .inr (.inl ⟨hid, _, _, .inl rfl, rfl⟩)
      | some port =>
        dsimp only
        cases hchild : machine.spawns id port with
        | none => exact .inr (.inl ⟨hid, _, _, .inr ⟨_, rfl⟩, rfl⟩)
        | some child => exact .inr (.inr ⟨by omega, ⟨child, port⟩, hid, port.2, rfl⟩)

/-- What starting the agents of a list leaves. -/
structure Started (m : AgentProcessManager) (t : Processes m.portRange) (ids : List AgentId)
    (r : Processes m.portRange × List AgentObservation × List MachineCall) : Prop where
  kept : ∀ row ∈ t.rows, row ∈ r.1.rows
  only : ∀ id ∈ r.1.agents, id ∈ t.agents ∨ id ∈ ids
  cap : t.length = r.1.length ∨ r.1.length ≤ m.maxProcesses
  observed : r.2.1.map AgentObservation.agentId = ids
  calls : terminated r.2.2 = []

theorem started_start (machine : Machine) (t : Processes m.portRange) (id : AgentId) :
    Started m t [id] ((m.start machine t id).1, [(m.start machine t id).2.1],
      (m.start machine t id).2.2) := by
  rcases start_cases machine t id with
    ⟨-, h⟩ | ⟨-, reason, calls, hcalls, h⟩ | ⟨hcap, proc, hid, hport, h⟩
  · rw [h]
    exact ⟨fun _ h => h, fun _ h => .inl h, .inl rfl, rfl, rfl⟩
  · rw [h]
    refine ⟨fun _ h => h, fun _ h => .inl h, .inl rfl, rfl, ?_⟩
    rcases hcalls with rfl | ⟨port, rfl⟩ <;> rfl
  · rw [h]
    refine ⟨fun _ h => List.mem_append_left _ h, fun a ha => ?_, .inr ?_, rfl, rfl⟩
    · rw [Processes.agents_insert, List.mem_append] at ha
      exact ha
    · rw [Processes.length_insert]
      exact hcap

theorem started_all (machine : Machine) (t : Processes m.portRange) (ids : List AgentId) :
    Started m t ids (m.startAll machine t ids) := by
  induction ids generalizing t with
  | nil => exact ⟨fun _ h => h, fun _ h => .inl h, .inl rfl, rfl, rfl⟩
  | cons id ids ih =>
    have hone := started_start machine t id
    have hrest := ih (m.start machine t id).1
    refine ⟨fun row h => hrest.kept row (hone.kept row h), fun a ha => ?_, ?_, ?_, ?_⟩
    · rcases hrest.only a ha with ha | ha
      · rcases hone.only a ha with ha | ha
        · exact .inl ha
        · exact .inr (List.mem_cons.mpr (.inl (List.mem_singleton.mp ha)))
      · exact .inr (List.mem_cons_of_mem _ ha)
    · have h₁ := hone.cap
      have h₂ := hrest.cap
      simp only [startAll] at *
      omega
    · change AgentObservation.agentId _ :: List.map _ _ = _
      rw [hrest.observed, (List.cons.inj hone.observed).1]
    · change terminated (_ ++ _) = []
      rw [terminated_append, hone.calls, hrest.calls]
      rfl

theorem observed_start {o : AgentObservation} (h : o = (m.start machine t id).2.1) :
    o = .running o.agentId ↔ id ∈ (m.start machine t id).1.agents := by
  rcases start_cases machine t id with
    ⟨hid, hr⟩ | ⟨hid, reason, calls, -, hr⟩ | ⟨-, proc, hid, hport, hr⟩
  · rw [hr] at h ⊢
    subst h
    exact ⟨fun _ => hid, fun _ => rfl⟩
  · rw [hr] at h ⊢
    subst h
    exact ⟨nofun, fun h => absurd h hid⟩
  · rw [hr] at h ⊢
    subst h
    rw [Processes.agents_insert]
    exact ⟨fun _ => by simp, fun _ => rfl⟩

/-- An agent is reported to run exactly where it ends up in the table. -/
theorem observed_all {ids : List AgentId} (hids : ids.Nodup) :
    ∀ o ∈ (m.startAll machine t ids).2.1,
      (o = .running o.agentId ↔ o.agentId ∈ (m.startAll machine t ids).1.agents) := by
  induction ids generalizing t with
  | nil => exact fun o ho => absurd ho List.not_mem_nil
  | cons id ids ih =>
    obtain ⟨hid, hids⟩ := List.nodup_cons.mp hids
    have hrest := started_all machine (m.start machine t id).1 ids
    intro o ho
    rcases List.mem_cons.mp ho with ho | ho
    · -- nobody after it concerns the same agent
      have hagent : o.agentId = id := by
        rw [ho]
        exact (List.cons.inj (started_start machine t id).observed).1
      rw [observed_start ho, hagent]
      constructor
      · intro h
        obtain ⟨proc, h⟩ := Processes.mem_agents.mp h
        exact Processes.mem_agents.mpr ⟨proc, hrest.kept _ h⟩
      · intro h
        exact (hrest.only id h).resolve_right hid
    · exact ih hids o ho

theorem desired_nodup {status : AgentDesiredStatus} {commands : List AgentCommand}
    (h : (commands.map AgentCommand.agentId).Nodup) : (desired status commands).Nodup :=
  h.sublist (List.filter_sublist.map _)

/-- What a pass over the commands leaves, reports and terminates. -/
structure Converged (m : AgentProcessManager) (machine : Machine) (t : Processes m.portRange)
    (commands : List AgentCommand) (outcome : ReconcileOutcome) (t' : Processes m.portRange)
    (calls : List MachineCall) : Prop where
  only : ∀ id ∈ t'.agents, id ∈ desired .running commands
  once : t'.agents.Nodup
  bound : t'.length ≤ max m.maxProcesses t.length
  growth : (t.rows.filter fun row => machine.polls row.1 = .running ∧
    row.1 ∈ desired .running commands).length < t'.length → t'.length ≤ m.maxProcesses
  distinct : (t'.rows.map fun row => row.2.port).Nodup
  range : ∀ row ∈ t'.rows, m.portRange.lo ≤ row.2.port ∧ row.2.port ≤ m.portRange.hi
  kept : ∀ row ∈ t.rows, machine.polls row.1 = .running → row.1 ∈ desired .running commands →
    row ∈ t'.rows
  observed : outcome.observations.map AgentObservation.agentId = desired .running commands
  running : ∀ o ∈ outcome.observations, (o = .running o.agentId ↔ o.agentId ∈ t'.agents)
  stopped : (terminated calls).Nodup ∧ ∀ id, id ∈ terminated calls ↔
    id ∈ t.agents ∧ machine.polls id = .running ∧ id ∉ desired .running commands
  orphans : outcome.orphans = ((terminated calls).filter fun id =>
    !(commands.map AgentCommand.agentId).contains id).map fun id => ⟨id, .unplaced⟩

/-- One pass over the commands makes the processes what they ask, as far as the cap, the ports and
the machine let it; without commands it leaves them alone. -/
theorem reconcile_converges :
    (∀ commands : List AgentCommand, (commands.map AgentCommand.agentId).Nodup →
      ∃ outcome, (m.reconcile machine t (some commands)).1 = some outcome ∧
        Converged m machine t commands outcome (m.reconcile machine t (some commands)).2.1
          (m.reconcile machine t (some commands)).2.2) ∧
    m.reconcile machine t none = (none, t, []) := by
  refine ⟨fun commands hdistinct => ⟨_, rfl, ?_⟩, rfl⟩
  have hall := started_all machine ((t.filter fun id => machine.polls id = .running).filter
    (desired .running commands).contains) (desired .running commands)
  have hterminated : terminated (m.reconcile machine t (some commands)).2.2 =
      ((t.filter fun id => machine.polls id = .running).filter
        fun id => !(desired .running commands).contains id).agents := by
    simp only [reconcile, terminated_append, hall.calls]
    rw [terminated_flatMap fun _ => rfl, terminated_map fun _ => rfl, terminated_map fun _ => rfl]
    simp [terminated, Processes.agents]
  have hlength : (t.rows.filter fun row => machine.polls row.1 = .running ∧
      row.1 ∈ desired .running commands).length =
      ((t.filter fun id => machine.polls id = .running).filter
        (desired .running commands).contains).length := by
    simp only [Processes.length, Processes.filter, List.filter_filter]
    congr 1
    apply List.filter_congr
    intro row _
    simp [Bool.and_comm]
  refine ⟨fun id hid => ?_, Processes.ids _, ?_, fun hgrown => ?_, Processes.ports _,
    fun row hrow => ?_, fun row hrow halive hkeep => ?_, hall.observed,
    observed_all (desired_nodup hdistinct), ⟨?_, fun id => ?_⟩, ?_⟩
  · rcases hall.only id hid with hid | hid
    · simpa using (Processes.mem_filter.mp hid).2
    · exact hid
  · have h₁ := t.length_filter_le fun id => machine.polls id = .running
    have h₂ := (t.filter fun id => machine.polls id = .running).length_filter_le
      (desired .running commands).contains
    have := hall.cap
    simp only [reconcile]
    omega
  · rw [hlength] at hgrown
    have := hall.cap
    simp only [reconcile] at *
    omega
  · exact PortRange.mem_ports.mp (Processes.inRange _ row hrow)
  · apply hall.kept
    simp only [Processes.filter, List.mem_filter]
    simp [hrow, halive, hkeep]
  · rw [hterminated]
    exact Processes.ids _
  · rw [hterminated, Processes.mem_filter, Processes.mem_filter]
    simp [and_assoc]
  · rw [hterminated]

end AgentProcessManager

namespace Crowded

def manager : AgentProcessManager := ⟨.pair, 1⟩

def table : Processes manager.portRange where
  rows := [(⟨1⟩, ⟨70, 9000⟩), (⟨2⟩, ⟨71, 9001⟩)]
  ids := by decide
  ports := by decide
  inRange := by decide

def machine : Machine := ⟨fun _ => .running, fun _ _ => true, fun _ _ => some 72,
  fun _ => true⟩

def commands : List AgentCommand := [⟨⟨1⟩, .running, 3⟩, ⟨⟨3⟩, .running, 1⟩, ⟨⟨4⟩, .stopped, 2⟩]

theorem crowded_converges : ∃ outcome,
    (manager.reconcile machine table (some commands)).1 = some outcome ∧
      AgentProcessManager.Converged manager machine table commands outcome
        (manager.reconcile machine table (some commands)).2.1
        (manager.reconcile machine table (some commands)).2.2 :=
  AgentProcessManager.reconcile_converges.1 commands (by decide)

end Crowded

end FleetOrchestrator.Worker
