import FleetOrchestrator.Worker.Registration
import Mathlib.Data.List.Nodup

/-! The agent processes of a worker, and the pass that makes them what the orchestrator asks. -/

namespace FleetOrchestrator.Worker

open Core

structure AgentProc where
  /-- The process id. -/
  child : ℕ
  port : ℕ
  deriving DecidableEq, Repr

/-- A port range that `AgentProcessManager::new` lets through. -/
structure PortRange where
  lo : ℕ
  hi : ℕ
  positive : 0 < lo
  ordered : lo ≤ hi

def PortRange.pair : PortRange := ⟨9000, 9001, by decide, by decide⟩

def PortRange.ports (range : PortRange) : List ℕ := List.range' range.lo (range.hi + 1 - range.lo)

theorem PortRange.mem_ports {range : PortRange} {port : ℕ} :
    port ∈ range.ports ↔ range.lo ≤ port ∧ port ≤ range.hi := by
  have := range.ordered
  rw [ports, List.mem_range'_1]
  omega

/-- The table of the manager: one process an agent, one port a process. -/
structure Processes (range : PortRange) where
  rows : List (AgentId × AgentProc)
  ids : (rows.map Prod.fst).Nodup
  ports : (rows.map fun r => r.2.port).Nodup
  inRange : ∀ r ∈ rows, r.2.port ∈ range.ports

namespace Processes

variable {range : PortRange}

def empty : Processes range := ⟨[], List.nodup_nil, List.nodup_nil, nofun⟩

def agents (t : Processes range) : List AgentId := t.rows.map Prod.fst

def length (t : Processes range) : ℕ := t.rows.length

def filter (t : Processes range) (p : AgentId → Bool) : Processes range where
  rows := t.rows.filter fun r => p r.1
  ids := t.ids.sublist (List.filter_sublist.map _)
  ports := t.ports.sublist (List.filter_sublist.map _)
  inRange r hr := t.inRange r (List.mem_of_mem_filter hr)

/-- A port of the range that no process of the table has. -/
def Free (t : Processes range) (port : ℕ) : Prop :=
  port ∈ range.ports ∧ port ∉ t.rows.map fun r => r.2.port

def insert (t : Processes range) (id : AgentId) (proc : AgentProc) (hid : id ∉ t.agents)
    (hport : t.Free proc.port) : Processes range where
  rows := t.rows ++ [(id, proc)]
  ids := by
    rw [List.map_append]
    exact List.nodup_append_comm.mp (List.nodup_cons.mpr ⟨hid, t.ids⟩)
  ports := by
    rw [List.map_append]
    exact List.nodup_append_comm.mp (List.nodup_cons.mpr ⟨hport.2, t.ports⟩)
  inRange r hr := by
    rcases List.mem_append.mp hr with hr | hr
    · exact t.inRange r hr
    · rw [List.mem_singleton.mp hr]
      exact hport.1

/-- `free_port`, given which ports can be bound. -/
def freePort (t : Processes range) (binds : ℕ → Bool) : Option { port // t.Free port } :=
  match h : range.ports.find? fun port =>
    !(t.rows.map fun r => r.2.port).contains port && binds port with
  | none => none
  | some port => some ⟨port, List.mem_of_find?_eq_some h, by
      have := List.find?_some h
      simp only [Bool.and_eq_true, Bool.not_eq_true', List.contains_eq_mem,
        decide_eq_false_iff_not] at this
      exact this.1⟩

end Processes

/-- What `try_wait` says of a child. -/
inductive Poll where
  | running
  | exited
  | unknown
  deriving DecidableEq, Repr

/-- The machine below the manager, as one pass meets it. -/
structure Machine where
  polls : AgentId → Poll
  /-- Which ports can be bound while one is sought for the agent. -/
  binds : AgentId → ℕ → Bool
  /-- The child that a start gives, where it succeeds. -/
  spawns : AgentId → ℕ → Option ℕ
  /-- Whether the record of a start can be written. -/
  writes : AgentId → Bool

/-- What the manager does to the machine. -/
inductive MachineCall where
  /-- The handle of a child leaves the table, and kills what it may still be. -/
  | killOnDrop (id : AgentId) (child : ℕ)
  | removeSpawnRecord (id : AgentId)
  | terminateAll (doomed : List (AgentId × AgentProc))
  | removeWorkspace (id : AgentId)
  | spawn (id : AgentId) (port : ℕ) (child : Option ℕ)
  | writeSpawnRecord (id : AgentId) (child port : ℕ) (written : Bool)
  deriving DecidableEq, Repr

structure AgentProcessManager where
  portRange : PortRange
  maxProcesses : ℕ

namespace AgentProcessManager

variable (m : AgentProcessManager) (machine : Machine)

/-- One turn of the loop that starts what is missing. -/
def start (t : Processes m.portRange) (id : AgentId) :
    Processes m.portRange × AgentObservation × List MachineCall :=
  if hid : id ∈ t.agents then (t, .running id, [])
  else if t.length ≥ m.maxProcesses then (t, .failed id .capReached, [])
  else
    match t.freePort (machine.binds id) with
    | none => (t, .failed id .noFreePort, [])
    | some port =>
      match machine.spawns id port with
      | none => (t, .failed id .spawnFailed, [.spawn id port none])
      | some child =>
        (t.insert id ⟨child, port⟩ hid port.2, .running id,
          [.spawn id port (some child), .writeSpawnRecord id child port (machine.writes id)])

def startAll (t : Processes m.portRange) :
    List AgentId → Processes m.portRange × List AgentObservation × List MachineCall
  | [] => (t, [], [])
  | id :: rest =>
    let r := m.start machine t id
    let rs := startAll r.1 rest
    (rs.1, r.2.1 :: rs.2.1, r.2.2 ++ rs.2.2)

/-- The agents that the commands want in a state. -/
def desired (status : AgentDesiredStatus) (commands : List AgentCommand) : List AgentId :=
  (commands.filter fun c => c.desiredStatus = status).map AgentCommand.agentId

def reconcile (t : Processes m.portRange) :
    Option (List AgentCommand) →
      Option ReconcileOutcome × Processes m.portRange × List MachineCall
  | none => (none, t, [])
  | some commands =>
    let dead := t.filter fun id => machine.polls id ≠ .running
    let polled := t.filter fun id => machine.polls id = .running
    let keep := desired .running commands
    let mentioned := commands.map AgentCommand.agentId
    let doomed := polled.filter fun id => !keep.contains id
    let orphans := (doomed.agents.filter fun id => !mentioned.contains id).map
      fun id => ⟨id, .unplaced⟩
    let started := m.startAll machine (polled.filter keep.contains) keep
    (some ⟨started.2.1, orphans⟩, started.1,
      dead.rows.flatMap (fun r => [.killOnDrop r.1 r.2.child, .removeSpawnRecord r.1]) ++
        doomed.agents.map .removeSpawnRecord ++
        [.terminateAll doomed.rows] ++ (desired .stopped commands).map .removeWorkspace ++
        started.2.2)

def shutdownAll (t : Processes m.portRange) : Processes m.portRange × List MachineCall :=
  (.empty, t.agents.map .removeSpawnRecord ++ [.terminateAll t.rows])

/-- The agents that were in the table, and the machine's calls. -/
def fenceAll (t : Processes m.portRange) :
    List AgentId × Processes m.portRange × List MachineCall :=
  (t.agents, .empty, t.agents.map .removeSpawnRecord ++ [.terminateAll t.rows])

end AgentProcessManager

end FleetOrchestrator.Worker
