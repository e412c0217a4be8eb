import FleetOrchestrator.Core.Fleet
import FleetOrchestrator.Tables.Keyed

namespace FleetOrchestrator.Store

open Core Tables

abbrev TaskTable := Keyed TaskId Task Task.id
abbrev WorkerTable := Keyed WorkerId Worker Worker.id
abbrev AgentTable := Keyed AgentId Agent Agent.id
abbrev LeaseTable := Keyed String ControlLease ControlLease.clusterId

/-- What both backends hold; the clock is the one they stamp rows with. -/
structure StoreState where
  tasks : TaskTable
  workers : WorkerTable
  agents : AgentTable
  credentials : List (String × String)
  templateTools : List (ℕ × List String)
  agentTemplates : List (ℕ × AgentTemplateStatus)
  templateRevisions : List AgentTemplateRevision
  projects : List ProjectId
  controlLeases : LeaseTable
  events : List FleetEvent
  audit : List AuditEvent
  outputs : List (TaskId × String)
  now : ℤ

inductive Backend where
  | mem
  | pg
  deriving DecidableEq, Repr

def StoreState.empty : StoreState :=
  ⟨.empty, .empty, .empty, [], [], [], [], [], .empty, [], [], [], 0⟩

def StoreState.heldEpoch (s : StoreState) (clusterId : String) : Option ℤ :=
  (s.controlLeases.get clusterId).map ControlLease.epoch

/-- The store's own check of a control fence; no fence is no condition. -/
def StoreState.controlFenceHolds (s : StoreState) : Option ControlFence → Bool
  | none => true
  | some f => s.heldEpoch f.clusterId = some f.epoch

theorem fenceHolds_some {s : StoreState} {f : ControlFence} :
    s.controlFenceHolds (some f) = true ↔ s.heldEpoch f.clusterId = some f.epoch := by
  simp [StoreState.controlFenceHolds]

/-- The query form of the same check. -/
def StoreState.leaseExists (s : StoreState) (f : ControlFence) : Bool :=
  s.controlLeases.rows.any fun l => l.clusterId = f.clusterId && l.epoch = f.epoch

theorem leaseExists_eq {s : StoreState} {f : ControlFence} :
    s.leaseExists f = s.controlFenceHolds (some f) := by
  rw [Bool.eq_iff_iff, fenceHolds_some, StoreState.heldEpoch, Option.map_eq_some_iff]
  simp only [StoreState.leaseExists, List.any_eq_true, Bool.and_eq_true, decide_eq_true_eq]
  constructor
  · rintro ⟨l, hl, hc, he⟩
    exact ⟨l, Keyed.get_eq_some.mpr ⟨hl, hc⟩, he⟩
  · rintro ⟨l, hl, he⟩
    exact ⟨l, (Keyed.get_eq_some.mp hl).1, (Keyed.get_eq_some.mp hl).2, he⟩

end FleetOrchestrator.Store
