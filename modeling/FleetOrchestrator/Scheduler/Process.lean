import FleetOrchestrator.Scheduler.Breaker
import FleetOrchestrator.Transport.State

/-! One orchestrator process: how it is configured, and what it keeps in memory. -/

namespace FleetOrchestrator.Scheduler

open Core Transport

structure ReconcileConfig where
  staleAfter : ℕ := secs 60
  dispatchedWorkerCheckAfter : ℕ := secs 30
  offlineWorkerGrace : ℕ := secs 300
  maxDispatchRetries : ℕ := 20
  sessionListTimeoutSecs : ℕ := 5
  commandAckTimeout : ℕ := secs 300
  reapOrphanSessions : Bool := true

/-- What a deployment with a control plane lease configures. -/
structure LeaseIdentity where
  clusterId : String
  instanceId : String
  binaryVersion : String
  ttl : ℕ := secs 15
  deriving DecidableEq, Repr

structure ProcessConfig where
  lease : Option LeaseIdentity := none
  breaker : CircuitBreakerConfig
  maxDispatchRetries : ℕ := 0
  reconcile : ReconcileConfig := {}

inductive LeaseStatus where
  | stopped
  | active (epoch : ℤ)
  | fenced
  deriving DecidableEq, Repr

namespace LeaseStatus

def isActive : LeaseStatus → Bool
  | active _ => true
  | stopped | fenced => false

def epoch : LeaseStatus → Option ℤ
  | active e => some e
  | stopped | fenced => none

def label : LeaseStatus → String
  | active _ => "active"
  | fenced => "fenced"
  | stopped => "stopped"

end LeaseStatus

structure Process where
  leaseStatus : LeaseStatus := .stopped
  breakers : WorkerId → Option BreakerInner := fun _ => none
  /-- The workers already asked for their inventory, and the lease epoch that holds for. -/
  recoveredWorkers : Option ℤ × List WorkerId := (none, [])
  runningGauge : ℕ := 0
  toolAllowlists : List (ℕ × List String) := []
  unackedReported : List (AgentId × ℤ) := []
  transport : TransportState := {}

inductive ProcessOp where
  | leaseAllowsControl
  | controlFence
  | leaseEpoch
  | leaseStatusLabel
  | setLeaseStatus (st : LeaseStatus)
  | breakerStateOf (w : WorkerId)
  | breakerGet (w : WorkerId) (initial : CircuitState)
  | breakerState (w : WorkerId)
  | breakerCheck (w : WorkerId)
  | breakerRecord (w : WorkerId) (outcome : Outcome)
  | ledgerContains (generation : Option ℤ) (w : WorkerId)
  | ledgerInsert (w : WorkerId)
  | incRunning
  | decRunning
  | allowlistGet (revision : ℕ)
  | allowlistInsert (revision : ℕ) (tools : List String)
  | reportUnacked (agent : AgentId) (generation : ℤ)
  | utcNow
  deriving DecidableEq

namespace ProcessOp

@[reducible] def Answer : ProcessOp → Type
  | leaseAllowsControl => Bool
  | controlFence => Option ControlFence
  | leaseEpoch => Option ℤ
  | leaseStatusLabel => String
  | setLeaseStatus _ => Unit
  | breakerStateOf _ => BreakerState
  | breakerGet .. => Unit
  | breakerState _ => BreakerState
  | breakerCheck _ => Except ℤ Unit
  | breakerRecord .. => Unit
  | ledgerContains .. => Bool
  | ledgerInsert _ => Unit
  | incRunning => Unit
  | decRunning => Unit
  | allowlistGet _ => Option (List String)
  | allowlistInsert .. => Unit
  | reportUnacked .. => Bool
  | utcNow => ℤ

end ProcessOp

namespace Process

def breakerOf (p : Process) (w : WorkerId) : BreakerState :=
  match p.breakers w with
  | some b => b.state
  | none => .closed

def setBreaker (p : Process) (w : WorkerId) (b : BreakerInner) : Process :=
  { p with breakers := fun v => if v = w then some b else p.breakers v }

def usizeModulus : ℕ := 2 ^ 64

variable (cfg : ProcessConfig) (now : ℤ) (p : Process)

def leaseAllowsControl : Bool :=
  match cfg.lease with
  | some _ => p.leaseStatus.isActive
  | none => true

def controlFence : Option ControlFence :=
  match cfg.lease with
  | some identity => p.leaseStatus.epoch.map fun epoch => ⟨identity.clusterId, epoch⟩
  | none => none

def leaseEpoch : Option ℤ :=
  match cfg.lease with
  | some _ => p.leaseStatus.epoch
  | none => none

def leaseStatusLabel : String :=
  match cfg.lease with
  | some _ => p.leaseStatus.label
  | none => "no_lease_configured"

def perform : (op : ProcessOp) → op.Answer × Process
  | .leaseAllowsControl => (p.leaseAllowsControl cfg, p)
  | .controlFence => (p.controlFence cfg, p)
  | .leaseEpoch => (p.leaseEpoch cfg, p)
  | .leaseStatusLabel => (p.leaseStatusLabel cfg, p)
  | .setLeaseStatus st => ((), { p with leaseStatus := st })
  | .breakerStateOf w => (p.breakerOf w, p)
  | .breakerGet w initial =>
    ((), match p.breakers w with
      | some _ => p
      | none => p.setBreaker w (.newWithState now initial))
  | .breakerState w => (p.breakerOf w, p)
  | .breakerCheck w =>
    match p.breakers w with
    | some b => ((b.check cfg.breaker now).1, p.setBreaker w (b.check cfg.breaker now).2)
    | none => (.ok (), p)
  | .breakerRecord w outcome =>
    ((), match p.breakers w with
      | some b => p.setBreaker w (b.record cfg.breaker now outcome)
      | none => p)
  | .ledgerContains generation w =>
    let ledger := if p.recoveredWorkers.1 ≠ generation then (generation, [])
      else p.recoveredWorkers
    (ledger.2.contains w, { p with recoveredWorkers := ledger })
  | .ledgerInsert w =>
    ((), { p with recoveredWorkers := (p.recoveredWorkers.1, w :: p.recoveredWorkers.2) })
  | .incRunning => ((), { p with runningGauge := (p.runningGauge + 1) % usizeModulus })
  | .decRunning =>
    ((), { p with runningGauge := (p.runningGauge + usizeModulus - 1) % usizeModulus })
  | .allowlistGet revision => (p.toolAllowlists.lookup revision, p)
  | .allowlistInsert revision tools =>
    ((), { p with toolAllowlists := (revision, tools) :: p.toolAllowlists })
  | .reportUnacked agent generation =>
    if p.unackedReported.contains (agent, generation) then (false, p)
    else (true, { p with unackedReported := (agent, generation) :: p.unackedReported })
  | .utcNow => (now, p)

end Process

end FleetOrchestrator.Scheduler
