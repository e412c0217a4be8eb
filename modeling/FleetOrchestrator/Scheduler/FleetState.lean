import FleetOrchestrator.Scheduler.Operations

/-! The control-plane side of a process: its audit trail and its lease. -/

namespace FleetOrchestrator.Scheduler

open Core Store

def actorLabel (lease : Option LeaseIdentity) : String :=
  match lease with
  | some identity => "orchestrator:" ++ identity.instanceId
  | none => "orchestrator"

def recordDecision (actor action : String) (target : String × String)
    (detail : List (String × AuditValue)) : M Unit := do
  let now ← utcNow
  let epoch ← call (.process .leaseEpoch)
  let _ ← call (.store (.recordAuditEvent
    ⟨actor, action, some target.1, some target.2, .failure, detail, epoch, now⟩))
  return ()

/-- Nothing to record where no lease is configured. -/
def auditControl (cfg : ProcessConfig) (action : String) (target : String × String)
    (detail : List (String × AuditValue)) : M Unit :=
  match cfg.lease with
  | none => return ()
  | some _ => recordDecision (actorLabel cfg.lease) action target detail

def auditDecision (cfg : ProcessConfig) (action : String) (target : String × String)
    (detail : List (String × AuditValue)) : M Unit :=
  recordDecision (actorLabel cfg.lease) action target detail

namespace LeaseManager

def tryAcquire (identity : LeaseIdentity) : M (Except StoreError ControlLease) := do
  let result ← call (.store (.acquireControlLease identity.clusterId identity.instanceId
    identity.ttl (some identity.binaryVersion)))
  match result with
  | .ok lease =>
    call (.process (.setLeaseStatus (.active lease.epoch)))
    return .ok lease
  | .error e =>
    call (.process (.setLeaseStatus .stopped))
    return .error e

def tryRenew (identity : LeaseIdentity) (epoch : ℤ) : M (Except StoreError ControlLease) := do
  let result ← call (.store (.renewControlLease identity.clusterId identity.instanceId epoch
    identity.ttl))
  match result with
  | .ok lease =>
    call (.process (.setLeaseStatus (.active lease.epoch)))
    return .ok lease
  | .error e =>
    call (.process (.setLeaseStatus .fenced))
    return .error e

def release (identity : LeaseIdentity) : M (Except StoreError Bool) := do
  let epoch ← call (.process .leaseEpoch)
  call (.process (.setLeaseStatus .stopped))
  match epoch with
  | none => return .ok false
  | some e => call (.store (.releaseControlLease identity.clusterId identity.instanceId e))

end LeaseManager

end FleetOrchestrator.Scheduler
