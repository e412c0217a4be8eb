import FleetOrchestrator.Store.Tasks

/-! What the agent operations do to the tables: under one lock in the one backend, by one SQL
statement in the other. -/

namespace FleetOrchestrator.Agents

open Core Tables Store

/-- The agent holds one of the worker's slots. -/
def claimsSlot (w : WorkerId) (a : Agent) : Bool := a.workerId = some w && a.status ≠ .stopped

def countAgents (s : StoreState) (w : WorkerId) : ℕ := s.agents.rows.countP (claimsSlot w)

def countOthers (s : StoreState) (w : WorkerId) (id : AgentId) : ℕ :=
  s.agents.rows.countP fun a => claimsSlot w a && a.id ≠ id

def workerCap (s : StoreState) (w : WorkerId) : Option (Option ℕ) :=
  (s.workers.get w).map Worker.maxAgentProcesses

def nameTaken (detail : String) : StoreError :=
  .conflict ("agent name already exists in this project: " ++ detail)

def noSuchRevision (pin : AgentTemplatePin) : StoreError :=
  .conflict ("no such template revision for agent pin: template=" ++ toString pin.templateId ++
    " revision=" ++ toString pin.revisionId)

def revoked (pin : AgentTemplatePin) : StoreError :=
  .conflict ("template revision " ++ toString pin.revisionId ++ " is revoked and cannot be pinned")

def refusesPins (pin : AgentTemplatePin) (status : AgentTemplateStatus) : StoreError :=
  .conflict ("template " ++ toString pin.templateId ++ " is " ++ status.asStr ++
    " and does not accept new pins")

def findRevision (s : StoreState) (pin : AgentTemplatePin) : Option AgentTemplateRevision :=
  s.templateRevisions.find? fun r => r.id = pin.revisionId && r.templateId = pin.templateId

/-- A full worker has no slot; a worker of unknown size always has one. -/
def full (cap : Option ℕ) (n : ℕ) : Bool :=
  match cap with
  | none => false
  | some cap => cap ≤ n

def unobserved (a : Agent) : Agent :=
  { a with observedStatus := none, observedAt := none, observedReason := none }

theorem unobserved_id (a : Agent) : (unobserved a).id = a.id := rfl

def acked (generation : ℤ) (a : Agent) : Agent := { a with lastAckedGeneration := generation }

theorem acked_id (generation : ℤ) (a : Agent) : (acked generation a).id = a.id := rfl

/-- The acknowledgement is the placed worker's, of the current command, and a new one. -/
def ackApplies (w : WorkerId) (ack : AgentAck) (a : Agent) : Bool :=
  a.id = ack.agentId && a.workerId = some w && a.commandGeneration = ack.generation &&
    a.lastAckedGeneration < ack.generation

/-- The worker's list is silent about an agent that it had said something about. -/
def unspoken (w : WorkerId) (spoken : List AgentId) (a : Agent) : Bool :=
  a.workerId = some w && a.observedStatus.isSome && !spoken.contains a.id

def observed (now : ℤ) (o : AgentObservation) (a : Agent) : Agent :=
  { a with observedStatus := some o.status, observedAt := some now, observedReason := o.reason }

theorem observed_id (now : ℤ) (o : AgentObservation) (a : Agent) :
    (observed now o a).id = a.id := rfl

def clearUnspoken (s : StoreState) (w : WorkerId) (spoken : List AgentId) : ℕ × StoreState :=
  (s.agents.rowsAffected (unspoken w spoken),
    { s with agents := s.agents.updateWhere (unspoken w spoken) unobserved unobserved_id })

namespace MemStore

def checkPin (s : StoreState) : Option AgentTemplatePin → Except StoreError Unit
  | none => .ok ()
  | some pin =>
    match findRevision s pin with
    | none => .error (noSuchRevision pin)
    | some revision =>
      if revision.isRevoked then .error (revoked pin)
      else
        match s.agentTemplates.lookup pin.templateId with
        | none => .error (.conflict ("no such agent template: " ++ toString pin.templateId))
        | some status =>
          if !status.acceptsNewPins then .error (refusesPins pin status) else .ok ()

/-- The rest of `create_agent` after the worker's row was read. -/
def createLocked (s : StoreState) (agent : Agent) (cap : Option (Option ℕ)) :
    Except StoreError (Option WorkerId) × StoreState :=
  if s.agents.rows.any fun a => a.projectId = agent.projectId && a.name = agent.name then
    (.error (nameTaken agent.name), s)
  else
    match checkPin s agent.templatePin with
    | .error e => (.error e, s)
    | .ok _ =>
      match agent.workerId, cap with
      | some w, some cap =>
        if full cap (countAgents s w) then
          (.ok none, { s with agents := s.agents.put agent.withoutPlacement })
        else (.ok (some w), { s with agents := s.agents.put agent })
      | _, _ => (.ok none, { s with agents := s.agents.put agent.withoutPlacement })

def withStatus (now : ℤ) (status : AgentStatus) (a : Agent) : Agent :=
  if status = .stopped ∧ a.desiredStatus ≠ .stopped then
    { a with
      status, desiredStatus := .stopped, commandGeneration := a.commandGeneration + 1,
      commandIssuedAt := some now, updatedAt := now }
  else { a with status, updatedAt := now }

theorem withStatus_id (now : ℤ) (status : AgentStatus) (a : Agent) :
    (withStatus now status a).id = a.id := by
  unfold withStatus
  split <;> rfl

def statusLocked (s : StoreState) (id : AgentId) (status : AgentStatus) :
    Bool × StoreState :=
  match s.agents.get id with
  | none => (false, s)
  | some _ =>
    (true, { s with
      agents := s.agents.modify id (withStatus s.now status) (withStatus_id s.now status) })

def placed (now : ℤ) (w : WorkerId) (fence : Option ControlFence) (a : Agent) : Agent :=
  { if a.workerId ≠ some w then unobserved a else a with
    workerId := some w, assignedAt := some now, commandGeneration := a.commandGeneration + 1,
    commandIssuedAt := some now, commandControlEpoch := fence.map ControlFence.epoch,
    updatedAt := now }

theorem placed_id (now : ℤ) (w : WorkerId) (fence : Option ControlFence) (a : Agent) :
    (placed now w fence a).id = a.id := by
  unfold placed
  split <;> rfl

/-- The rest of `assign_agent_worker` after the fence and the worker's row were read. -/
def assignLocked (s : StoreState) (id : AgentId) (w : WorkerId) (cap : Option (Option ℕ))
    (fence : Option ControlFence) : SlotClaim × StoreState :=
  match s.agents.get id with
  | none => (.noSuchAgent, s)
  | some a =>
    match cap with
    | none => (.noSuchWorker, s)
    | some cap =>
      if full cap (countOthers s w id) then (.capReached, s)
      else if a.observedStatus = some .running ∧ a.workerId ≠ some w then (.observedRunning, s)
      else
        (.claimed, { s with
          agents := s.agents.modify id (placed s.now w fence) (placed_id s.now w fence) })

def desire (now : ℤ) (desired : AgentDesiredStatus) (fence : Option ControlFence) (a : Agent) :
    Agent :=
  if a.desiredStatus ≠ desired then
    { a with
      desiredStatus := desired, commandGeneration := a.commandGeneration + 1,
      commandIssuedAt := some now, commandControlEpoch := fence.map ControlFence.epoch,
      updatedAt := now }
  else { a with updatedAt := now }

theorem desire_id (now : ℤ) (desired : AgentDesiredStatus) (fence : Option ControlFence)
    (a : Agent) : (desire now desired fence a).id = a.id := by
  unfold desire
  split <;> rfl

def desireLocked (s : StoreState) (id : AgentId) (desired : AgentDesiredStatus)
    (fence : Option ControlFence) : CommandIssue × StoreState :=
  match s.agents.get id with
  | none => (.noSuchAgent, s)
  | some _ =>
    (.issued, { s with
      agents := s.agents.modify id (desire s.now desired fence) (desire_id s.now desired fence) })

def ackOne (s : StoreState) (w : WorkerId) (ack : AgentAck) : ℕ × StoreState :=
  match s.agents.get ack.agentId with
  | none => (0, s)
  | some a =>
    if ackApplies w ack a then
      (1, { s with
        agents := s.agents.modify ack.agentId (acked ack.generation) (acked_id ack.generation) })
    else (0, s)

def ackLocked (s : StoreState) (w : WorkerId) : List AgentAck → ℕ × StoreState
  | [] => (0, s)
  | ack :: acks =>
    let first := ackOne s w ack
    let rest := ackLocked first.2 w acks
    (first.1 + rest.1, rest.2)

def observeOne (s : StoreState) (now : ℤ) (w : WorkerId) (o : AgentObservation) :
    ℕ × StoreState :=
  match s.agents.get o.agentId with
  | none => (0, s)
  | some a =>
    if a.workerId ≠ some w then (0, s)
    else (1, { s with agents := s.agents.modify o.agentId (observed now o) (observed_id now o) })

def observeEach (s : StoreState) (now : ℤ) (w : WorkerId) :
    List AgentObservation → ℕ × StoreState
  | [] => (0, s)
  | o :: os =>
    let first := observeOne s now w o
    let rest := observeEach first.2 now w os
    (first.1 + rest.1, rest.2)

def observeLocked (s : StoreState) (w : WorkerId) (observations : List AgentObservation) :
    ℕ × StoreState :=
  let cleared := clearUnspoken s w (observations.map AgentObservation.agentId)
  let written := observeEach cleared.2 s.now w observations
  (cleared.1 + written.1, written.2)

end MemStore

namespace PgStore

def withStatus (now : ℤ) (status : AgentStatus) (a : Agent) : Agent :=
  let issues : Bool := status = .stopped && a.desiredStatus ≠ .stopped
  { a with
    status
    desiredStatus := if status = .stopped then .stopped else a.desiredStatus
    commandGeneration := a.commandGeneration + if issues then 1 else 0
    commandIssuedAt := if issues then some now else a.commandIssuedAt
    updatedAt := now }

theorem withStatus_id (now : ℤ) (status : AgentStatus) (a : Agent) :
    (withStatus now status a).id = a.id := rfl

def updateStatus (s : StoreState) (id : AgentId) (status : AgentStatus) :
    ℕ × StoreState :=
  (s.agents.rowsAffected fun a => a.id = id,
    { s with
      agents := s.agents.updateWhere (fun a => a.id = id) (withStatus s.now status)
        (withStatus_id s.now status) })

/-- The join of the pinned revision with its template. -/
def selectPin (s : StoreState) (pin : AgentTemplatePin) : Option (Bool × AgentTemplateStatus) :=
  match findRevision s pin, s.agentTemplates.lookup pin.templateId with
  | some revision, some status => some (revision.isRevoked, status)
  | _, _ => none

def refused (reason : String) : StoreError := .sqlx ("error returned from database: " ++ reason)

def violates (constraint : String) : StoreError :=
  refused ("new row for relation \"agents\" violates check constraint \"" ++ constraint ++ "\"")

def duplicateKey (constraint : String) : String :=
  "duplicate key value violates unique constraint \"" ++ constraint ++ "\""

def noSuchProject : StoreError :=
  .conflict ("no such project for agent: insert or update on table \"agents\" violates " ++
    "foreign key constraint \"agents_project_id_fkey\"")

/-- The columns the insertion leaves out are null. -/
def insertedRow (a : Agent) : Agent :=
  { a with
    commandIssuedAt := none, commandControlEpoch := none, observedStatus := none,
    observedAt := none, observedReason := none }

/-- The insertion of a new agent, with the placement that was claimed for it. -/
def insertAgent (s : StoreState) (agent : Agent) (claimed : Option WorkerId) :
    Except StoreError Unit × StoreState :=
  let row := insertedRow
    { agent with workerId := claimed, assignedAt := claimed.bind fun _ => agent.assignedAt }
  if row.workerId.isSome ≠ row.assignedAt.isSome then
    (.error (violates "agents_placement_complete"), s)
  else if row.commandGeneration < row.lastAckedGeneration then
    (.error (violates "agents_ack_not_ahead"), s)
  else if s.agents.contains row.id then (.error (nameTaken (duplicateKey "agents_pkey")), s)
  else if s.agents.rows.any fun a => a.projectId = row.projectId && a.name = row.name then
    (.error (nameTaken (duplicateKey "agents_project_id_name_key")), s)
  else if !s.projects.contains row.projectId then (.error noSuchProject, s)
  else (.ok (), { s with agents := s.agents.put row })

/-- The assignment's columns. Without a fence the epoch is not among them. -/
def assigned (now : ℤ) (w : WorkerId) (fence : Option ControlFence) (a : Agent) : Agent :=
  { a with
    workerId := some w, assignedAt := some now, commandGeneration := a.commandGeneration + 1,
    commandIssuedAt := some now, updatedAt := now
    commandControlEpoch :=
      match fence with
      | none => a.commandControlEpoch
      | some f => some f.epoch }

/-- The trigger `agents_clear_placement_and_observation`. -/
def clearPlacementAndObservation (old new : Agent) : Agent :=
  let new := if new.workerId ≠ old.workerId then unobserved new else new
  if new.workerId = none then { new with assignedAt := none } else new

def placed (now : ℤ) (w : WorkerId) (fence : Option ControlFence) (a : Agent) : Agent :=
  clearPlacementAndObservation a (assigned now w fence a)

theorem placed_id (now : ℤ) (w : WorkerId) (fence : Option ControlFence) (a : Agent) :
    (placed now w fence a).id = a.id := by
  unfold placed clearPlacementAndObservation
  dsimp only
  split <;> split <;> rfl

theorem placed_id_now (s : StoreState) (w : WorkerId) (fence : Option ControlFence) (a : Agent) :
    (placed s.now w fence a).id = a.id := placed_id s.now w fence a

def fenceExists (s : StoreState) : Option ControlFence → Bool
  | none => true
  | some f => s.leaseExists f

/-- The second gate: nobody else was seen running the agent. -/
def movable (w : WorkerId) (a : Agent) : Bool :=
  a.workerId = some w || a.observedStatus = none || a.observedStatus = some .failed

def claimable (s : StoreState) (id : AgentId) (w : WorkerId) (fence : Option ControlFence)
    (a : Agent) : Bool :=
  a.id = id && movable w a && fenceExists s fence

def updatePlacement (s : StoreState) (id : AgentId) (w : WorkerId) (fence : Option ControlFence) :
    ℕ × StoreState :=
  (s.agents.rowsAffected (claimable s id w fence),
    { s with
      agents := s.agents.updateWhere (claimable s id w fence) (placed s.now w fence)
        (placed_id s.now w fence) })

def desire (now : ℤ) (desired : AgentDesiredStatus) (fence : Option ControlFence) (a : Agent) :
    Agent :=
  let changes : Bool := a.desiredStatus ≠ desired
  { a with
    desiredStatus := desired
    commandGeneration := a.commandGeneration + if changes then 1 else 0
    commandIssuedAt := if changes then some now else a.commandIssuedAt
    commandControlEpoch :=
      match fence with
      | none => a.commandControlEpoch
      | some f => if changes then some f.epoch else a.commandControlEpoch
    updatedAt := now }

theorem desire_id (now : ℤ) (desired : AgentDesiredStatus) (fence : Option ControlFence)
    (a : Agent) : (desire now desired fence a).id = a.id := rfl

def issuable (s : StoreState) (id : AgentId) (fence : Option ControlFence) (a : Agent) : Bool :=
  a.id = id && fenceExists s fence

def updateDesired (s : StoreState) (id : AgentId) (desired : AgentDesiredStatus)
    (fence : Option ControlFence) : ℕ × StoreState :=
  (s.agents.rowsAffected (issuable s id fence),
    { s with
      agents := s.agents.updateWhere (issuable s id fence) (desire s.now desired fence)
        (desire_id s.now desired fence) })

def updateAcked (s : StoreState) (w : WorkerId) (ack : AgentAck) : ℕ × StoreState :=
  (s.agents.rowsAffected (ackApplies w ack),
    { s with
      agents := s.agents.updateWhere (ackApplies w ack) (acked ack.generation)
        (acked_id ack.generation) })

def updateObserved (s : StoreState) (now : ℤ) (w : WorkerId) (o : AgentObservation) :
    ℕ × StoreState :=
  let p (a : Agent) : Bool := a.id = o.agentId && a.workerId = some w
  (s.agents.rowsAffected p,
    { s with
      agents := s.agents.updateWhere p (observed now o) (observed_id now o) })

end PgStore

/-- The commands of a worker, by the age of their agents. -/
def listAgentCommands (s : StoreState) (rank : AgentId → ℕ) (w : WorkerId) : List AgentCommand :=
  (oldestFirst Agent.createdAt ((inOrder rank Agent.id s.agents.rows).filter fun a =>
    a.workerId = some w &&
      (a.status ≠ .stopped || a.lastAckedGeneration < a.commandGeneration))).map fun a =>
    ⟨a.id, a.desiredStatus, a.commandGeneration⟩

end FleetOrchestrator.Agents
