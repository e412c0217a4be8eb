import FleetOrchestrator.Agents.Statements
import FleetOrchestrator.Interleaving.Discipline

/-! The agent operations of both backends as programs of statements, for any number of callers at
once. A transaction holds the worker's row that it locked until it ends; what it writes it writes
last, and at its end. -/

namespace FleetOrchestrator.Agents

open Core Tables Store Interleaving

inductive Statement where
  | readFence (fence : Option ControlFence)
  | readCap (w : WorkerId)
  | createLocked (agent : Agent) (cap : Option (Option ℕ))
  | statusLocked (id : AgentId) (status : AgentStatus)
  | assignLocked (id : AgentId) (w : WorkerId) (cap : Option (Option ℕ))
    (fence : Option ControlFence)
  | desireLocked (id : AgentId) (desired : AgentDesiredStatus) (fence : Option ControlFence)
  | listCommands (w : WorkerId)
  | ackLocked (w : WorkerId) (acks : List AgentAck)
  | observeLocked (w : WorkerId) (observations : List AgentObservation)
  | selectPin (pin : AgentTemplatePin)
  | lockWorker (w : WorkerId)
  | countAgents (w : WorkerId)
  | countOthers (w : WorkerId) (id : AgentId)
  | insertAgent (agent : Agent) (claimed : Option WorkerId)
  | updateStatus (id : AgentId) (status : AgentStatus)
  | selectAgent (id : AgentId)
  | updatePlacement (id : AgentId) (w : WorkerId) (fence : Option ControlFence)
  | finish
  | updateDesired (id : AgentId) (desired : AgentDesiredStatus) (fence : Option ControlFence)
  | updateAcked (w : WorkerId) (ack : AgentAck)
  | clearUnspoken (w : WorkerId) (spoken : List AgentId)
  | readClock
  | updateObserved (now : ℤ) (w : WorkerId) (o : AgentObservation)

abbrev Statement.Resp : Statement → Type
  | .readFence _ => Bool
  | .readCap _ => Option (Option ℕ)
  | .createLocked _ _ => Except StoreError (Option WorkerId)
  | .statusLocked _ _ => Bool
  | .assignLocked _ _ _ _ => SlotClaim
  | .desireLocked _ _ _ => CommandIssue
  | .listCommands _ => List AgentCommand
  | .ackLocked _ _ => ℕ
  | .observeLocked _ _ => ℕ
  | .selectPin _ => Option (Bool × AgentTemplateStatus)
  | .lockWorker _ => Option (Option ℕ)
  | .countAgents _ => ℕ
  | .countOthers _ _ => ℕ
  | .insertAgent _ _ => Except StoreError Unit
  | .updateStatus _ _ => ℕ
  | .selectAgent _ => Option (Option WorkerId × Option AgentObservedStatus)
  | .updatePlacement _ _ _ => ℕ
  | .finish => Unit
  | .updateDesired _ _ _ => ℕ
  | .updateAcked _ _ => ℕ
  | .clearUnspoken _ _ => ℕ
  | .readClock => ℤ
  | .updateObserved _ _ _ => ℕ

abbrev Call (α : Type) := Prog Statement Statement.Resp α

def execute (op : Statement) : Call op.Resp := Prog.perform op

namespace MemStore

def createAgent (agent : Agent) : Call (Except StoreError (Option WorkerId)) :=
  match agent.workerId with
  | none => execute (.createLocked agent none)
  | some w => do
    let cap ← execute (.readCap w)
    execute (.createLocked agent cap)

def assignAgentWorker (id : AgentId) (w : WorkerId) (fence : Option ControlFence) :
    Call SlotClaim := do
  if !(← execute (.readFence fence)) then
    return .fenced
  let cap ← execute (.readCap w)
  execute (.assignLocked id w cap fence)

def setAgentDesiredStatus (id : AgentId) (desired : AgentDesiredStatus)
    (fence : Option ControlFence) : Call CommandIssue := do
  if !(← execute (.readFence fence)) then
    return .fenced
  execute (.desireLocked id desired fence)

end MemStore

namespace PgStore

def checkPin : Option AgentTemplatePin → Call (Except StoreError Unit)
  | none => return .ok ()
  | some pin => do
    match ← execute (.selectPin pin) with
    | none => return .error (noSuchRevision pin)
    | some (isRevoked, status) =>
      if isRevoked then
        return .error (revoked pin)
      else if !status.acceptsNewPins then
        return .error (refusesPins pin status)
      else
        return .ok ()

/-- The slot that the new agent gets on the worker, if there is one. -/
def claimSlot : Option WorkerId → Call (Option WorkerId)
  | none => return none
  | some w => do
    match ← execute (.lockWorker w) with
    | none => return none
    | some none => return some w
    | some (some cap) =>
      let n ← execute (.countAgents w)
      if full (some cap) n then
        return none
      else
        return some w

def createAgent (agent : Agent) : Call (Except StoreError (Option WorkerId)) := do
  match ← checkPin agent.templatePin with
  | .error e => return .error e
  | .ok _ =>
    let placed ← claimSlot agent.workerId
    match ← execute (.insertAgent agent placed) with
    | .error e => return .error e
    | .ok _ => return .ok placed

/-- Why no row was assigned; the fence comes first. -/
def diagnose (id : AgentId) (w : WorkerId) (fence : Option ControlFence) : Call SlotClaim := do
  let leftover ← execute (.selectAgent id)
  execute .finish
  if !(← execute (.readFence fence)) then
    return .fenced
  match leftover with
  | some (placement, some .running) =>
    if placement ≠ some w then
      return .observedRunning
    else
      return .noSuchAgent
  | _ => return .noSuchAgent

def assignUnlessFull (id : AgentId) (w : WorkerId) (fence : Option ControlFence)
    (cap : Option ℕ) (others : ℕ) : Call SlotClaim := do
  if full cap others then
    execute .finish
    return .capReached
  if 0 < (← execute (.updatePlacement id w fence)) then
    return .claimed
  diagnose id w fence

def assignAgentWorker (id : AgentId) (w : WorkerId) (fence : Option ControlFence) :
    Call SlotClaim := do
  if !(← execute (.readFence fence)) then
    return .fenced
  if (← execute (.selectAgent id)).isNone then
    return .noSuchAgent
  match ← execute (.lockWorker w) with
  | none => return .noSuchWorker
  | some none => assignUnlessFull id w fence none 0
  | some (some cap) =>
    let n ← execute (.countOthers w id)
    assignUnlessFull id w fence (some cap) n

def setAgentDesiredStatus (id : AgentId) (desired : AgentDesiredStatus)
    (fence : Option ControlFence) : Call CommandIssue := do
  if !(← execute (.readFence fence)) then
    return .fenced
  if 0 < (← execute (.updateDesired id desired fence)) then
    return .issued
  if ← execute (.readFence fence) then
    return .noSuchAgent
  else
    return .fenced

def updateAgentStatus (id : AgentId) (status : AgentStatus) : Call Bool := do
  let n ← execute (.updateStatus id status)
  return decide (0 < n)

def ackAgentCommands (w : WorkerId) : List AgentAck → ℕ → Call ℕ
  | [], applied => return applied
  | ack :: acks, applied => do
    let n ← execute (.updateAcked w ack)
    ackAgentCommands w acks (applied + n)

def writeObservations (now : ℤ) (w : WorkerId) : List AgentObservation → ℕ → Call ℕ
  | [], changed => return changed
  | o :: os, changed => do
    let n ← execute (.updateObserved now w o)
    writeObservations now w os (changed + n)

def applyAgentObservations (w : WorkerId) (observations : List AgentObservation) : Call ℕ := do
  let cleared ← execute (.clearUnspoken w (observations.map AgentObservation.agentId))
  let now ← execute .readClock
  writeObservations now w observations cleared

end PgStore

inductive Request where
  | createAgent (agent : Agent)
  | assignAgentWorker (id : AgentId) (w : WorkerId) (fence : Option ControlFence)
  | setAgentDesiredStatus (id : AgentId) (desired : AgentDesiredStatus)
    (fence : Option ControlFence)
  | updateAgentStatus (id : AgentId) (status : AgentStatus)
  | listAgentCommands (w : WorkerId)
  | ackAgentCommands (w : WorkerId) (acks : List AgentAck)
  | applyAgentObservations (w : WorkerId) (observations : List AgentObservation)

inductive Reply where
  | created (r : Except StoreError (Option WorkerId))
  | assigned (r : SlotClaim)
  | issued (r : CommandIssue)
  | updated (found : Bool)
  | listed (commands : List AgentCommand)
  | counted (n : ℕ)
  deriving DecidableEq

def serve : Backend → Request → Call Reply
  | .mem, .createAgent agent => Reply.created <$> MemStore.createAgent agent
  | .pg, .createAgent agent => Reply.created <$> PgStore.createAgent agent
  | .mem, .assignAgentWorker id w fence => Reply.assigned <$> MemStore.assignAgentWorker id w fence
  | .pg, .assignAgentWorker id w fence => Reply.assigned <$> PgStore.assignAgentWorker id w fence
  | .mem, .setAgentDesiredStatus id desired fence =>
    Reply.issued <$> MemStore.setAgentDesiredStatus id desired fence
  | .pg, .setAgentDesiredStatus id desired fence =>
    Reply.issued <$> PgStore.setAgentDesiredStatus id desired fence
  | .mem, .updateAgentStatus id status => Reply.updated <$> execute (.statusLocked id status)
  | .pg, .updateAgentStatus id status => Reply.updated <$> PgStore.updateAgentStatus id status
  | _, .listAgentCommands w => Reply.listed <$> execute (.listCommands w)
  | .mem, .ackAgentCommands w acks => Reply.counted <$> execute (.ackLocked w acks)
  | .pg, .ackAgentCommands w acks => Reply.counted <$> PgStore.ackAgentCommands w acks 0
  | .mem, .applyAgentObservations w observations =>
    Reply.counted <$> execute (.observeLocked w observations)
  | .pg, .applyAgentObservations w observations =>
    Reply.counted <$> PgStore.applyAgentObservations w observations

/-- The store with the worker rows that transactions hold, the connections used so far, the agents'
ids given out so far, and the commands that workers were told. -/
structure World where
  store : StoreState
  locks : List (WorkerId × ℕ)
  connections : List ℕ
  minted : List AgentId
  told : List (WorkerId × AgentCommand)

namespace World

def withStore (w : World) (s : StoreState) : World := { w with store := s }

def lockedByOther (w : World) (v : WorkerId) (p : ℕ) : Bool :=
  w.locks.any fun l => l.1 = v && l.2 ≠ p

def release (w : World) (p : ℕ) : World := { w with locks := w.locks.filter fun l => l.2 ≠ p }

def tell (w : World) (v : WorkerId) (commands : List AgentCommand) : World :=
  { w with told := commands.map (fun command => (v, command)) ++ w.told }

/-- The worker was told the command that it acknowledges. -/
def wasTold (w : World) (v : WorkerId) (ack : AgentAck) : Bool :=
  w.told.any fun t =>
    t.1 = v && t.2.agentId = ack.agentId && t.2.generation = ack.generation

end World

namespace Statement

/-- What the statement answers and leaves in the tables. -/
def effect (rank : AgentId → ℕ) : (op : Statement) → StoreState → op.Resp × StoreState
  | .readFence fence, s => (s.controlFenceHolds fence, s)
  | .readCap v, s => (workerCap s v, s)
  | .createLocked agent cap, s => MemStore.createLocked s agent cap
  | .statusLocked id status, s => MemStore.statusLocked s id status
  | .assignLocked id v cap fence, s => MemStore.assignLocked s id v cap fence
  | .desireLocked id desired fence, s => MemStore.desireLocked s id desired fence
  | .listCommands v, s => (listAgentCommands s rank v, s)
  | .ackLocked v acks, s => MemStore.ackLocked s v acks
  | .observeLocked v observations, s => MemStore.observeLocked s v observations
  | .selectPin pin, s => (PgStore.selectPin s pin, s)
  | .lockWorker v, s => (workerCap s v, s)
  | .countAgents v, s => (Agents.countAgents s v, s)
  | .countOthers v id, s => (Agents.countOthers s v id, s)
  | .insertAgent agent claimed, s => PgStore.insertAgent s agent claimed
  | .updateStatus id status, s => PgStore.updateStatus s id status
  | .selectAgent id, s => ((s.agents.get id).map fun a => (a.workerId, a.observedStatus), s)
  | .updatePlacement id v fence, s => PgStore.updatePlacement s id v fence
  | .finish, s => ((), s)
  | .updateDesired id desired fence, s => PgStore.updateDesired s id desired fence
  | .updateAcked v ack, s => PgStore.updateAcked s v ack
  | .clearUnspoken v spoken, s => Agents.clearUnspoken s v spoken
  | .readClock, s => (s.now, s)
  | .updateObserved now v o, s => PgStore.updateObserved s now v o

/-- The statement wants a row that another transaction holds. -/
def waits (p : ℕ) (w : World) : Statement → Bool
  | .lockWorker v => w.lockedByOther v p
  | _ => false

/-- The row that it locks, the end of its transaction, and what its caller is told. -/
def settle (p : ℕ) (w : World) : (op : Statement) → op.Resp → World
  | .lockWorker v, some _ => { w with locks := (v, p) :: w.locks }
  | .insertAgent _ _, _ => w.release p
  | .updatePlacement _ _ _, n => if 0 < n then w.release p else w
  | .finish, _ => w.release p
  | .listCommands v, commands => w.tell v commands
  | _, _ => w

def exec (rank : AgentId → ℕ) (p : ℕ) (op : Statement) (w : World) :
    Option (op.Resp × World) :=
  if op.waits p w then none
  else
    let r := op.effect rank w.store
    some (r.1, op.settle p (w.withStore r.2) r.1)

end Statement

/-- An agent as the constructor makes it, placed or not. -/
def isNew (a : Agent) : Bool :=
  a.status = .ready && a.desiredStatus = .stopped && a.commandGeneration = 0 &&
    a.lastAckedGeneration = 0 && a.commandIssuedAt.isNone && a.commandControlEpoch.isNone &&
    a.observedStatus.isNone && a.observedAt.isNone && a.observedReason.isNone &&
    a.workerId.isSome = a.assignedAt.isSome

/-- Every call has a connection of its own. A caller creates its agent with a fresh id, and a
worker acknowledges commands that it was told, once or often, at any later time. -/
def accept (p : ℕ) (request : Request) (w : World) : Option World :=
  if w.connections.contains p then none
  else
    let w := { w with connections := p :: w.connections }
    match request with
    | .createAgent agent =>
      if isNew agent && !w.minted.contains agent.id then
        some { w with minted := agent.id :: w.minted }
      else none
    | .ackAgentCommands v acks => if acks.all (w.wasTold v) then some w else none
    | _ => some w

/-- Anybody else may change the store, but not the agents. -/
def fleetAgents (b : Backend) :
    Machine Statement Statement.Resp ℕ Request Reply World (AgentId → ℕ) StoreState where
  program _ request := serve b request
  exec rank p op w := op.exec rank p w
  spawned _ _ := []
  accept := accept
  disturb s w := if s.agents.rows = w.store.agents.rows then some (w.withStore s) else none

abbrev AgentConfig := Config Statement Statement.Resp ℕ Request Reply World
abbrev AgentAction := Action ℕ Request (AgentId → ℕ) StoreState

/-- Nothing runs yet, and every agent there is has its id. -/
structure Start (c : AgentConfig) : Prop where
  fresh : Machine.Fresh c
  locks : c.state.locks = []
  connections : c.state.connections = []
  told : c.state.told = []
  minted : ∀ a ∈ c.state.store.agents.rows, a.id ∈ c.state.minted

end FleetOrchestrator.Agents
