import FleetOrchestrator.Core.Fleet

/-! What one process keeps about its workers' connections, and the atomic accesses to it. -/

namespace FleetOrchestrator.Transport

open Core

def eventChannelCapacity : ℕ := 256

inductive ConnState where
  | connecting
  | connected
  | disconnected
  deriving DecidableEq, Repr

def ConnState.debug : ConnState → String
  | connecting => "Connecting"
  | connected => "Connected"
  | disconnected => "Disconnected"

inductive SessionMsg where
  | chunk (text : String)
  | tool (invocation : ToolInvocation)
  | flush
  deriving DecidableEq, Repr

structure InFlightSession where
  sessionId : SessionId
  taskId : TaskId
  /-- The notification queue that `notify_tx` writes to. -/
  queue : ℕ
  deriving DecidableEq, Repr

/-- A session's queue and what its single consumer has made of it. -/
structure NotifyQueue where
  taskId : TaskId
  workerId : WorkerId
  pending : List SessionMsg := []
  outputBuf : String := ""
  seq : ℕ := 0
  flushed : Bool := false
  deriving DecidableEq, Repr

/-- Where the supervisor of a connection is in its loop. -/
inductive Supervising where
  | connecting
  | serving
  | cleaning
  | stopped
  deriving DecidableEq, Repr

structure WorkerSession where
  workerId : WorkerId
  state : ConnState := .connecting
  connection : Option ℕ := none
  capacity : ℕ
  maxConcurrent : ℕ
  sessions : List InFlightSession := []
  sessionListDeclared : Bool := false
  shutdown : Bool := false
  supervising : Supervising := .connecting
  deriving DecidableEq, Repr

structure Subscriber where
  start : ℕ
  next : ℕ
  skipped : ℕ := 0
  received : List WorkerEvent := []
  /-- How many of the received events the consumer has taken up. -/
  taken : ℕ := 0
  deriving DecidableEq, Repr

/-- Connections are named by their position in `links`, whether still registered or not. -/
structure TransportState where
  links : List WorkerSession := []
  clients : WorkerId → Option ℕ := fun _ => none
  queues : List NotifyQueue := []
  events : List WorkerEvent := []
  subscribers : List Subscriber := []

/-- The sessions a worker holds; `interrupted` remembers every one it has ever stopped holding. -/
structure Host where
  opened : List SessionId := []
  held : List SessionId := []
  interrupted : List SessionId := []
  deriving DecidableEq, Repr

inductive NewSessionReply where
  | opened (sessionId : SessionId)
  | refused (message : String)
  | timedOut
  deriving DecidableEq, Repr

inductive PromptReply where
  | finished (usage : Option TokenUsage)
  | refused (message : String)
  | timedOut
  deriving DecidableEq, Repr

def PromptReply.isFinished : PromptReply → Bool
  | finished _ => true
  | refused _ | timedOut => false

/-- How a `session/list` request ends; `agentAnswer` tells an answer of the agent from a dead
connection. -/
inductive ListReply where
  | listed (more : Bool)
  | refused (message : String) (agentAnswer : Bool)
  | timedOut
  deriving DecidableEq, Repr

inductive ListAnswer where
  | listed (sessions : List SessionId) (more : Bool)
  | refused (message : String) (agentAnswer : Bool)
  | timedOut
  deriving DecidableEq, Repr

inductive CancelTarget where
  | at (link : ℕ) (sessionId : SessionId)
  | unreachable
  | noSession
  deriving DecidableEq, Repr

inductive AcpOp where
  | dispatchEntry (req : DispatchRequest)
  | lookupClient (w : WorkerId)
  | readConnState (link : ℕ)
  | readListDeclared (link : ℕ)
  | tryAcquirePermit (link : ℕ)
  | releasePermit (link : ℕ)
  | cloneConnection (link : ℕ)
  | spawnPrompt (link connection : ℕ) (req : DispatchRequest) (cwd : String)
  | newSession (w : WorkerId) (connection : ℕ) (cwd : String)
  | insertSession (link : ℕ) (sessionId : SessionId) (taskId : TaskId) (w : WorkerId)
  | broadcast (e : WorkerEvent)
  | sendPrompt (w : WorkerId) (connection : ℕ) (sessionId : SessionId) (text : String)
  | awaitPrompt (connection : ℕ) (sessionId : SessionId)
  | lookupQueue (link : ℕ) (sessionId : SessionId)
  | sendFlush (queue : ℕ)
  | awaitFlush (queue : ℕ)
  | removeSession (link : ℕ) (sessionId : SessionId)
  | readOutput (queue : ℕ)
  | sendCancel (link connection : ℕ) (sessionId : SessionId)
  | snapshotSessions (link : ℕ)
  | failDrained (link : ℕ) (drained : List (SessionId × TaskId)) (reason : String)
  | dropConnection (link : ℕ)
  | setDisconnected (link : ℕ)
  | endCleaning (link : ℕ)
  | removeClient (w : WorkerId)
  | requestShutdown (link : ℕ)
  | findCancelTarget (req : CancelRequest)
  | askSessions (w : WorkerId) (connection : ℕ)
  deriving DecidableEq

namespace AcpOp

@[reducible] def Answer : AcpOp → Type
  | dispatchEntry _ => Except TransportError (ℕ × String)
  | lookupClient _ => Option ℕ
  | readConnState _ => ConnState
  | readListDeclared _ => Bool
  | tryAcquirePermit _ => Bool
  | releasePermit _ => Unit
  | cloneConnection _ => Option ℕ
  | spawnPrompt .. => Unit
  | newSession .. => NewSessionReply
  | insertSession .. => ℕ
  | broadcast _ => Unit
  | sendPrompt .. => Unit
  | awaitPrompt .. => PromptReply
  | lookupQueue .. => Option ℕ
  | sendFlush _ => Unit
  | awaitFlush _ => Unit
  | removeSession .. => Bool
  | readOutput _ => String
  | sendCancel .. => Unit
  | snapshotSessions _ => List (SessionId × TaskId)
  | failDrained .. => Unit
  | dropConnection _ => Unit
  | setDisconnected _ => Unit
  | endCleaning _ => Unit
  | removeClient _ => Option ℕ
  | requestShutdown _ => Unit
  | findCancelTarget _ => CancelTarget
  | askSessions .. => ListAnswer

end AcpOp

/-- The outside answers a transport operation may be waiting for. -/
structure AcpChoice where
  newSession : NewSessionReply := .timedOut
  prompt : PromptReply := .timedOut
  list : ListReply := .listed false

namespace TransportState

variable (t : TransportState)

def link? (i : ℕ) : Option WorkerSession := t.links[i]?

def modifyLink (i : ℕ) (f : WorkerSession → WorkerSession) : TransportState :=
  { t with links := t.links.modify i f }

def modifyQueue (q : ℕ) (f : NotifyQueue → NotifyQueue) : TransportState :=
  { t with queues := t.queues.modify q f }

def emit (es : List WorkerEvent) : TransportState := { t with events := t.events ++ es }

def registered (i : ℕ) : Bool :=
  match t.link? i with
  | some l => t.clients l.workerId = some i
  | none => false

/-- The first stage: a session this process opened itself. -/
def inFlightTarget (taskId : TaskId) : Option CancelTarget :=
  (List.range t.links.length).findSome? fun i =>
    if t.registered i then
      match t.link? i with
      | some l => (l.sessions.find? fun s => s.taskId = taskId).map fun s => .at i s.sessionId
      | none => none
    else none

def cancelTarget (req : CancelRequest) : CancelTarget :=
  match t.inFlightTarget req.taskId with
  | some target => target
  | none =>
    match req.knownSession, req.workerId with
    | some sessionId, some w =>
      match t.clients w with
      | some i => .at i sessionId
      | none => .unreachable
    | _, _ => .noSession

def connectionLost (taskId : TaskId) (reason : String) : WorkerEvent :=
  .failed taskId reason .resultLost

/-- One turn of a session's consumer. -/
def consume (q : ℕ) : Option TransportState :=
  match t.queues[q]? with
  | none => none
  | some queue =>
    match queue.pending with
    | [] => none
    | .chunk text :: rest =>
      some ((t.modifyQueue q fun u => { u with
        pending := rest, outputBuf := u.outputBuf ++ text, seq := u.seq + 1 }).emit
          [.output queue.taskId queue.seq text])
    | .tool invocation :: rest =>
      some ((t.modifyQueue q fun u => { u with pending := rest }).emit
        [.toolCall queue.taskId queue.workerId invocation])
    | .flush :: rest => some (t.modifyQueue q fun u => { u with pending := rest, flushed := true })

/-- A `session/update` of the agent: queued for the session it names, dropped without one. -/
def notify (i : ℕ) (sessionId : SessionId) (msg : SessionMsg) : TransportState :=
  match (t.link? i).bind fun l => l.sessions.find? fun s => s.sessionId = sessionId with
  | none => t
  | some entry => t.modifyQueue entry.queue fun u => { u with pending := u.pending ++ [msg] }

def subscribe : TransportState :=
  { t with subscribers := t.subscribers ++
      [{ start := t.events.length, next := t.events.length }] }

/-- One turn of a subscriber's pump: too far behind, it skips to the oldest event still held. -/
def pump (u : Subscriber) : Option Subscriber :=
  if t.events.length - u.next > eventChannelCapacity then
    some { u with
      next := t.events.length - eventChannelCapacity
      skipped := u.skipped + (t.events.length - eventChannelCapacity - u.next) }
  else (t.events[u.next]?).map fun e => { u with next := u.next + 1, received := u.received ++ [e] }

def dispatchCheck (req : DispatchRequest) : Except TransportError (ℕ × String) :=
  match validateWorkspaceCwd req.cwd with
  | .error e =>
    .error (.invalidRequest ("task " ++ toString req.taskId ++ ": " ++ e.message))
  | .ok cwd =>
    match t.clients req.workerId with
    | none => .error (.workerNotRegistered (toString req.workerId))
    | some i => .ok (i, cwd)

def dropSession (sessionId : SessionId) (l : WorkerSession) : WorkerSession :=
  { l with sessions := l.sessions.filter fun s => s.sessionId ≠ sessionId }

def dropSessions (drained : List (SessionId × TaskId)) (l : WorkerSession) : WorkerSession :=
  { l with sessions := l.sessions.filter fun s => !drained.any fun d => d.1 = s.sessionId }

def addSession (entry : InFlightSession) (l : WorkerSession) : WorkerSession :=
  { l with sessions := (dropSession entry.sessionId l).sessions ++ [entry] }

/-- One atomic access, or one exchange with a worker; `none` while it has to wait. -/
def perform (ch : AcpChoice) (hosts : WorkerId → Host) (t : TransportState) :
    (op : AcpOp) → Option (op.Answer × TransportState)
  | .dispatchEntry req => some (t.dispatchCheck req, t)
  | .lookupClient w => some (t.clients w, t)
  | .readConnState i => some (((t.link? i).map WorkerSession.state).getD .disconnected, t)
  | .readListDeclared i => some (((t.link? i).map WorkerSession.sessionListDeclared).getD false, t)
  | .tryAcquirePermit i =>
    if ((t.link? i).map WorkerSession.capacity).getD 0 > 0 then
      some (true, t.modifyLink i fun l => { l with capacity := l.capacity - 1 })
    else some (false, t)
  | .releasePermit i => some ((), t.modifyLink i fun l => { l with capacity := l.capacity + 1 })
  | .cloneConnection i => some ((t.link? i).bind WorkerSession.connection, t)
  | .spawnPrompt .. => some ((), t)
  | .newSession .. => some (ch.newSession, t)
  | .insertSession i sessionId taskId w =>
    let q := t.queues.length
    some (q, { t.modifyLink i (addSession ⟨sessionId, taskId, q⟩) with
      queues := t.queues ++ [{ taskId, workerId := w }] })
  | .broadcast e => some ((), t.emit [e])
  | .sendPrompt .. => some ((), t)
  | .awaitPrompt .. => some (ch.prompt, t)
  | .lookupQueue i sessionId =>
    some (((t.link? i).bind fun l => l.sessions.find? fun s => s.sessionId = sessionId).map
      InFlightSession.queue, t)
  | .sendFlush q => some ((), t.modifyQueue q fun u => { u with pending := u.pending ++ [.flush] })
  | .awaitFlush q =>
    if ((t.queues[q]?).map NotifyQueue.flushed).getD true then some ((), t) else none
  | .removeSession i sessionId =>
    some (((t.link? i).map fun l => l.sessions.any fun s => s.sessionId = sessionId).getD false,
      t.modifyLink i (dropSession sessionId))
  | .readOutput q => some (((t.queues[q]?).map NotifyQueue.outputBuf).getD "", t)
  | .sendCancel .. => some ((), t)
  | .snapshotSessions i =>
    some (((t.link? i).map fun l => l.sessions.map fun s => (s.sessionId, s.taskId)).getD [], t)
  | .failDrained i drained reason =>
    some ((), (t.modifyLink i (dropSessions drained)).emit
      (drained.map fun d => connectionLost d.2 reason))
  | .dropConnection i =>
    some ((), t.modifyLink i fun l => { l with connection := none })
  | .setDisconnected i => some ((), t.modifyLink i fun l => { l with state := .disconnected })
  | .endCleaning i =>
    some ((), t.modifyLink i fun l => { l with
      supervising := if l.shutdown then .stopped else .connecting })
  | .removeClient w =>
    some (t.clients w, { t with clients := fun v => if v = w then none else t.clients v })
  | .requestShutdown i => some ((), t.modifyLink i fun l => { l with shutdown := true })
  | .findCancelTarget req => some (t.cancelTarget req, t)
  | .askSessions w _ =>
    some (match ch.list with
      | .listed more => .listed (hosts w).held more
      | .refused message agentAnswer => .refused message agentAnswer
      | .timedOut => .timedOut, t)

end TransportState

namespace Host

def openSession (sessionId : SessionId) (h : Host) : Option Host :=
  if h.opened.contains sessionId then none
  else some { h with opened := sessionId :: h.opened, held := sessionId :: h.held }

def lose (sessionId : SessionId) (h : Host) : Host :=
  { h with
    held := h.held.filter (· ≠ sessionId)
    interrupted := if h.held.contains sessionId then sessionId :: h.interrupted
      else h.interrupted }

def resume (sessionId : SessionId) (h : Host) : Host :=
  if h.interrupted.contains sessionId then { h with held := sessionId :: h.held } else h

end Host

end FleetOrchestrator.Transport
