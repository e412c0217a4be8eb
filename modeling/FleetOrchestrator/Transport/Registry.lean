import FleetOrchestrator.Interleaving.System
import FleetOrchestrator.Transport.State

/-! How workers enter and leave the ACP transport: the map of clients, and one supervisor task for
each session. -/

namespace FleetOrchestrator.Transport

open Core Interleaving

/-- Where a supervisor is in its loop. -/
inductive SupervisorPhase where
  | connecting
  | serving
  | clearing
  | marking
  | deciding
  | backingOff
  | ended
  deriving DecidableEq, Repr

structure SupervisedSession where
  workerId : WorkerId
  endpoint : String
  maxConcurrent : ℕ
  state : ConnState := .connecting
  connection : Option ℕ := none
  permits : ℕ
  shutdown : Bool := false
  /-- The join handle of the supervisor is still kept with the session. -/
  supervisor : Bool := false
  firstResult : Option (Except String Unit) := none
  phase : SupervisorPhase := .connecting

namespace SupervisedSession

def new (w : WorkerId) (endpoint : String) (maxConcurrent : ℕ) : SupervisedSession :=
  { workerId := w, endpoint, maxConcurrent := max maxConcurrent 1, permits := max maxConcurrent 1 }

def running (s : SupervisedSession) : Bool := s.phase ≠ .ended

/-- Only the first attempt has somebody waiting for its outcome. -/
def report (outcome : Except String Unit) (s : SupervisedSession) : SupervisedSession :=
  { s with firstResult := some (s.firstResult.getD outcome) }

end SupervisedSession

/-- What the supervisor meets next. -/
inductive SupervisorEvent where
  | buildFailed (error : String)
  | ready (connection : ℕ)
  | connectFailed (error : String)
  | connectionLost
  | proceed
  | backoffElapsed

/-- One turn of the supervisor; a shutdown is looked for while serving, before the next attempt and
during the backoff, not while a connection is being made. -/
def SupervisedSession.turn (s : SupervisedSession) : SupervisorEvent → Option SupervisedSession
  | .buildFailed e =>
    if s.phase = .connecting then
      some { s.report (.error e) with state := .disconnected, phase := .backingOff }
    else none
  | .ready n =>
    if s.phase = .connecting then
      some { s.report (.ok ()) with connection := some n, state := .connected, phase := .serving }
    else none
  | .connectFailed e =>
    if s.phase = .connecting then some { s.report (.error e) with phase := .clearing } else none
  | .connectionLost => if s.phase = .serving then some { s with phase := .clearing } else none
  | .proceed =>
    match s.phase with
    | .serving => if s.shutdown then some { s with phase := .clearing } else none
    | .clearing => some { s with connection := none, phase := .marking }
    | .marking => some { s with state := .disconnected, phase := .deciding }
    | .deciding => some { s with phase := if s.shutdown then .ended else .backingOff }
    | .backingOff => if s.shutdown then some { s with phase := .ended } else none
    | .connecting | .ended => none
  | .backoffElapsed =>
    if s.phase = .backingOff then some { s with state := .connecting, phase := .connecting }
    else none

/-- Sessions are named by their position, whether still registered or not. -/
structure RegistryState where
  sessions : List SupervisedSession := []
  clients : WorkerId → Option ℕ := fun _ => none

inductive RegistryOp where
  | containsKey (w : WorkerId)
  | buildConnector (endpoint : String)
  | spawnSupervisor (w : WorkerId) (endpoint : String) (maxConcurrent : ℕ)
  | storeHandle (i : ℕ)
  | insertClient (w : WorkerId) (i : ℕ)
  | awaitFirstResult (i : ℕ)
  | removeClient (w : WorkerId)
  | sendShutdown (i : ℕ)
  | takeHandle (i : ℕ)
  /-- Waiting for the supervisor to end, for five seconds at most. -/
  | awaitEnd (i : ℕ)
  | getClient (w : WorkerId)
  | readState (i : ℕ)
  | tryAcquirePermit (i : ℕ)
  | releasePermit (i : ℕ)
  | cloneConnection (i : ℕ)

abbrev RegistryOp.Resp : RegistryOp → Type
  | containsKey _ => Bool
  | buildConnector _ => Except String Unit
  | spawnSupervisor _ _ _ => ℕ
  | storeHandle _ | insertClient _ _ | sendShutdown _ | releasePermit _ => Unit
  | awaitFirstResult _ => Option (Except String Unit)
  | removeClient _ | getClient _ | cloneConnection _ => Option ℕ
  | takeHandle _ | awaitEnd _ | tryAcquirePermit _ => Bool
  | readState _ => ConnState

abbrev RegistryProg (α : Type) := Prog RegistryOp RegistryOp.Resp α

def onRegistry (op : RegistryOp) : RegistryProg op.Resp := Prog.perform op

/-- The map is looked at first and written to once the supervisor runs. -/
def register (w : WorkerId) (endpoint : String) (maxConcurrentTasks : ℕ) :
    RegistryProg (Except TransportError Unit) := do
  match ← onRegistry (.containsKey w) with
  | true => return .error (.alreadyRegistered (toString w))
  | false =>
    match ← onRegistry (.buildConnector endpoint) with
    | .error e => return .error (.connection ("mTLS connector build failed: " ++ e))
    | .ok _ =>
      let i ← onRegistry (.spawnSupervisor w endpoint (max maxConcurrentTasks 1))
      onRegistry (.storeHandle i)
      onRegistry (.insertClient w i)
      match ← onRegistry (.awaitFirstResult i) with
      | some (.ok _) => return .ok ()
      | some (.error e) => return .error (.connection ("initial ACP connect failed for " ++
          toString w ++ ": " ++ e ++
          " (still tracked — supervisor keeps retrying in the background)"))
      | none => return .error (.connection
          ("supervisor task dropped first-result channel for " ++ toString w))

def unregister (w : WorkerId) : RegistryProg (Except TransportError Unit) := do
  match ← onRegistry (.removeClient w) with
  | none => return .error (.workerNotRegistered (toString w))
  | some i =>
    onRegistry (.sendShutdown i)
    match ← onRegistry (.takeHandle i) with
    | true =>
      let _ ← onRegistry (.awaitEnd i)
      return .ok ()
    | false => return .ok ()

/-- A dispatch on its way to the connection of its worker. -/
def reachConnection (w : WorkerId) (taskId : TaskId) :
    RegistryProg (Except TransportError Unit) := do
  match ← onRegistry (.getClient w) with
  | none => return .error (.workerNotRegistered (toString w))
  | some i =>
    match ← onRegistry (.readState i) with
    | .connected =>
      match ← onRegistry (.tryAcquirePermit i) with
      | false => return .error (.workerAtCapacity (toString w))
      | true =>
        match ← onRegistry (.cloneConnection i) with
        | none =>
          onRegistry (.releasePermit i)
          return .error (.connection ("worker " ++ toString w ++
            " session disappeared mid-dispatch"))
        | some _ => return .ok ()
    | state => return .error (.connection ("worker " ++ toString w ++ " not connected (state=" ++
        state.debug ++ "); cannot dispatch task " ++ toString taskId))

namespace RegistryState

def updateSession (s : RegistryState) (i : ℕ) (f : SupervisedSession → SupervisedSession) :
    RegistryState :=
  { s with sessions := s.sessions.modify i f }

def setClient (s : RegistryState) (w : WorkerId) (entry : Option ℕ) : RegistryState :=
  { s with clients := fun v => if v = w then entry else s.clients v }

def hasEnded (s : RegistryState) (i : ℕ) : Bool := s.sessions[i]?.any fun x => !x.running

end RegistryState

/-- What the surroundings answer; without a client certificate the connector is never asked for. -/
structure RegistryChoice where
  connector : Except String Unit := .ok ()
  timedOut : Bool := false

def RegistryOp.exec (ch : RegistryChoice) :
    (op : RegistryOp) → RegistryState → Option (op.Resp × RegistryState)
  | .containsKey w, s => some ((s.clients w).isSome, s)
  | .buildConnector endpoint, s =>
    some (if "wss://".toList.isPrefixOf endpoint.toList then ch.connector else .ok (), s)
  | .spawnSupervisor w endpoint maxConcurrent, s =>
    some (s.sessions.length,
      { s with sessions := s.sessions ++ [.new w endpoint maxConcurrent] })
  | .storeHandle i, s => some ((), s.updateSession i fun x => { x with supervisor := true })
  | .insertClient w i, s => some ((), s.setClient w (some i))
  | .awaitFirstResult i, s =>
    match s.sessions[i]? with
    | none => none
    | some x => if x.firstResult.isSome || !x.running then some (x.firstResult, s) else none
  | .removeClient w, s => some (s.clients w, s.setClient w none)
  | .sendShutdown i, s => some ((), s.updateSession i fun x => { x with shutdown := true })
  | .takeHandle i, s =>
    match s.sessions[i]? with
    | none => none
    | some x => some (x.supervisor, s.updateSession i fun x => { x with supervisor := false })
  | .awaitEnd i, s =>
    if s.hasEnded i then some (true, s) else if ch.timedOut then some (false, s) else none
  | .getClient w, s => some (s.clients w, s)
  | .readState i, s => s.sessions[i]?.map fun x => (x.state, s)
  | .tryAcquirePermit i, s =>
    match s.sessions[i]? with
    | none => none
    | some x =>
      if 0 < x.permits then
        some (true, s.updateSession i fun x => { x with permits := x.permits - 1 })
      else some (false, s)
  | .releasePermit i, s => some ((), s.updateSession i fun x => { x with permits := x.permits + 1 })
  | .cloneConnection i, s => s.sessions[i]?.map fun x => (x.connection, s)

inductive RegistryCall where
  | register (w : WorkerId) (endpoint : String) (maxConcurrentTasks : ℕ)
  | unregister (w : WorkerId)
  | dispatch (w : WorkerId) (taskId : TaskId)

def RegistryCall.workerId : RegistryCall → WorkerId
  | register w _ _ | unregister w | dispatch w _ => w

def RegistryCall.perform : RegistryCall → RegistryProg (Except TransportError Unit)
  | .register w endpoint maxConcurrentTasks => Transport.register w endpoint maxConcurrentTasks
  | .unregister w => Transport.unregister w
  | .dispatch w taskId => reachConnection w taskId

/-- A supervisor takes a turn, or a prompt that was handed over gives its permit back. -/
inductive RegistryEvent where
  | supervisor (i : ℕ) (e : SupervisorEvent)
  | promptEnded (i : ℕ)

def RegistryEvent.apply (s : RegistryState) : RegistryEvent → Option RegistryState
  | supervisor i e =>
    match s.sessions[i]? with
    | none => none
    | some x => (x.turn e).map fun x' => { s with sessions := s.sessions.set i x' }
  | promptEnded i => some (s.updateSession i fun x => { x with permits := x.permits + 1 })

def registry :
    Machine RegistryOp RegistryOp.Resp Unit RegistryCall (Except TransportError Unit)
      RegistryState RegistryChoice RegistryEvent where
  program _ call := call.perform
  exec ch _ op s := op.exec ch s
  spawned _ _ := []
  accept _ _ s := some s
  disturb e s := e.apply s

abbrev RegistryConfig :=
  Config RegistryOp RegistryOp.Resp Unit RegistryCall (Except TransportError Unit) RegistryState
abbrev RegistryAction := Action Unit RegistryCall RegistryChoice RegistryEvent
abbrev RegistryHistory := List (Entry RegistryOp RegistryOp.Resp)

end FleetOrchestrator.Transport
