import FleetOrchestrator.Scheduler.Operations

/-! The ACP transport: handing a task over, following its prompt, cancelling it. -/

namespace FleetOrchestrator.Transport.AcpTransport

open Core Scheduler

def defaultPromptTimeout : ℕ := 600

def promptTimeout (req : DispatchRequest) : ℕ := req.timeoutSecs.getD defaultPromptTimeout

def notConnected (w : WorkerId) (state : ConnState) (what : String) : TransportError :=
  .connection ("worker " ++ toString w ++ " not connected (state=" ++ state.debug ++ ")" ++ what)

def sessionDisappeared (w : WorkerId) (doing : String) : TransportError :=
  .connection ("worker " ++ toString w ++ " session disappeared " ++ doing)

def dispatch (req : DispatchRequest) : M (Except TransportError Unit) := do
  let entry ← call (.acp (.dispatchEntry req))
  match entry with
  | .error e => return .error e
  | .ok (link, cwd) =>
    let state ← call (.acp (.readConnState link))
    match state with
    | .connected =>
      let permit ← call (.acp (.tryAcquirePermit link))
      match permit with
      | false => return .error (.workerAtCapacity (toString req.workerId))
      | true =>
        let connection ← call (.acp (.cloneConnection link))
        match connection with
        | none =>
          call (.acp (.releasePermit link))
          return .error (sessionDisappeared req.workerId "mid-dispatch")
        | some connection =>
          call (.acp (.spawnPrompt link connection req cwd))
          return .ok ()
    | .connecting | .disconnected =>
      return .error (notConnected req.workerId state
        ("; cannot dispatch task " ++ toString req.taskId))

def failed (req : DispatchRequest) (error : String) (observation : FailureObservation) :
    M Unit :=
  call (.acp (.broadcast (.failed req.taskId error observation)))

def flushSession (link : ℕ) (sessionId : SessionId) : M Unit := do
  let queue ← call (.acp (.lookupQueue link sessionId))
  match queue with
  | none => return ()
  | some q =>
    call (.acp (.sendFlush q))
    call (.acp (.awaitFlush q))

/-- What the end of the prompt is reported as; only failures look at who removed the session. -/
def reportPrompt (link connection : ℕ) (req : DispatchRequest) (sessionId : SessionId)
    (removed : Bool) (durationSecs : ℕ) (output : String) : PromptReply → M Unit
  | .finished usage => do
    let finishedAt ← utcNow
    call (.acp (.broadcast (.completed req.taskId
      ⟨output, 0, durationSecs, usage, req.workerId, finishedAt⟩)))
  | .refused message =>
    if removed then failed req ("session/prompt: " ++ message) .reported else return ()
  | .timedOut =>
    if removed then do
      call (.acp (.sendCancel link connection sessionId))
      failed req ("session/prompt timed out after " ++ toString (promptTimeout req) ++ "s")
        .resultLost
    else return ()

def promptInSession (link connection : ℕ) (req : DispatchRequest) (started : ℤ)
    (sessionId : SessionId) : M Unit := do
  let queue ← call (.acp (.insertSession link sessionId req.taskId req.workerId))
  call (.acp (.broadcast (.sessionOpened req.taskId sessionId)))
  call (.acp (.sendPrompt req.workerId connection sessionId req.prompt))
  let reply ← call (.acp (.awaitPrompt connection sessionId))
  flushSession link sessionId
  let removed ← call (.acp (.removeSession link sessionId))
  let ended ← utcNow
  let output ← call (.acp (.readOutput queue))
  reportPrompt link connection req sessionId removed ((ended - started).toNat / 1000) output reply

def followSession (link connection : ℕ) (req : DispatchRequest) (started : ℤ) :
    NewSessionReply → M Unit
  | .opened sessionId => promptInSession link connection req started sessionId
  | .refused message => failed req ("session/new: " ++ message) .reported
  | .timedOut =>
    failed req ("session/new timed out after " ++ toString (promptTimeout req) ++ "s")
      .notDelivered

/-- The task that follows an accepted dispatch; its permit goes back whatever happens. -/
def promptTask (link connection : ℕ) (req : DispatchRequest) (cwd : String) : M Unit := do
  let started ← utcNow
  let newSession ← call (.acp (.newSession req.workerId connection cwd))
  followSession link connection req started newSession
  call (.acp (.releasePermit link))

def failAll (link : ℕ) (reason : String) : M Unit := do
  let drained ← call (.acp (.snapshotSessions link))
  match drained with
  | [] => return ()
  | d :: ds => call (.acp (.failDrained link (d :: ds) reason))

/-- The supervisor's turn when a connection ends. -/
def connectionEnded (link : ℕ) : M Unit := do
  call (.acp (.dropConnection link))
  call (.acp (.setDisconnected link))
  failAll link "ACP connection lost — will reconnect"
  call (.acp (.endCleaning link))

def unregister (w : WorkerId) : M (Except TransportError Unit) := do
  let client ← call (.acp (.removeClient w))
  match client with
  | none => return .error (.workerNotRegistered (toString w))
  | some link =>
    call (.acp (.requestShutdown link))
    return .ok ()

def cancel (req : CancelRequest) : M (Except TransportError CancelDelivery) := do
  let target ← call (.acp (.findCancelTarget req))
  match target with
  | .unreachable => return .ok .unreachable
  | .noSession => return .ok .noSession
  | .at link sessionId =>
    let connection ← call (.acp (.cloneConnection link))
    match connection with
    | none => return .ok .unreachable
    | some connection =>
      call (.acp (.sendCancel link connection sessionId))
      return .ok .sent

def probe (w : WorkerId) (timeoutSecs : ℕ) : M (Except TransportError Bool) := do
  let client ← call (.acp (.lookupClient w))
  match client with
  | none => return .error (.workerNotRegistered (toString w))
  | some link =>
    let state ← call (.acp (.readConnState link))
    match state with
    | .connecting | .disconnected => return .error (notConnected w state "; cannot probe")
    | .connected =>
      let connection ← call (.acp (.cloneConnection link))
      match connection with
      | none => return .error (sessionDisappeared w "mid-probe")
      | some connection =>
        let answered ← call (.acp (.askSessions w connection))
        match answered with
        | .listed _ _ => return .ok false
        | .refused message agentAnswer =>
          let state ← call (.acp (.readConnState link))
          if agentAnswer && state = .connected then return .ok true
          else return .error (.connection ("worker " ++ toString w ++
            " connection died during the probe: " ++ message))
        | .timedOut => return .error (.connection ("worker " ++ toString w ++
            " did not answer the probe within " ++ toString timeoutSecs ++ "s"))

def paginated : SessionInventory :=
  .refused "agent paginated the session list; a partial inventory cannot decide absence"

def listSessions (w : WorkerId) (timeoutSecs : ℕ) : M (Except TransportError SessionInventory) := do
  let client ← call (.acp (.lookupClient w))
  match client with
  | none => return .error (.workerNotRegistered (toString w))
  | some link =>
    let state ← call (.acp (.readConnState link))
    match state with
    | .connecting | .disconnected =>
      return .error (notConnected w state "; cannot list sessions")
    | .connected =>
      let declared ← call (.acp (.readListDeclared link))
      match declared with
      | false => return .ok .undeclared
      | true =>
        let connection ← call (.acp (.cloneConnection link))
        match connection with
        | none => return .error (sessionDisappeared w "mid-listing")
        | some connection =>
          let answered ← call (.acp (.askSessions w connection))
          match answered with
          | .listed _ true => return .ok paginated
          | .listed sessions false => return .ok (.reported sessions)
          | .refused message agentAnswer =>
            let state ← call (.acp (.readConnState link))
            if agentAnswer && state = .connected then return .ok (.refused message)
            else return .error (.connection ("worker " ++ toString w ++
              " connection died while listing sessions: " ++ message))
          | .timedOut => return .error (.connection ("worker " ++ toString w ++
              " did not answer session/list within " ++ toString timeoutSecs ++ "s"))

end FleetOrchestrator.Transport.AcpTransport
