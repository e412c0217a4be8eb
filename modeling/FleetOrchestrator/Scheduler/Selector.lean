import FleetOrchestrator.Transport.AcpTransport

namespace FleetOrchestrator.Scheduler

open Core Store Transport

inductive SelectionError where
  | noMatchingLabels
  | allOffline
  | hintedNotFound (name : String)
  | hintedUnavailable (name : String)
  | noWorkerForModel (model : String)
  | noWorkerForCredential (model : String)
  | allUnprobed
  | allAtCapacity
  | hintedAtCapacity (name : String)
  | agentNotFound (agent : String)
  | agentUnplaced (agent : String)
  | agentNotRunning (agent : String)
  | agentNotObserved (agent : String)
  | agentWorkerUnavailable (agent : String)
  | agentWorkerAtCapacity (agent : String)
  deriving DecidableEq, Repr

def SelectionError.message : SelectionError → String
  | noMatchingLabels => "no online worker matches the required labels"
  | allOffline => "no worker is currently online"
  | hintedNotFound w => "hinted worker '" ++ w ++ "' not found"
  | hintedUnavailable w =>
    "hinted worker '" ++ w ++ "' is offline or circuit-open (not falling back, per user intent)"
  | noWorkerForModel m => "no online worker is labeled for model '" ++ m ++ "'"
  | noWorkerForCredential m => "no online worker holds a credential for model '" ++ m ++ "'"
  | allUnprobed => "no dispatchable worker: all candidates are on-demand and unprobed"
  | allAtCapacity => "all candidate workers are at their concurrency limit"
  | hintedAtCapacity w => "hinted worker '" ++ w ++
      "' is at its concurrency limit (not falling back, per user intent)"
  | agentNotFound a => "task's agent '" ++ a ++ "' no longer exists"
  | agentUnplaced a => "task's agent '" ++ a ++ "' is not placed on any worker yet"
  | agentNotRunning a => "task's agent '" ++ a ++ "' is not running"
  | agentNotObserved a =>
    "task's agent '" ++ a ++ "' has been told to start but has not reported yet"
  | agentWorkerUnavailable a => "the worker hosting agent '" ++ a ++
      "' is not dispatchable (not falling back, per user intent)"
  | agentWorkerAtCapacity a => "the worker hosting agent '" ++ a ++
      "' is at its concurrency limit (not falling back, per user intent)"

namespace Selector

def probeTimeout : ℕ := 5

def responds (w : Worker) : M Bool :=
  match w.livenessMode with
  | .periodic => return true
  | .onDemand => do
    let outcome ← AcpTransport.probe w.id probeTimeout
    match outcome with
    | .ok _ =>
      let _ ← call (.store (.recordWorkerActivity w.id))
      return true
    | .error _ => return false

def withCredential (model : String) : List Worker → M (List Worker)
  | [] => return []
  | w :: ws => do
    let held ← call (.store (.getWorkerCredential w.name model))
    let rest ← withCredential model ws
    match held with
    | .ok true => return w :: rest
    | .ok false | .error _ => return rest

/-- The circuit filter: one reading of the registry for each candidate. -/
def circuitClosed : List Worker → M (List Worker)
  | [] => return []
  | w :: ws => do
    let state ← call (.process (.breakerStateOf w.id))
    let rest ← circuitClosed ws
    if state.isOpen then return rest else return w :: rest

def agentDispatchable (agent : Agent) : Except SelectionError Unit :=
  if agent.desiredStatus = .stopped || agent.observedStatus = some .failed then
    .error (.agentNotRunning agent.name)
  else if agent.startPending then .error (.agentNotObserved agent.name)
  else .ok ()

def ifResponds (w : Worker) (otherwise : SelectionError) : M (Except SelectionError WorkerId) := do
  let up ← responds w
  if up then return .ok w.id else return .error otherwise

def selectAgent (candidates atCapacity : List Worker) (agentId : AgentId) :
    M (Except SelectionError WorkerId) := do
  let found ← call (.store (.getAgent agentId))
  match found with
  | .error _ => return .error .allOffline
  | .ok none => return .error (.agentNotFound (toString agentId))
  | .ok (some agent) =>
    match agentDispatchable agent, agent.workerId with
    | .error e, _ => return .error e
    | .ok (), none => return .error (.agentUnplaced agent.name)
    | .ok (), some workerId =>
      match candidates.find? fun w => w.id = workerId with
      | some w => ifResponds w (.agentWorkerUnavailable agent.name)
      | none =>
        if atCapacity.any fun w => w.id = workerId then
          return .error (.agentWorkerAtCapacity agent.name)
        else return .error (.agentWorkerUnavailable agent.name)

def selectHinted (candidates atCapacity : List Worker) (hint : String) :
    M (Except SelectionError WorkerId) :=
  match candidates.find? fun w => w.name = hint with
  | some w => ifResponds w (.hintedUnavailable hint)
  | none =>
    if atCapacity.any fun w => w.name = hint then return .error (.hintedAtCapacity hint)
    else do
      let exists_ ← call (.store (.getWorkerByName hint))
      match exists_ with
      | .ok (some _) => return .error (.hintedUnavailable hint)
      | .ok none | .error _ => return .error (.hintedNotFound hint)

def firstResponding : List Worker → M (Except SelectionError WorkerId)
  | [] => return .error .allUnprobed
  | w :: ws => do
    let up ← responds w
    if up then return .ok w.id else firstResponding ws

def byLoad (load : WorkerId → ℕ) (candidates : List Worker) : List Worker :=
  candidates.insertionSort fun a b =>
    load a.id < load b.id ∨ load a.id = load b.id ∧ a.name ≤ b.name

/-- The choice among the candidates that are up, fit the task and have a closed circuit. -/
def choose (task : Task) (candidates : List Worker) (load : WorkerId → ℕ) :
    M (Except SelectionError WorkerId) :=
  let free := candidates.filter fun w => load w.id < w.maxConcurrent
  let atCapacity := candidates.filter fun w => !(load w.id < w.maxConcurrent)
  match task.agentId, task.serverHint with
  | some agentId, _ => selectAgent free atCapacity agentId
  | none, some hint => selectHinted free atCapacity hint
  | none, none =>
    if free.isEmpty && !atCapacity.isEmpty then return .error .allAtCapacity
    else if free.isEmpty then return .error .allOffline
    else firstResponding (byLoad load free)

def fitsModel (model : String) (w : Worker) : Bool := w.label "model" = some model

def selectAmong (task : Task) (candidates : List Worker) : M (Except SelectionError WorkerId) := do
  let candidates ← circuitClosed candidates
  let load ← call (.store .countDispatchedTasksByWorker)
  match load with
  | .error _ => return .error .allOffline
  | .ok load => choose task candidates load

def select (task : Task) : M (Except SelectionError WorkerId) := do
  let listed ← call (.store (.listWorkers { status := some .online }))
  match listed with
  | .error _ => return .error .allOffline
  | .ok online =>
    if online.isEmpty then return .error .allOffline
    else
      let labelled := online.filter fun w => w.matchesLabels task.requiredLabels
      if labelled.isEmpty then return .error .noMatchingLabels
      else
        match task.model with
        | none => selectAmong task labelled
        | some model =>
          let fitting := labelled.filter (fitsModel model)
          if fitting.isEmpty then return .error (.noWorkerForModel model)
          else
            let held ← withCredential model fitting
            if held.isEmpty then return .error (.noWorkerForCredential model)
            else selectAmong task held

end Selector

end FleetOrchestrator.Scheduler
