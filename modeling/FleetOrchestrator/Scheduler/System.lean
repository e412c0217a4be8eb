import FleetOrchestrator.Interleaving.Discipline
import FleetOrchestrator.Scheduler.Reconciler

/-! The deployment: any number of orchestrator processes over one store and their workers. -/

namespace FleetOrchestrator.Scheduler

open Core Store Transport Interleaving

inductive Activity where
  | submit (task : Task)
  | cancel (id : TaskId) (reason : String)
  | workerEvent (e : WorkerEvent)
  | reconcile
  | deleteTask (id : TaskId)
  | acquireLease
  | renewLease (epoch : ℤ)
  | releaseLease
  | prompt (link connection : ℕ) (req : DispatchRequest) (cwd : String)
  | connectionEnded (link : ℕ)
  | unregister (w : WorkerId)
  deriving DecidableEq

inductive Output where
  | submitted (r : Except DispatchError TaskId)
  | cancelled (r : Except CancelError Unit)
  | finished

/-- `Store::delete_task`, whose dependents check is a read of its own. -/
def deleteTask (id : TaskId) : M (Except StoreError TaskDeleteOutcome) := do
  let dependents ← call (.store (.pendingDependents id))
  match dependents with
  | .error e => return .error e
  | .ok (d :: ds) => return .ok (.blockedByDependents (d :: ds))
  | .ok [] => call (.store (.removeTerminal id))

def finishing {α : Type} (p : M α) : M Output := do
  let _ ← p
  return .finished

def withIdentity {α : Type} (cfg : ProcessConfig) (f : LeaseIdentity → M α) : M Output :=
  match cfg.lease with
  | none => return .finished
  | some identity => finishing (f identity)

def program (D : Deployment) (p : ℕ) : Activity → M Output
  | .submit task => do
    let r ← Dispatcher.submit D (D.process p) task
    return .submitted r
  | .cancel id reason => do
    let r ← Dispatcher.cancel (D.process p) id reason
    return .cancelled r
  | .workerEvent e => finishing (Dispatcher.handleWorkerEvent D (D.process p) e)
  | .reconcile => finishing (Reconciler.reconcileOnce D (D.process p))
  | .deleteTask id => finishing (deleteTask id)
  | .acquireLease => withIdentity (D.process p) LeaseManager.tryAcquire
  | .renewLease epoch => withIdentity (D.process p) fun identity =>
      LeaseManager.tryRenew identity epoch
  | .releaseLease => withIdentity (D.process p) LeaseManager.release
  | .prompt link connection req cwd => finishing (AcpTransport.promptTask link connection req cwd)
  | .connectionEnded link => finishing (AcpTransport.connectionEnded link)
  | .unregister w => finishing (AcpTransport.unregister w)

def spawned : (op : Op) → Resp op → List Activity
  | .acp (.spawnPrompt link connection req cwd), _ => [.prompt link connection req cwd]
  | _, _ => []

/-- A task as its client makes it: under an id never used before, and not yet worked on. -/
def IsNew (t : Task) : Prop :=
  t.status = .pending ∧ t.dispatchedAt = none ∧ t.acpSessionId = none ∧ t.skillSnapshot = none ∧
    t.dispatchControlEpoch = none

instance (t : Task) : Decidable (IsNew t) := inferInstanceAs (Decidable (_ ∧ _ ∧ _ ∧ _ ∧ _))

namespace World

def mint (w : World) (t : Task) : Option World :=
  if IsNew t ∧ t.id ∉ w.minted then some { w with minted := t.id :: w.minted } else none

def withTransport (w : World) (p : ℕ) (t : TransportState) : World :=
  w.setProcess p (setTransport (w.process p) t)

def withStore (w : World) (s : StoreState) : World := { w with store := s }

end World

def takeEvent (e : WorkerEvent) (t : TransportState) : Option TransportState :=
  match t.subscribers with
  | [] => none
  | u :: us =>
    if u.received[u.taken]? = some e then
      some { t with subscribers := { u with taken := u.taken + 1 } :: us }
    else none

def beginCleaning (link : ℕ) (t : TransportState) : Option TransportState :=
  match t.link? link with
  | none => none
  | some l =>
    if l.supervising = .serving then
      some (t.modifyLink link fun l => { l with supervising := .cleaning })
    else none

/-- Prompt tasks are only started by a dispatch; an event is handled by the loop that took it. -/
def accept (p : ℕ) : Activity → World → Option World
  | .submit task, w => w.mint task
  | .workerEvent e, w => (takeEvent e (w.process p).transport).map (w.withTransport p)
  | .connectionEnded link, w => (beginCleaning link (w.process p).transport).map (w.withTransport p)
  | .prompt .., _ => none
  | .cancel .., w | .reconcile, w | .deleteTask _, w | .acquireLease, w | .renewLease _, w
  | .releaseLease, w | .unregister _, w => some w

/-- What happens outside the modelled functions: clocks, operators, workers, connections. -/
inductive Disturbance where
  | elapse (d : ℕ)
  | setWorkers (workers : WorkerTable)
  | setAgents (agents : AgentTable)
  | setCredentials (credentials : List (String × String))
  | setTemplates (templates : List (ℕ × List String))
  | insertPending (t : Task)
  | resetBreaker (p : ℕ) (w : WorkerId)
  | register (p : ℕ) (w : WorkerId) (maxConcurrent : ℕ)
  | connecting (p link : ℕ)
  | established (p link connection : ℕ) (declaresList : Bool)
  | notify (p link : ℕ) (sessionId : SessionId) (msg : SessionMsg)
  | consume (p queue : ℕ)
  | subscribe (p : ℕ)
  | pump (p subscriber : ℕ)
  | openSession (w : WorkerId) (sessionId : SessionId)
  | loseSession (w : WorkerId) (sessionId : SessionId)
  | resumeSession (w : WorkerId) (sessionId : SessionId)

def register (w : WorkerId) (maxConcurrent : ℕ) (t : TransportState) : Option TransportState :=
  match t.clients w with
  | some _ => none
  | none => some { t with
      links := t.links ++ [{ workerId := w, capacity := maxConcurrent, maxConcurrent }]
      clients := fun v => if v = w then some t.links.length else t.clients v }

def connecting (link : ℕ) (t : TransportState) : Option TransportState :=
  match t.link? link with
  | none => none
  | some l =>
    if l.supervising = .connecting then
      some (t.modifyLink link fun l => { l with state := .connecting })
    else none

def established (link connection : ℕ) (declaresList : Bool) (t : TransportState) :
    Option TransportState :=
  match t.link? link with
  | none => none
  | some l =>
    if l.supervising = .connecting then
      some (t.modifyLink link fun l => { l with
        connection := some connection, state := .connected, sessionListDeclared := declaresList,
        supervising := .serving })
    else none

def pumpAt (j : ℕ) (t : TransportState) : Option TransportState :=
  match t.subscribers[j]? with
  | none => none
  | some u => (t.pump u).map fun u' => { t with subscribers := t.subscribers.set j u' }

def resetBreaker (v : WorkerId) (p : Process) : Process :=
  match p.breakers v with
  | some b => p.setBreaker v b.reset
  | none => p

def disturb : Disturbance → World → Option World
  | .elapse d, w => some (w.withStore { w.store with now := w.store.now + d })
  | .setWorkers workers, w => some (w.withStore { w.store with workers })
  | .setAgents agents, w => some (w.withStore { w.store with agents })
  | .setCredentials credentials, w => some (w.withStore { w.store with credentials })
  | .setTemplates templates, w =>
    some (w.withStore { w.store with templateTools := templates })
  | .insertPending t, w => (w.mint t).map fun w' => w'.withStore (withTask w'.store t)
  | .resetBreaker p v, w => some (w.setProcess p (resetBreaker v (w.process p)))
  | .register p v n, w => (register v n (w.process p).transport).map (w.withTransport p)
  | .connecting p link, w => (connecting link (w.process p).transport).map (w.withTransport p)
  | .established p link connection declaresList, w =>
    (established link connection declaresList (w.process p).transport).map (w.withTransport p)
  | .notify p link sessionId msg, w =>
    some (w.withTransport p ((w.process p).transport.notify link sessionId msg))
  | .consume p q, w => ((w.process p).transport.consume q).map (w.withTransport p)
  | .subscribe p, w => some (w.withTransport p (w.process p).transport.subscribe)
  | .pump p j, w => (pumpAt j (w.process p).transport).map (w.withTransport p)
  | .openSession v sessionId, w => ((w.host v).openSession sessionId).map (w.setHost v)
  | .loseSession v sessionId, w => some (w.setHost v ((w.host v).lose sessionId))
  | .resumeSession v sessionId, w => some (w.setHost v ((w.host v).resume sessionId))

def fleet (D : Deployment) : Machine Op Resp ℕ Activity Output World Choice Disturbance where
  program := program D
  exec := exec D
  spawned := spawned
  accept := accept
  disturb := disturb

abbrev FleetConfig : Type := Config Op Resp ℕ Activity Output World
abbrev FleetAction : Type := Action ℕ Activity Choice Disturbance
abbrev FleetLog : Type := List (Call Op Resp ℕ)

/-- Before anything has been submitted and before any process has started. -/
structure Pristine (w : World) : Prop where
  tasks : w.store.tasks = .empty
  leases : w.store.controlLeases = .empty
  process : ∀ p, w.process p = {}
  host : ∀ v, w.host v = {}
  minted : w.minted = []

structure Start (c : FleetConfig) : Prop where
  fresh : Machine.Fresh c
  pristine : Pristine c.state

/-- Nothing runs yet, and no id in the table is handed out again. -/
structure Seeded (c : FleetConfig) : Prop where
  fresh : Machine.Fresh c
  minted : ∀ id t, c.state.store.tasks.get id = some t → id ∈ c.state.minted

theorem Start.seeded {c : FleetConfig} (h : Start c) : Seeded c where
  fresh := h.fresh
  minted id t ht := by
    rw [h.pristine.tasks] at ht
    cases ht

/-- Nothing has happened yet. -/
def initial : FleetConfig where
  state := { store := .empty, process := fun _ => {}, host := fun _ => {}, minted := [] }
  threads := []
  log := []

theorem initial_start : Start initial :=
  ⟨⟨rfl, rfl⟩, ⟨rfl, rfl, fun _ => rfl, fun _ => rfl, rfl⟩⟩

section Solo

/-- One process without a lease over the in-memory store. -/
def solo : Deployment where
  backend := .mem
  process := fun _ => { breaker :=
    { windowDurationSecs := 60, minSamples := 1, errorRateReached := fun f n => n ≤ 2 * f,
      openDurationSecs := 30, halfOpenMaxProbes := 1 } }
  resolveRouting := fun _ => ⟨"default", "default", 1000⟩
  sha256 := fun content => content

def soloTask (n : ℕ) (deps : List TaskId) : Task where
  id := ⟨n⟩
  prompt := "prompt"
  cwd := some "/work"
  createdAt := 0
  createdBy := "client"
  threadId := ⟨n⟩
  dependencyIds := deps

def soloWorkers : WorkerTable where
  rows := [{ id := ⟨0⟩, name := "worker", registeredAt := 0, incarnationStartedAt := 0 }]
  nodup := List.nodup_singleton _

/-- The worker registers and its connection is up. -/
def soloSetup : List FleetAction :=
  [.env (.setWorkers soloWorkers), .env (.register 0 ⟨0⟩ 4), .env (.established 0 0 0 true),
    .env (.subscribe 0)]

def steps (i n : ℕ) (ch : Choice) : List FleetAction := List.replicate n (.run i ch)

/-- The first task is submitted and handed over. -/
def soloHandOver : List FleetAction :=
  soloSetup ++ [.start 0 (.submit (soloTask 1 []))] ++ steps 0 37 {}

/-- Its prompt opens a session and finishes. -/
def soloPrompt : List FleetAction :=
  soloHandOver ++
    steps 1 8 { acp := { newSession := .opened "session", prompt := .finished none } } ++
    [.env (.consume 0 0)] ++ steps 1 6 {}

def soloResult : TaskResult where
  output := ""
  exitCode := 0
  durationSecs := 0
  tokenUsage := none
  workerId := ⟨0⟩
  finishedAt := 0

/-- Both events are handled. -/
def soloCompletion : List FleetAction :=
  soloPrompt ++ [.env (.pump 0 0), .env (.pump 0 0),
    .start 0 (.workerEvent (.sessionOpened ⟨1⟩ "session"))] ++ steps 2 2 {} ++
    [.start 0 (.workerEvent (.completed ⟨1⟩ soloResult))] ++ steps 3 12 {}

end Solo

end FleetOrchestrator.Scheduler
