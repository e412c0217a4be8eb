import FleetOrchestrator.Encoding.TomlTables
import FleetOrchestrator.Health.Calls
import FleetOrchestrator.Provision.Labels
import FleetOrchestrator.Worker.Supervision

/-! The worker's configuration file, without its sections mtls and llm_proxy. -/

namespace FleetOrchestrator.Worker.ConfigFile

open Core Encoding Health Provision

inductive ConfigError where
  | toml
  | config (msg : String)
  deriving DecidableEq, Repr

structure WorkerSection where
  name : String
  orchestratorUrl : String
  heartbeatIntervalSecs : ℕ
  agentFenceAfterSecs : ℕ
  watchdogStallAfterSecs : ℕ
  operationalToken : Option String
  labels : LabelMap
  existingWorkerId : Option String
  livenessMode : WorkerLivenessMode

structure GrokSection where
  bin : String
  bindAddr : String
  secret : String
  maxConcurrentTasks : ℕ
  restartDelaySecs : ℕ
  cwd : Option String
  agentPortRange : String
  agentWorkspaceRoot : Option String
  maxAgentProcesses : ℕ

structure WorkerConfig where
  worker : WorkerSection
  grok : GrokSection

def trimEndSlashes (s : String) : String := String.ofList (s.toList.rdropWhile (· = '/'))

def normalizeUrl (url : String) : String := trimEndSlashes (trim url)

def WorkerConfig.normalize (c : WorkerConfig) : WorkerConfig where
  worker := { c.worker with
    orchestratorUrl := normalizeUrl c.worker.orchestratorUrl
    name := trim c.worker.name }
  grok := { c.grok with
    bin := trim c.grok.bin
    bindAddr := trim c.grok.bindAddr
    secret := trim c.grok.secret }

def startsHttp (url : String) : Bool :=
  "http://".toList.isPrefixOf url.toList || "https://".toList.isPrefixOf url.toList

def WorkerSection.settings (s : WorkerSection) : Worker.WorkerConfig :=
  ⟨s.heartbeatIntervalSecs, s.agentFenceAfterSecs, s.watchdogStallAfterSecs⟩

def GrokSection.validate (s : GrokSection) : Except String Unit :=
  if s.bin = "" then .error "grok.bin must not be empty"
  else if s.secret = "" then .error "grok.secret must not be empty"
  else if s.maxConcurrentTasks = 0 then .error "grok.max_concurrent_tasks must be >= 1"
  else if s.restartDelaySecs > 300 then .error "grok.restart_delay_secs must be <= 300"
  else .ok ()

def WorkerConfig.validate (c : WorkerConfig) : Except String Unit :=
  if c.worker.name = "" then .error "worker.name must not be empty"
  else if !validWorkerName c.worker.name then
    .error "worker.name must be alphanumeric, '-', '_', or '.' only"
  else if !startsHttp c.worker.orchestratorUrl then
    .error "worker.orchestrator_url must start with http:// or https://"
  else
    match c.worker.settings.validate with
    | .error e => .error e
    | .ok () => c.grok.validate

section Reading

def workerKey (key : String) : Toml.Path := ["worker".toList, key.toList]

def grokKey (key : String) : Toml.Path := ["grok".toList, key.toList]

def text : Toml.Item → Option String
  | .scalar (.string s) => some (String.ofList s)
  | _ => none

def u32 : Toml.Item → Option ℕ
  | .scalar (.integer n) => if 0 ≤ n ∧ n < 2 ^ 32 then some n.toNat else none
  | _ => none

def liveness (i : Toml.Item) : Option WorkerLivenessMode :=
  match text i with
  | some "periodic" => some .periodic
  | some "on_demand" => some .onDemand
  | _ => none

/-- A field that may be missing, but not have another type. -/
def optional {α : Type} (ss : List Toml.Statement) (read : Toml.Item → Option α) (p : Toml.Path) :
    Except ConfigError (Option α) :=
  match Toml.item ss p with
  | none => .ok none
  | some i => if (read i).isSome then .ok (read i) else .error .toml

def defaulted {α : Type} (ss : List Toml.Statement) (read : Toml.Item → Option α) (p : Toml.Path)
    (default : α) : Except ConfigError α :=
  (optional ss read p).map (·.getD default)

def required {α : Type} (ss : List Toml.Statement) (read : Toml.Item → Option α) (p : Toml.Path) :
    Except ConfigError α :=
  match optional ss read p with
  | .ok (some a) => .ok a
  | _ => .error .toml

def label : Toml.Path × Toml.Scalar → Option (String × String)
  | ([_, _, k], .string v) => some (String.ofList k, String.ofList v)
  | _ => none

/-- Whether a table is defined within the one at the path. -/
def holdsTable (ss : List Toml.Statement) (p : Toml.Path) : Bool :=
  (Toml.tablePaths ss).any fun q =>
    p.isPrefixOf q && p.length < q.length && !((Toml.leaves ss).lookup q).isSome

def labelTable (ss : List Toml.Statement) (p : Toml.Path) : Except ConfigError LabelMap :=
  match Toml.item ss p with
  | none => .ok .empty
  | some (.scalar _) => .error .toml
  | some .table =>
    let within := (Toml.leaves ss).filter (p.isPrefixOf ·.1)
    if holdsTable ss p || within.any (fun l => (label l).isNone) then .error .toml
    else .ok ((within.filterMap label).foldl (fun m r => m.put r) .empty)

def readWorker (ss : List Toml.Statement) : Except ConfigError WorkerSection := do
  return {
    name := ← required ss text (workerKey "name")
    orchestratorUrl := ← required ss text (workerKey "orchestrator_url")
    heartbeatIntervalSecs := ← defaulted ss u32 (workerKey "heartbeat_interval_secs") 15
    agentFenceAfterSecs := ← defaulted ss u32 (workerKey "agent_fence_after_secs") 300
    watchdogStallAfterSecs := ← defaulted ss u32 (workerKey "watchdog_stall_after_secs") 600
    operationalToken := ← optional ss text (workerKey "operational_token")
    labels := ← labelTable ss (workerKey "labels")
    existingWorkerId := ← optional ss text (workerKey "existing_worker_id")
    livenessMode := ← defaulted ss liveness (workerKey "liveness_mode") .periodic }

def readGrok (ss : List Toml.Statement) : Except ConfigError GrokSection := do
  return {
    bin := ← required ss text (grokKey "bin")
    bindAddr := ← defaulted ss text (grokKey "bind_addr") "127.0.0.1:2419"
    secret := ← required ss text (grokKey "secret")
    maxConcurrentTasks := ← defaulted ss u32 (grokKey "max_concurrent_tasks") 4
    restartDelaySecs := ← defaulted ss u32 (grokKey "restart_delay_secs") 5
    cwd := ← optional ss text (grokKey "cwd")
    agentPortRange := ← defaulted ss text (grokKey "agent_port_range") "2420-2519"
    agentWorkspaceRoot := ← optional ss text (grokKey "agent_workspace_root")
    maxAgentProcesses := ← defaulted ss u32 (grokKey "max_agent_processes") 4 }

def legacyToken : String :=
  "worker.toml uses the legacy '[worker] bootstrap_token' field, which is no longer " ++
    "used for register/heartbeat/deregister authentication. Re-run `fleet-worker join` " ++
    "with a fresh bootstrap token to obtain a config containing 'operational_token'. " ++
    "(`fleet workers credential rotate <worker_id>` only works for a worker that is " ++
    "still enrolled and already has an operational credential; it returns 404 for a " ++
    "worker that was never joined through /v1/workers/join.)"

def fromStatements (ss : List Toml.Statement) : Except ConfigError WorkerConfig :=
  if ¬Toml.Consistent ss then .error .toml
  else if (Toml.item ss (workerKey "bootstrap_token")).isSome then .error (.config legacyToken)
  else
    match readWorker ss, readGrok ss with
    | .ok worker, .ok grok =>
      let config := WorkerConfig.normalize ⟨worker, grok⟩
      match config.validate with
      | .error e => .error (.config e)
      | .ok () => .ok config
    | _, _ => .error .toml

/-- The configuration that the worker starts with, given the contents of its file. -/
def FromStr (contents : List Char) (config : WorkerConfig) : Prop :=
  ∃ ss, Toml.Reads contents ss ∧ fromStatements ss = .ok config

end Reading

section Validation

variable {c : WorkerConfig}

theorem grok_valid {s : GrokSection} : s.validate = .ok () ↔
    s.bin ≠ "" ∧ s.secret ≠ "" ∧ s.maxConcurrentTasks ≠ 0 ∧ s.restartDelaySecs ≤ 300 := by
  unfold GrokSection.validate
  by_cases hb : s.bin = ""
  · simp [hb]
  · by_cases hs : s.secret = ""
    · simp [hb, hs]
    · by_cases hm : s.maxConcurrentTasks = 0
      · simp [hb, hs, hm]
      · by_cases hr : s.restartDelaySecs > 300
        · rw [if_neg hb, if_neg hs, if_neg hm, if_pos hr]
          exact iff_of_false nofun fun h => absurd h.2.2.2 (Nat.not_le.mpr hr)
        · simp [hb, hs, hm, hr, Nat.not_lt.mp hr]

theorem settings_valid {w : Worker.WorkerConfig} : w.validate = .ok () ↔
    w.heartbeatIntervalSecs < w.agentFenceAfterSecs ∧
      (w.watchdogStallAfterSecs = 0 ∨ w.heartbeatIntervalSecs < w.watchdogStallAfterSecs) := by
  unfold Worker.WorkerConfig.validate
  split
  · exact iff_of_false nofun (by omega)
  · split
    · exact iff_of_false nofun (by omega)
    · exact iff_of_true rfl (by omega)

theorem config_valid : c.validate = .ok () ↔
    c.worker.name ≠ "" ∧ validWorkerName c.worker.name = true ∧
      startsHttp c.worker.orchestratorUrl = true ∧ c.worker.settings.validate = .ok () ∧
      c.grok.validate = .ok () := by
  unfold WorkerConfig.validate
  by_cases hn : c.worker.name = ""
  · simp [hn]
  · by_cases hv : validWorkerName c.worker.name = true
    · by_cases hu : startsHttp c.worker.orchestratorUrl = true
      · cases hs : c.worker.settings.validate with
        | error e => simp [hn, hv, hu]
        | ok u => simp [hn, hv, hu]
      · simp [hn, hv, hu]
    · simp [hn, hv]

end Validation

section Fields

variable {α : Type} {ss : List Toml.Statement} {read : Toml.Item → Option α} {p : Toml.Path}
  {i : Toml.Item} {a : α} {ps : List (Toml.Path × Toml.Scalar)}

theorem optional_some (hi : Toml.item ss p = some i) (hr : read i = some a) :
    optional ss read p = .ok (some a) := by
  rw [optional, hi]
  dsimp only
  rw [hr]
  rfl

theorem optional_none (read : Toml.Item → Option α) (hi : Toml.item ss p = none) :
    optional ss read p = .ok none := by
  rw [optional, hi]

theorem required_some (hi : Toml.item ss p = some i) (hr : read i = some a) :
    required ss read p = .ok a := by
  rw [required, optional_some hi hr]

theorem defaulted_some (hi : Toml.item ss p = some i) (hr : read i = some a) (default : α) :
    defaulted ss read p default = .ok a := by
  rw [defaulted, optional_some hi hr]
  rfl

theorem defaulted_none (read : Toml.Item → Option α) (hi : Toml.item ss p = none) (default : α) :
    defaulted ss read p default = .ok default := by
  rw [defaulted, optional_none read hi]
  rfl

theorem text_string (s : List Char) :
    text (.scalar (.string s)) = some (String.ofList s) := rfl

theorem u32_integer (n : UInt32) : u32 (.scalar (.integer n.toNat)) = some n.toNat := by
  have hn := n.toNat_lt
  rw [u32, if_pos (by omega), Int.toNat_natCast]

theorem holdsTable_inline (hs : ((Toml.placed [] ss).map Prod.fst).Pairwise Toml.Separate)
    (h : (p, .table ps) ∈ Toml.placed [] ss) (hh : ∀ q ∈ Toml.headers ss, ¬p <+: q) :
    holdsTable ss p = false := by
  obtain ⟨front, back, he, hfront, hback⟩ := Toml.exists_sides hs h
  rw [holdsTable, List.any_eq_false]
  intro q hq
  simp only [Bool.and_eq_true, List.isPrefixOf_iff_prefix, decide_eq_true_eq, not_and]
  rintro ⟨hp, hlen⟩
  rcases List.mem_append.mp hq with hq | hq
  · exact absurd hp (hh q hq)
  · obtain ⟨e, hmem, rfl⟩ := List.mem_map.mp hq
    rw [he, List.mem_append, List.mem_cons] at hmem
    rcases hmem with hmem | rfl | hmem
    · exact absurd hp (hfront e hmem).1
    · exact absurd hlen (Nat.lt_irrefl _)
    · exact absurd hp (hback e hmem).1

end Fields

end FleetOrchestrator.Worker.ConfigFile
