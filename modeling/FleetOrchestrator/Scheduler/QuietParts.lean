import FleetOrchestrator.Scheduler.Licences

/-! The parts of the activities that decide nothing. -/

namespace FleetOrchestrator.Scheduler

open Core Store Transport Interleaving

theorem quiet_step {α : Type} {op : Op} {f : Resp op → M α} (hq : op.quiet = true)
    (hf : ∀ r, Uses Quiet (f r)) : Uses Quiet (call op >>= f) :=
  uses_bind (uses_perform hq) hf

theorem mere_step {α : Type} {op : Op} {f : Resp op → M α} (hm : op.mere = true)
    (hf : ∀ r, Uses Mere (f r)) : Uses Mere (call op >>= f) :=
  uses_bind (uses_perform hm) hf

theorem utcNow_mere : Uses Mere utcNow := uses_call rfl fun _ => uses_ret _

theorem getTask_mere (id : TaskId) : Uses Mere (getTask id) := uses_call rfl fun _ => uses_ret _

theorem appendEvent_quiet (e : ℤ → FleetEvent) : Uses Quiet (appendEvent e) := by
  refine uses_bind (quiet_of_mere utcNow_mere) fun now => ?_
  refine quiet_step rfl fun r => ?_
  exact uses_ret _

theorem appendEvent_mere {e : ℤ → FleetEvent} (he : ∀ now, (e now).isDecision = false) :
    Uses Mere (appendEvent e) := by
  refine uses_bind utcNow_mere fun now => ?_
  refine mere_step ?_ fun r => ?_
  · simp [Op.mere, Op.quiet, Op.accounted, he]
  · exact uses_ret _

theorem recordDecision_mere (actor action : String) (target : String × String)
    (detail : List (String × AuditValue)) :
    Uses Mere (recordDecision actor action target detail) := by
  refine uses_bind utcNow_mere fun now => ?_
  refine mere_step rfl fun epoch => ?_
  refine mere_step rfl fun r => ?_
  exact uses_ret _

theorem auditControl_mere (cfg : ProcessConfig) (action : String) (target : String × String)
    (detail : List (String × AuditValue)) :
    Uses Mere (auditControl cfg action target detail) := by
  unfold auditControl
  cases cfg.lease with
  | none => exact uses_ret _
  | some identity => exact recordDecision_mere _ _ _ _

theorem auditDecision_mere (cfg : ProcessConfig) (action : String) (target : String × String)
    (detail : List (String × AuditValue)) :
    Uses Mere (auditDecision cfg action target detail) := recordDecision_mere _ _ _ _

section Skills

open SkillLoader

theorem loadSkill_mere (name : String) : Uses Mere (loadSkill name) := by
  unfold loadSkill
  split
  · exact uses_ret _
  · refine mere_step rfl fun file => ?_
    cases file with
    | text content => exact uses_ret _
    | unreadable => exact uses_ret _
    | notFound =>
      refine mere_step rfl fun txt => ?_
      cases txt <;> exact uses_ret _

theorem gather_mere (sha256 : String → String) (names : List String) (g : Gathered) :
    Uses Mere (gather sha256 names g) := by
  induction names generalizing g with
  | nil => exact uses_ret _
  | cons name names ih =>
    refine uses_bind (loadSkill_mere name) fun body => ?_
    exact ih _

theorem injectSkills_mere (sha256 : String → String) (prompt : String) (names : List String) :
    Uses Mere (injectSkills sha256 prompt names) := by
  refine uses_bind (gather_mere sha256 names {}) fun g => ?_
  exact uses_ret _

end Skills

section Connections

open AcpTransport

theorem probe_mere (w : WorkerId) (timeoutSecs : ℕ) : Uses Mere (probe w timeoutSecs) := by
  refine mere_step rfl fun client => ?_
  cases client with
  | none => exact uses_ret _
  | some link =>
    refine mere_step rfl fun state => ?_
    cases state with
    | connecting => exact uses_ret _
    | disconnected => exact uses_ret _
    | connected =>
      refine mere_step rfl fun connection => ?_
      cases connection with
      | none => exact uses_ret _
      | some connection =>
        refine mere_step rfl fun answered => ?_
        cases answered with
        | listed sessions more => exact uses_ret _
        | refused message agentAnswer =>
          refine mere_step rfl fun state => ?_
          split <;> exact uses_ret _
        | timedOut => exact uses_ret _

/-- All that a listing does is to ask the worker. -/
theorem listSessions_uses {allowed : Op → Prop} (w : WorkerId) (timeoutSecs : ℕ)
    (hacp : ∀ o : AcpOp, (Op.acp o).mere = true → allowed (.acp o)) :
    Uses allowed (listSessions w timeoutSecs) := by
  refine uses_bind (uses_perform (hacp _ rfl)) fun client => ?_
  cases client with
  | none => exact uses_ret _
  | some link =>
    refine uses_bind (uses_perform (hacp _ rfl)) fun state => ?_
    cases state with
    | connecting => exact uses_ret _
    | disconnected => exact uses_ret _
    | connected =>
      refine uses_bind (uses_perform (hacp _ rfl)) fun declared => ?_
      cases declared with
      | false => exact uses_ret _
      | true =>
        refine uses_bind (uses_perform (hacp _ rfl)) fun connection => ?_
        cases connection with
        | none => exact uses_ret _
        | some connection =>
          refine uses_bind (uses_perform (hacp _ rfl)) fun answered => ?_
          cases answered with
          | listed sessions more => cases more <;> exact uses_ret _
          | refused message agentAnswer =>
            refine uses_bind (uses_perform (hacp _ rfl)) fun state => ?_
            split <;> exact uses_ret _
          | timedOut => exact uses_ret _

theorem listSessions_mere (w : WorkerId) (timeoutSecs : ℕ) :
    Uses Mere (listSessions w timeoutSecs) := listSessions_uses w timeoutSecs fun _ h => h

theorem cancel_quiet (req : CancelRequest) : Uses Quiet (AcpTransport.cancel req) := by
  refine quiet_step rfl fun target => ?_
  cases target with
  | unreachable => exact uses_ret _
  | noSession => exact uses_ret _
  | «at» link sessionId =>
    refine quiet_step rfl fun connection => ?_
    cases connection with
    | none => exact uses_ret _
    | some connection =>
      refine quiet_step rfl fun sent => ?_
      exact uses_ret _

theorem unregister_mere (w : WorkerId) : Uses Mere (unregister w) := by
  refine mere_step rfl fun client => ?_
  cases client with
  | none => exact uses_ret _
  | some link =>
    refine mere_step rfl fun shutdown => ?_
    exact uses_ret _

end Connections

section Selection

open Selector

theorem responds_mere (w : Worker) : Uses Mere (responds w) := by
  unfold responds
  cases w.livenessMode with
  | periodic => exact uses_ret _
  | onDemand =>
    refine uses_bind (probe_mere _ _) fun outcome => ?_
    cases outcome with
    | ok idle =>
      refine mere_step rfl fun recorded => ?_
      exact uses_ret _
    | error e => exact uses_ret _

theorem withCredential_mere (model : String) (ws : List Worker) :
    Uses Mere (withCredential model ws) := by
  induction ws with
  | nil => exact uses_ret _
  | cons w ws ih =>
    refine mere_step rfl fun held => ?_
    refine uses_bind ih fun rest => ?_
    rcases held with e | _ | _ <;> exact uses_ret _

theorem circuitClosed_mere (ws : List Worker) : Uses Mere (circuitClosed ws) := by
  induction ws with
  | nil => exact uses_ret _
  | cons w ws ih =>
    refine mere_step rfl fun state => ?_
    refine uses_bind ih fun rest => ?_
    split <;> exact uses_ret _

theorem ifResponds_mere (w : Worker) (otherwise : SelectionError) :
    Uses Mere (ifResponds w otherwise) := by
  refine uses_bind (responds_mere w) fun up => ?_
  split <;> exact uses_ret _

theorem selectAgent_mere (candidates atCapacity : List Worker) (agentId : AgentId) :
    Uses Mere (selectAgent candidates atCapacity agentId) := by
  refine mere_step rfl fun found => ?_
  rcases found with e | _ | agent
  · exact uses_ret _
  · exact uses_ret _
  · dsimp only
    cases agentDispatchable agent with
    | error e => exact uses_ret _
    | ok dispatchable =>
      cases agent.workerId with
      | none => exact uses_ret _
      | some w =>
        dsimp only
        cases candidates.find? fun c => c.id = w with
        | some c => exact ifResponds_mere _ _
        | none =>
          dsimp only
          split <;> exact uses_ret _

theorem selectHinted_mere (candidates atCapacity : List Worker) (hint : String) :
    Uses Mere (selectHinted candidates atCapacity hint) := by
  unfold selectHinted
  cases candidates.find? fun w => w.name = hint with
  | some w => exact ifResponds_mere _ _
  | none =>
    dsimp only
    split
    · exact uses_ret _
    · refine mere_step rfl fun named => ?_
      rcases named with e | _ | w <;> exact uses_ret _

theorem firstResponding_mere (ws : List Worker) : Uses Mere (firstResponding ws) := by
  induction ws with
  | nil => exact uses_ret _
  | cons w ws ih =>
    refine uses_bind (responds_mere w) fun up => ?_
    split
    · exact uses_ret _
    · exact ih

theorem choose_mere (task : Task) (candidates : List Worker) (load : WorkerId → ℕ) :
    Uses Mere (choose task candidates load) := by
  unfold choose
  cases task.agentId with
  | some agentId => exact selectAgent_mere _ _ _
  | none =>
    cases task.serverHint with
    | some hint => exact selectHinted_mere _ _ _
    | none =>
      dsimp only
      split
      · exact uses_ret _
      · split
        · exact uses_ret _
        · exact firstResponding_mere _

end Selection

section Dispatching

open Dispatcher

theorem getWorkerCircuitState_mere (w : WorkerId) : Uses Mere (getWorkerCircuitState w) := by
  refine mere_step rfl fun found => ?_
  rcases found with e | _ | worker <;> exact uses_ret _

theorem persistBreakerTransition_mere (w : WorkerId) (old new : BreakerState) :
    Uses Mere (persistBreakerTransition w old new) := by
  unfold persistBreakerTransition
  split
  · exact uses_ret _
  · refine mere_step rfl fun updated => ?_
    exact appendEvent_mere fun _ => rfl

theorem recordOutcome_quiet (w : WorkerId) (outcome : Outcome) :
    Uses Quiet (recordOutcome w outcome) := by
  refine quiet_step rfl fun old => ?_
  refine quiet_step rfl fun recorded => ?_
  refine quiet_step rfl fun new => ?_
  exact quiet_of_mere (persistBreakerTransition_mere _ _ _)

theorem recordOnBreaker_quiet (w : WorkerId) (outcome : Outcome) :
    Uses Quiet (recordOnBreaker w outcome) := by
  refine uses_bind (quiet_of_mere (getWorkerCircuitState_mere w)) fun initial => ?_
  refine quiet_step rfl fun got => ?_
  exact recordOutcome_quiet _ _

theorem recordFailureOf_quiet (worker : Option WorkerId) : Uses Quiet (recordFailureOf worker) := by
  cases worker with
  | none => exact uses_ret _
  | some w => exact recordOnBreaker_quiet _ _

theorem buildThreadedPrompt_mere (task : Task) : Uses Mere (buildThreadedPrompt task) := by
  refine mere_step rfl fun history => ?_
  cases history <;> exact uses_ret _

theorem basePrompt_mere (task : Task) : Uses Mere (basePrompt task) := by
  unfold basePrompt
  split
  · exact buildThreadedPrompt_mere task
  · exact uses_ret _

theorem blameWorker_quiet (w : WorkerId) (e : TransportError) : Uses Quiet (blameWorker w e) := by
  unfold blameWorker
  split
  · refine quiet_step rfl fun old => ?_
    refine quiet_step rfl fun new => ?_
    exact quiet_of_mere (persistBreakerTransition_mere _ _ _)
  · exact recordOutcome_quiet _ _

theorem hasUnresolvedDependencies_mere (deps : List TaskId) :
    Uses Mere (hasUnresolvedDependencies deps) := by
  induction deps with
  | nil => exact uses_ret _
  | cons dep deps ih =>
    refine uses_bind (getTask_mere dep) fun found => ?_
    rcases found with e | _ | t
    · exact uses_ret _
    · exact uses_ret _
    · dsimp only
      cases t.phase with
      | completed => exact ih
      | _ => exact uses_ret _

theorem currentWorkerOf_mere (id : TaskId) : Uses Mere (currentWorkerOf id) := by
  refine uses_bind (getTask_mere id) fun found => ?_
  rcases found with e | _ | t
  · exact uses_ret _
  · exact uses_ret _
  · dsimp only
    cases t.status <;> exact uses_ret _

theorem allowedTools_mere (revision : ℕ) : Uses Mere (allowedTools revision) := by
  refine mere_step rfl fun cached => ?_
  cases cached with
  | some tools => exact uses_ret _
  | none =>
    refine mere_step rfl fun found => ?_
    rcases found with e | _ | tools
    · exact uses_ret _
    · exact uses_ret _
    · refine mere_step rfl fun kept => ?_
      exact uses_ret _

theorem checkToolName_mere (cfg : ProcessConfig) (id : TaskId) (w : WorkerId) (agent : Agent)
    (revision : ℕ) (name : String) :
    Uses Mere (checkToolName cfg id w agent revision name) := by
  refine uses_bind (allowedTools_mere revision) fun allowed => ?_
  cases allowed with
  | none => exact uses_ret _
  | some tools =>
    dsimp only
    split
    · exact uses_ret _
    · exact auditDecision_mere _ _ _ _

theorem checkToolAgainstAllowlist_mere (cfg : ProcessConfig) (id : TaskId) (w : WorkerId)
    (invocation : ToolInvocation) :
    Uses Mere (checkToolAgainstAllowlist cfg id w invocation) := by
  unfold checkToolAgainstAllowlist
  cases invocation.name with
  | none => exact uses_ret _
  | some name =>
    refine uses_bind (getTask_mere id) fun found => ?_
    rcases found with e | _ | t
    · exact uses_ret _
    · exact uses_ret _
    · dsimp only
      cases t.agentId with
      | none => exact uses_ret _
      | some agentId =>
        refine mere_step rfl fun agent => ?_
        rcases agent with e | _ | agent
        · exact uses_ret _
        · exact uses_ret _
        · dsimp only
          cases agent.templateRevision with
          | none => exact uses_ret _
          | some revision => exact checkToolName_mere _ _ _ _ _ _

theorem handleToolCall_mere (cfg : ProcessConfig) (id : TaskId) (w : WorkerId)
    (invocation : ToolInvocation) : Uses Mere (handleToolCall cfg id w invocation) := by
  refine uses_bind (appendEvent_mere fun _ => rfl) fun appended => ?_
  exact checkToolAgainstAllowlist_mere _ _ _ _

theorem abandonOutcome_mere (cfg : ProcessConfig) (id : TaskId) :
    Uses Mere (abandonOutcome cfg id) := by
  refine mere_step rfl fun label => ?_
  exact auditControl_mere _ _ _ _

end Dispatching

section Reconciling

open Reconciler

theorem noteRetry_mere (cfg : ProcessConfig) (id : TaskId) : Uses Mere (noteRetry cfg id) := by
  unfold noteRetry
  split
  · refine mere_step rfl fun counted => ?_
    exact uses_ret _
  · exact uses_ret _

theorem inventoryOf_mere (cfg : ProcessConfig) (w : WorkerId) (s : Sweep) :
    Uses Mere (inventoryOf cfg w s) := by
  unfold inventoryOf
  cases s.inventories.lookup w with
  | some cached => exact uses_ret _
  | none =>
    refine uses_bind (listSessions_mere _ _) fun listed => ?_
    cases listed <;> exact uses_ret _

theorem cancelOrphan_quiet (cfg : ProcessConfig) (w : WorkerId) (task : Task)
    (sessionId : SessionId) (summary : ReconcileSummary) :
    Uses Quiet (cancelOrphan cfg w task sessionId summary) := by
  refine uses_bind (cancel_quiet _) fun delivery => ?_
  rcases delivery with e | _ | _ | _
  · exact uses_ret _
  · refine uses_bind (quiet_of_mere (auditDecision_mere _ _ _ _)) fun audited => ?_
    exact uses_ret _
  · exact uses_ret _
  · exact uses_ret _

theorem judgeSession_quiet (cfg : ProcessConfig) (w : WorkerId) (sessionId : SessionId)
    (summary : ReconcileSummary) : Uses Quiet (judgeSession cfg w sessionId summary) := by
  refine quiet_step rfl fun owner => ?_
  rcases owner with e | _ | task
  · exact uses_ret _
  · refine uses_bind (quiet_of_mere (auditDecision_mere _ _ _ _)) fun audited => ?_
    exact uses_ret _
  · dsimp only
    split
    · exact cancelOrphan_quiet _ _ _ _ _
    · exact uses_ret _

theorem judgeSessions_quiet (cfg : ProcessConfig) (w : WorkerId) (sessions : List SessionId)
    (summary : ReconcileSummary) : Uses Quiet (judgeSessions cfg w sessions summary) := by
  induction sessions generalizing summary with
  | nil => exact uses_ret _
  | cons sessionId sessions ih =>
    refine uses_bind (judgeSession_quiet _ _ _ _) fun summary => ?_
    exact ih _

theorem heldBy_mere (cfg : ProcessConfig) (inventories : Inventories) (w : WorkerId) :
    Uses Mere (heldBy cfg inventories w) := by
  unfold heldBy
  cases inventories.lookup w with
  | some cached => exact uses_ret _
  | none => exact listSessions_mere _ _

theorem sweepWorkers_quiet (cfg : ProcessConfig) (inventories : Inventories)
    (workers : List Worker) (summary : ReconcileSummary) :
    Uses Quiet (sweepWorkers cfg inventories workers summary) := by
  induction workers generalizing summary with
  | nil => exact uses_ret _
  | cons worker workers ih =>
    refine uses_bind (quiet_of_mere (heldBy_mere _ _ _)) fun inventory => ?_
    rcases inventory with e | live | _ | message
    · exact ih _
    · refine uses_bind (judgeSessions_quiet _ _ _ _) fun summary => ?_
      exact ih _
    · exact ih _
    · exact ih _

theorem reportUnacked_mere (cfg : ProcessConfig) (agent : Agent) (w : WorkerId) (unackedFor : ℤ)
    (summary : ReconcileSummary) :
    Uses Mere (reportUnacked cfg agent w unackedFor summary) := by
  refine mere_step rfl fun first => ?_
  split
  · refine uses_bind (auditDecision_mere _ _ _ _) fun audited => ?_
    exact uses_ret _
  · exact uses_ret _

theorem judgeAgent_mere (cfg : ProcessConfig) (now : ℤ) (agent : Agent)
    (summary : ReconcileSummary) : Uses Mere (judgeAgent cfg now agent summary) := by
  unfold judgeAgent
  cases agent.workerId with
  | none => exact uses_ret _
  | some w =>
    cases agent.commandUnackedFor now with
    | none => exact uses_ret _
    | some unackedFor =>
      dsimp only
      split
      · exact uses_ret _
      · exact reportUnacked_mere _ _ _ _ _

theorem judgeAgents_mere (cfg : ProcessConfig) (now : ℤ) (agents : List Agent)
    (summary : ReconcileSummary) : Uses Mere (judgeAgents cfg now agents summary) := by
  induction agents generalizing summary with
  | nil => exact uses_ret _
  | cons agent agents ih =>
    refine uses_bind (judgeAgent_mere _ _ _ _) fun summary => ?_
    exact ih _

theorem reportUnackedCommands_mere (cfg : ProcessConfig) (summary : ReconcileSummary) :
    Uses Mere (reportUnackedCommands cfg summary) := by
  refine mere_step rfl fun listed => ?_
  cases listed with
  | error e => exact uses_ret _
  | ok agents =>
    refine uses_bind utcNow_mere fun now => ?_
    exact judgeAgents_mere _ _ _ _

end Reconciling

end FleetOrchestrator.Scheduler
