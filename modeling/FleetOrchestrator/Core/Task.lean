import Mathlib.Data.Int.Notation
import Mathlib.Data.Nat.Notation

namespace FleetOrchestrator.Core

structure TaskId where
  uuid : ℕ
  deriving DecidableEq, Repr

structure WorkerId where
  uuid : ℕ
  deriving DecidableEq, Repr

structure AgentId where
  uuid : ℕ
  deriving DecidableEq, Repr

structure ProjectId where
  uuid : ℕ
  deriving DecidableEq, Repr

instance : ToString TaskId := ⟨fun i => toString i.uuid⟩
instance : ToString WorkerId := ⟨fun i => toString i.uuid⟩
instance : ToString AgentId := ⟨fun i => toString i.uuid⟩

abbrev SessionId := String

inductive TaskPriority where
  | low
  | normal
  | high
  deriving DecidableEq, Repr

structure TokenUsage where
  inputTokens : ℕ
  outputTokens : ℕ
  cacheReadTokens : ℕ
  deriving DecidableEq, Repr

structure TaskResult where
  output : String
  exitCode : ℤ
  durationSecs : ℕ
  tokenUsage : Option TokenUsage
  workerId : WorkerId
  finishedAt : ℤ
  deriving DecidableEq, Repr

inductive FailureKind where
  | workerUnavailable
  | workerError
  | circuitOpen
  | credentialMissing
  | invalidRequest
  | resultLost
  | executionVanished
  | skillMissing
  deriving DecidableEq, Repr

structure TaskFailure where
  error : String
  kind : FailureKind
  workerId : Option WorkerId
  attempts : ℕ
  deriving DecidableEq, Repr

inductive TaskPhase where
  | pending
  | dispatched
  | completed
  | failed
  | cancelled
  deriving DecidableEq, Repr

inductive TaskStatus where
  | pending
  | dispatched (workerId : WorkerId) (startedAt : ℤ)
  | completed (result : TaskResult)
  | failed (failure : TaskFailure)
  | cancelled (reason : String) (cancelledAt : ℤ)
  deriving DecidableEq, Repr

namespace TaskPhase

def asStr : TaskPhase → String
  | pending => "pending"
  | dispatched => "dispatched"
  | completed => "completed"
  | failed => "failed"
  | cancelled => "cancelled"

def isTerminal : TaskPhase → Bool
  | completed | failed | cancelled => true
  | pending | dispatched => false

def transitionAllowed : TaskPhase → TaskPhase → Bool
  | pending, dispatched | pending, failed | pending, cancelled => true
  | dispatched, completed | dispatched, failed | dispatched, cancelled => true
  | _, _ => false

def allowedPredecessors : TaskPhase → List TaskPhase
  | pending => []
  | dispatched => [pending]
  | completed => [dispatched]
  | failed => [pending, dispatched]
  | cancelled => [pending, dispatched]

/-- The two transition tables of the source are one relation. -/
theorem mem_allowedPredecessors {f t : TaskPhase} :
    f ∈ allowedPredecessors t ↔ transitionAllowed f t = true := by
  cases f <;> cases t <;> decide

theorem terminal_iff_no_successor {f : TaskPhase} :
    f.isTerminal = true ↔ ∀ t, transitionAllowed f t = false := by
  constructor
  · intro h t
    cases f <;> cases t <;> first | rfl | cases h
  · intro h
    cases f with
    | pending => cases h .failed
    | dispatched => cases h .failed
    | completed => rfl
    | failed => rfl
    | cancelled => rfl

end TaskPhase

namespace TaskStatus

def phase : TaskStatus → TaskPhase
  | pending => .pending
  | dispatched .. => .dispatched
  | completed _ => .completed
  | failed _ => .failed
  | cancelled .. => .cancelled

def isDispatched : TaskStatus → Bool
  | dispatched .. => true
  | _ => false

/-- The worker a status names. -/
def workerId? : TaskStatus → Option WorkerId
  | dispatched w _ => some w
  | completed r => some r.workerId
  | failed f => f.workerId
  | pending | cancelled .. => none

theorem isDispatched_iff {s : TaskStatus} : s.isDispatched = true ↔ s.phase = .dispatched := by
  cases s <;> simp [isDispatched, phase]

theorem phase_pending {s : TaskStatus} : s.phase = .pending ↔ s = .pending := by
  cases s <;> simp [phase]

end TaskStatus

structure SkillSnapshotEntry where
  name : String
  sha256 : String
  bytes : ℕ
  deriving DecidableEq, Repr

structure Task where
  id : TaskId
  prompt : String
  cwd : Option String := none
  model : Option String := none
  serverHint : Option String := none
  agentId : Option AgentId := none
  requiredLabels : List String := []
  maxTurns : Option ℕ := none
  timeoutSecs : Option ℕ := none
  createdAt : ℤ
  createdBy : String
  priority : TaskPriority := .normal
  status : TaskStatus := .pending
  dispatchedAt : Option ℤ := none
  acpSessionId : Option SessionId := none
  skillSnapshot : Option (List SkillSnapshotEntry) := none
  threadId : TaskId
  parentTaskId : Option TaskId := none
  projectId : Option ProjectId := none
  retryCount : ℕ := 0
  dependencyIds : List TaskId := []
  checkpointBranch : Option String := none
  skillsRequired : List String := []
  routingProfile : Option String := none
  resolvedModel : Option String := none
  tokenBudget : Option ℕ := none
  partialOutput : Option String := none
  idempotencyKey : Option String := none
  idempotencyPayloadHash : Option String := none
  dispatchControlEpoch : Option ℤ := none
  deriving DecidableEq, Repr

namespace Task

def phase (t : Task) : TaskPhase := t.status.phase

def isTerminal (t : Task) : Bool := t.phase.isTerminal

end Task

inductive TransitionOutcome where
  | applied
  | rejected (current : TaskPhase)
  | fenced
  | staleDispatchEpoch (dispatchedUnder : ℤ)
  deriving DecidableEq, Repr

inductive TransitionOrigin where
  | controlDecision
  | workerOutcome
  deriving DecidableEq, Repr

inductive IdempotentInsert where
  | inserted
  | duplicate (existing : Task)
  | conflict (existingTaskId : TaskId)
  deriving DecidableEq, Repr

inductive TaskDeleteOutcome where
  | deleted
  | notTerminal (current : TaskPhase)
  | blockedByDependents (dependentIds : List TaskId)
  deriving DecidableEq, Repr

inductive TaskStatusFilter where
  | pending
  | dispatched
  | completed
  | failed
  | cancelled
  | terminal
  | active
  deriving DecidableEq, Repr

structure TaskFilter where
  status : Option TaskStatusFilter := none
  workerId : Option WorkerId := none
  createdBy : Option String := none
  limit : ℕ := 100
  offset : ℕ := 0
  deriving DecidableEq, Repr

def TaskStatusFilter.admits : TaskStatusFilter → Task → Bool
  | .pending, t => t.phase = .pending
  | .dispatched, t => t.phase = .dispatched
  | .completed, t => t.phase = .completed
  | .failed, t => t.phase = .failed
  | .cancelled, t => t.phase = .cancelled
  | .terminal, t => t.isTerminal
  | .active, t => !t.isTerminal

inductive WorkspacePathError where
  | missing
  | notAbsolute (raw : String)
  | parentTraversal (raw : String)
  | interiorNul
  | filesystemRoot
  deriving DecidableEq, Repr

def WorkspacePathError.message : WorkspacePathError → String
  | .missing => "cwd is required: the orchestrator cannot invent a working directory for " ++
      "the worker (ACP session/new requires an absolute cwd)"
  | .notAbsolute raw => "cwd must be an absolute path starting with '/', got " ++ raw.quote
  | .parentTraversal raw => "cwd must not contain '..' path segments, got " ++ raw.quote
  | .interiorNul => "cwd must not contain NUL bytes"
  | .filesystemRoot => "cwd must not be the filesystem root '/': opening an agent session at " ++
      "the root exposes the entire worker filesystem"

def validateWorkspaceCwd (cwd : Option String) : Except WorkspacePathError String :=
  match cwd with
  | none => .error .missing
  | some raw =>
    let chars := raw.toList
    if chars.isEmpty then .error .missing
    else if chars.contains (Char.ofNat 0) then .error .interiorNul
    else if chars.head? ≠ some '/' then .error (.notAbsolute raw)
    else if (chars.splitOn '/').any (· = ['.', '.']) then .error (.parentTraversal raw)
    else if (chars.splitOn '/').all (fun seg => seg.isEmpty || seg = ['.']) then
      .error .filesystemRoot
    else .ok raw

end FleetOrchestrator.Core
