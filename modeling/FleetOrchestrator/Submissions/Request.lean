import FleetOrchestrator.Templates.Template

/-! What a client asks for when it submits a task, and the hash that its key stands for. -/

namespace FleetOrchestrator.Submissions

open Core Encoding Templates

instance : ToString ProjectId := ⟨fun i => toString i.uuid⟩

structure TaskRequest where
  projectId : Option ProjectId := none
  prompt : String
  cwd : Option String := none
  model : Option String := none
  serverHint : Option String := none
  agentId : Option AgentId := none
  requiredLabels : List String := []
  maxTurns : Option ℕ := none
  timeoutSecs : Option ℕ := none
  priority : TaskPriority := .normal
  createdBy : String := ""
  parentTaskId : Option TaskId := none
  dependencyIds : List TaskId := []
  skillsRequired : List String := []
  routingProfile : Option String := none
  resolvedModel : Option String := none
  tokenBudget : Option ℕ := none
  idempotencyKey : Option String := none
  deriving DecidableEq

def payloadHashVersion : String := "fleet.task.payload.v2"

def priorityText : TaskPriority → String
  | .low => "low"
  | .normal => "normal"
  | .high => "high"

def optionText {α : Type} [ToString α] (x : Option α) : String := (x.map toString).getD ""

/-- A list stands for the set of its members. -/
def distinct (items : List String) : List String := (sorted items).destutter (· ≠ ·)

def listParts (items : List String) : List (List UInt8) :=
  littleEndian 8 items.length :: items.map bytes

namespace TaskRequest

/-- The fields with one value, in the order in which they are hashed. -/
def scalars (req : TaskRequest) : List String :=
  [payloadHashVersion, optionText req.projectId, req.prompt, req.cwd.getD "", req.model.getD "",
    req.serverHint.getD "", optionText req.agentId, optionText req.maxTurns,
    optionText req.timeoutSecs, priorityText req.priority, optionText req.parentTaskId,
    req.routingProfile.getD ""]

def parts (req : TaskRequest) : List (List UInt8) :=
  req.scalars.map bytes ++ (listParts (distinct req.requiredLabels) ++
    (listParts (distinct (req.dependencyIds.map toString)) ++
      listParts (distinct req.skillsRequired)))

def payload (req : TaskRequest) : List UInt8 := req.parts.flatMap (framed 8)

def payloadHash (sha256 : List UInt8 → String) (req : TaskRequest) : String := sha256 req.payload

end TaskRequest

/-- The task starts a thread of its own. -/
def fromRequest (sha256 : List UInt8 → String) (id : TaskId) (now : ℤ) (req : TaskRequest) : Task :=
  { id
    prompt := req.prompt
    cwd := req.cwd
    model := req.model
    serverHint := req.serverHint
    agentId := req.agentId
    requiredLabels := req.requiredLabels
    maxTurns := req.maxTurns
    timeoutSecs := req.timeoutSecs
    createdAt := now
    createdBy := req.createdBy
    priority := req.priority
    threadId := id
    parentTaskId := req.parentTaskId
    projectId := req.projectId
    dependencyIds := req.dependencyIds
    skillsRequired := req.skillsRequired
    routingProfile := req.routingProfile
    resolvedModel := req.resolvedModel
    tokenBudget := req.tokenBudget
    idempotencyKey := req.idempotencyKey
    idempotencyPayloadHash := req.idempotencyKey.map fun _ => req.payloadHash sha256 }

/-- A length is a machine number. -/
def TaskRequest.Fits (req : TaskRequest) : Prop :=
  ∀ s ∈ req.scalars, (bytes s).length < 2 ^ 64

instance (req : TaskRequest) : Decidable req.Fits :=
  inferInstanceAs (Decidable (∀ s ∈ req.scalars, (bytes s).length < 2 ^ 64))

section Payloads

variable {req other : TaskRequest}

theorem scalars_of_payload (hr : req.Fits) (ho : other.Fits) (h : req.payload = other.payload) :
    req.scalars = other.scalars := by
  have short {r : TaskRequest} (hr : r.Fits) : ∀ x ∈ r.scalars.map bytes, x.length < 256 ^ 8 := by
    intro x hx
    obtain ⟨s, hs, rfl⟩ := List.mem_map.mp hx
    have hlength := hr s hs
    omega
  have hparts : ∀ r : TaskRequest, r.payload = (r.scalars.map bytes).flatMap (framed 8) ++
      (listParts (distinct r.requiredLabels) ++
        (listParts (distinct (r.dependencyIds.map toString)) ++
          listParts (distinct r.skillsRequired))).flatMap (framed 8) := by
    intro r
    rw [TaskRequest.payload, TaskRequest.parts, List.flatMap_append]
  rw [hparts req, hparts other] at h
  obtain ⟨hscalars, -⟩ := framed_flatMap (short hr) (short ho) rfl h
  exact List.map_injective_iff.mpr bytes_injective hscalars

theorem toString_injective : Function.Injective (toString : ℕ → String) := by
  intro m n h
  exact toDigits_injective (String.ofList_injective h)

theorem toString_ne_empty (n : ℕ) : toString n ≠ "" := by
  intro h
  exact Nat.toDigits_ne_nil (String.ofList_injective (h : String.ofList _ = String.ofList []))

theorem optionText_injective {α : Type} [ToString α] (hi : Function.Injective (toString : α → String))
    (hn : ∀ a : α, toString a ≠ "") : Function.Injective (optionText : Option α → String) := by
  intro x y h
  cases x with
  | none =>
    cases y with
    | none => rfl
    | some b => exact absurd h.symm (hn b)
  | some a =>
    cases y with
    | none => exact absurd h (hn a)
    | some b => exact congrArg some (hi h)

theorem priorityText_injective : Function.Injective priorityText := by
  intro p q h
  cases p <;> cases q <;> first | rfl | exact absurd h (by decide)

/-- A text that is there is not empty. -/
theorem text_of_getD {x y : Option String} (hx : x ≠ some "") (hy : y ≠ some "")
    (h : x.getD "" = y.getD "") : x = y := by
  cases x with
  | none =>
    cases y with
    | none => rfl
    | some b => exact absurd (congrArg some h.symm) hy
  | some a =>
    cases y with
    | none => exact absurd (congrArg some h) hx
    | some b => exact congrArg some h

/-- No text of the request is given and empty, as it is in a form. -/
structure TaskRequest.Filled (req : TaskRequest) : Prop where
  cwd : req.cwd ≠ some ""
  model : req.model ≠ some ""
  serverHint : req.serverHint ≠ some ""

/-- What a client asked for, without whose it is and under which key. -/
structure SameRequest (req other : TaskRequest) : Prop where
  projectId : req.projectId = other.projectId
  prompt : req.prompt = other.prompt
  cwd : req.cwd = other.cwd
  model : req.model = other.model
  serverHint : req.serverHint = other.serverHint
  agentId : req.agentId = other.agentId
  maxTurns : req.maxTurns = other.maxTurns
  timeoutSecs : req.timeoutSecs = other.timeoutSecs
  priority : req.priority = other.priority

theorem same_of_payload (hr : req.Fits) (ho : other.Fits) (fr : req.Filled) (fo : other.Filled)
    (h : req.payload = other.payload) : SameRequest req other := by
  have hs := scalars_of_payload hr ho h
  simp only [TaskRequest.scalars, List.cons.injEq, and_true, true_and] at hs
  obtain ⟨hproject, hprompt, hcwd, hmodel, hhint, hagent, hturns, htimeout, hpriority, -⟩ := hs
  have project_injective : Function.Injective (toString : ProjectId → String) := by
    rintro ⟨m⟩ ⟨n⟩ h
    exact congrArg ProjectId.mk (toString_injective h)
  have agent_injective : Function.Injective (toString : AgentId → String) := by
    rintro ⟨m⟩ ⟨n⟩ h
    exact congrArg AgentId.mk (toString_injective h)
  exact {
    projectId := optionText_injective project_injective (fun p => toString_ne_empty p.uuid) hproject
    prompt := hprompt
    cwd := text_of_getD fr.cwd fo.cwd hcwd
    model := text_of_getD fr.model fo.model hmodel
    serverHint := text_of_getD fr.serverHint fo.serverHint hhint
    agentId := optionText_injective agent_injective (fun a => toString_ne_empty a.uuid) hagent
    maxTurns := optionText_injective toString_injective toString_ne_empty hturns
    timeoutSecs := optionText_injective toString_injective toString_ne_empty htimeout
    priority := priorityText_injective hpriority }

end Payloads

end FleetOrchestrator.Submissions
