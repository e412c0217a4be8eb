import FleetOrchestrator.Api.Routes
import FleetOrchestrator.Core.Errors
import FleetOrchestrator.Interleaving.Discipline
import FleetOrchestrator.Store.State

/-! Issues, and the requests of both surfaces that create, edit and move them. -/

namespace FleetOrchestrator.Issues

open Api Core Dashboard Tables Store Interleaving

structure IssueId where
  uuid : ℕ
  deriving DecidableEq, Repr

instance : ToString IssueId := ⟨fun i => toString i.uuid⟩

inductive IssueStatus where
  | open
  | triaged
  | readyForAgent
  | resolved
  | closed
  deriving DecidableEq, Repr

namespace IssueStatus

def asStr : IssueStatus → String
  | .open => "open"
  | .triaged => "triaged"
  | .readyForAgent => "ready_for_agent"
  | .resolved => "resolved"
  | .closed => "closed"

def parseStr : String → Option IssueStatus
  | "open" => some .open
  | "triaged" => some .triaged
  | "ready_for_agent" => some .readyForAgent
  | "resolved" => some .resolved
  | "closed" => some .closed
  | _ => none

theorem parseStr_asStr (s : IssueStatus) : parseStr s.asStr = some s := by
  cases s <;> rfl

end IssueStatus

inductive CloseReason where
  | fixed
  | wontFix
  | duplicate
  | obsolete
  deriving DecidableEq, Repr

namespace CloseReason

def asStr : CloseReason → String
  | fixed => "fixed"
  | wontFix => "wont_fix"
  | duplicate => "duplicate"
  | obsolete => "obsolete"

def parseStr : String → Option CloseReason
  | "fixed" => some fixed
  | "wont_fix" => some wontFix
  | "duplicate" => some duplicate
  | "obsolete" => some obsolete
  | _ => none

theorem parseStr_asStr (r : CloseReason) : parseStr r.asStr = some r := by
  cases r <;> rfl

end CloseReason

inductive IssueSeverity where
  | critical
  | high
  | medium
  | low
  deriving DecidableEq, Repr

structure Issue where
  id : IssueId
  projectId : ProjectId
  title : String
  body : String := ""
  status : IssueStatus := .open
  closeReason : Option CloseReason := none
  severity : IssueSeverity := .medium
  labels : List String := []
  assignee : Option String := none
  createdBy : String
  createdAt : ℤ
  updatedAt : ℤ
  deriving DecidableEq

inductive TransitionError where
  | notAllowed (source target : IssueStatus)
  | closeReasonRequired
  | closeReasonNotApplicable
  deriving DecidableEq

def TransitionError.message : TransitionError → String
  | notAllowed source target =>
    "issue transition " ++ source.asStr ++ " -> " ++ target.asStr ++ " is not allowed"
  | closeReasonRequired => "closing an issue requires a close_reason"
  | closeReasonNotApplicable => "close_reason is only valid when closing an issue"

namespace Issue

def new (id : IssueId) (projectId : ProjectId) (title createdBy : String) (now : ℤ) : Issue :=
  { id, projectId, title, createdBy, createdAt := now, updatedAt := now }

def transitionAllowed : IssueStatus → IssueStatus → Bool
  | .open, .triaged | .triaged, .readyForAgent | .readyForAgent, .triaged => true
  | .open, .resolved | .triaged, .resolved | .readyForAgent, .resolved => true
  | .open, .closed | .triaged, .closed | .resolved, .closed => true
  | .resolved, .open | .closed, .open => true
  | _, _ => false

def transitionTo (issue : Issue) (target : IssueStatus) (closeReason : Option CloseReason)
    (now : ℤ) : Except TransitionError Issue :=
  if !transitionAllowed issue.status target then .error (.notAllowed issue.status target)
  else
    match target, closeReason with
    | .closed, none => .error .closeReasonRequired
    | status, some _ =>
      if status ≠ .closed then .error .closeReasonNotApplicable
      else .ok { issue with status := target, closeReason, updatedAt := now }
    | _, none => .ok { issue with status := target, closeReason, updatedAt := now }

/-- What a transition has checked of the status it starts from and of the pair it writes. -/
theorem transitionTo_ok {issue moved : Issue} {target : IssueStatus}
    {closeReason : Option CloseReason} {now : ℤ}
    (h : issue.transitionTo target closeReason now = .ok moved) :
    transitionAllowed issue.status target = true ∧
      (closeReason.isSome = true ↔ target = .closed) ∧
      moved = { issue with status := target, closeReason, updatedAt := now } := by
  unfold transitionTo at h
  cases ha : transitionAllowed issue.status target with
  | false =>
    rw [ha] at h
    cases h
  | true =>
    rw [ha] at h
    refine ⟨rfl, ?_⟩
    cases target <;> cases closeReason <;> cases h <;> simp

/-- The fields that an edit writes. -/
def withFieldsOf (stored issue : Issue) (now : ℤ) : Issue :=
  { stored with
    title := issue.title, body := issue.body, severity := issue.severity, labels := issue.labels,
    assignee := issue.assignee, updatedAt := now }

def moved (now : ℤ) (status : IssueStatus) (closeReason : Option CloseReason) (stored : Issue) :
    Issue :=
  { stored with status, closeReason, updatedAt := now }

@[simp] theorem withFieldsOf_id (issue : Issue) (now : ℤ) (stored : Issue) :
    (stored.withFieldsOf issue now).id = stored.id := rfl

@[simp] theorem moved_id (now : ℤ) (status : IssueStatus) (closeReason : Option CloseReason)
    (stored : Issue) : (moved now status closeReason stored).id = stored.id := rfl

end Issue

def requiredCapabilityForTransition : IssueStatus → PermissionKind
  | .readyForAgent => .issueApproveAgentWork
  | .resolved | .closed => .issueClose
  | .open => .issueReopen
  | .triaged => .issueUpdate

/-- The name of that capability. -/
def requiredCapabilityName : IssueStatus → String
  | .readyForAgent => "issue:approve_agent_work"
  | .resolved | .closed => "issue:close"
  | .open => "issue:reopen"
  | .triaged => "issue:update"

abbrev IssueTable := Keyed IssueId Issue Issue.id

structure World where
  issues : IssueTable := .empty
  now : ℤ := 0

inductive Op where
  | readClock
  | createIssue (issue : Issue)
  | getIssue (id : IssueId)
  | updateIssueFields (issue : Issue)
  | transitionIssue (id : IssueId) (status : IssueStatus) (closeReason : Option CloseReason)
  | issueHasActiveTasks (id : IssueId)

abbrev Op.Resp : Op → Type
  | .readClock => ℤ
  | .createIssue _ => Except StoreError Unit
  | .getIssue _ => Except StoreError (Option Issue)
  | .updateIssueFields _ | .transitionIssue _ _ _ | .issueHasActiveTasks _ => Except StoreError Bool

abbrev Call (α : Type) := Prog Op Op.Resp α

def execute (op : Op) : Call op.Resp := Prog.perform op

/-- The error of a call that fails, and whether tasks of the issue are under way. -/
structure Choice where
  fault : Option StoreError := none
  activeTasks : Bool := false

def attempt {α : Type} (ch : Choice) (s : World) (k : Except StoreError α × World) :
    Except StoreError α × World :=
  match ch.fault with
  | some e => (.error e, s)
  | none => k

/-- The constraint `issues_close_reason_matches_status`. -/
def reasonMatches (status : IssueStatus) (closeReason : Option CloseReason) : Bool :=
  closeReason.isSome = decide (status = .closed)

def reasonMismatch : StoreError :=
  .sqlx ("error returned from database: new row for relation \"issues\" violates check " ++
    "constraint \"issues_close_reason_matches_status\"")

namespace World

def setStatus (s : World) (id : IssueId) (status : IssueStatus)
    (closeReason : Option CloseReason) : World :=
  let issues := s.issues.modify id (Issue.moved s.now status closeReason)
    (Issue.moved_id s.now status closeReason)
  { s with issues }

def setFields (s : World) (issue : Issue) : World :=
  let issues := s.issues.modify issue.id (fun stored => stored.withFieldsOf issue s.now)
    (Issue.withFieldsOf_id issue s.now)
  { s with issues }

variable (s : World) (id other : IssueId)

theorem get_setStatus_self (status : IssueStatus) (closeReason : Option CloseReason) :
    (s.setStatus id status closeReason).issues.get id =
      (s.issues.get id).map (Issue.moved s.now status closeReason) :=
  @Keyed.get_modify_self _ _ _ _ s.issues _ (Issue.moved_id s.now status closeReason) id

theorem get_setStatus_ne (status : IssueStatus) (closeReason : Option CloseReason)
    (h : other ≠ id) : (s.setStatus id status closeReason).issues.get other = s.issues.get other :=
  @Keyed.get_modify_ne _ _ _ _ s.issues _ (Issue.moved_id s.now status closeReason) id other h

theorem get_setFields_self (issue : Issue) :
    (s.setFields issue).issues.get issue.id =
      (s.issues.get issue.id).map fun row => row.withFieldsOf issue s.now :=
  @Keyed.get_modify_self _ _ _ _ s.issues _ (Issue.withFieldsOf_id issue s.now) issue.id

theorem get_setFields_ne (issue : Issue) (h : other ≠ issue.id) :
    (s.setFields issue).issues.get other = s.issues.get other :=
  @Keyed.get_modify_ne _ _ _ _ s.issues _ (Issue.withFieldsOf_id issue s.now) issue.id other h

end World

/-- What a store call answers and leaves. The id of a new issue is drawn so that no other has it. -/
def exec (b : Backend) (ch : Choice) : (op : Op) → World → Option (op.Resp × World)
  | .readClock, s => some (s.now, s)
  | .createIssue issue, s =>
    if s.issues.contains issue.id then none
    else some (attempt ch s (.ok (), { s with issues := s.issues.put issue }))
  | .getIssue id, s => some (attempt ch s (.ok (s.issues.get id), s))
  | .updateIssueFields issue, s =>
    some (attempt ch s (.ok (s.issues.contains issue.id), s.setFields issue))
  | .transitionIssue id status closeReason, s =>
    some <| attempt ch s <|
      if b = .pg && s.issues.contains id && !reasonMatches status closeReason then
        (.error reasonMismatch, s)
      else (.ok (s.issues.contains id), s.setStatus id status closeReason)
  | .issueHasActiveTasks _, s => some (attempt ch s (.ok ch.activeTasks, s))

inductive JsonRpcError where
  | invalidParams (msg : String)
  | invalidRequest (msg : String)
  | internal (msg : String)
  deriving DecidableEq

/-- The answers of the two surfaces: the issue with whether tasks of it are under way, or why not.
A tool error is a result of the other surface. -/
inductive Reply where
  | issue (issue : Issue) (hasActiveTasks : Bool)
  | failed (e : Dashboard.ApiError)
  | toolError (msg : String)
  | rpcFailed (e : JsonRpcError)

/-- The issue id is what its text parses to. -/
structure TransitionRequest where
  id : Option IssueId
  status : Option String
  closeReason : Option String := none
  permissions : List PermissionKind
  csrfValid : Bool := true

def issueNotFound (id : IssueId) : Dashboard.ApiError := .notFound ("issue " ++ toString id)

def loadIssue (id : IssueId) : Call (Except Dashboard.ApiError Issue) := do
  match ← execute (.getIssue id) with
  | .error e => return .error (.ofStore e)
  | .ok none => return .error (issueNotFound id)
  | .ok (some issue) => return .ok issue

def issueSummary (issue : Issue) : Call Reply := do
  match ← execute (.issueHasActiveTasks issue.id) with
  | .error e => return .failed (.ofStore e)
  | .ok active => return .issue issue active

/-- The close reason that a form gives; an empty one is none. -/
def formReason (raw : Option String) : Except String (Option CloseReason) :=
  match raw.filter fun s => s ≠ "" with
  | none => .ok none
  | some raw => match CloseReason.parseStr raw with
    | none => .error ("unknown close_reason: " ++ raw)
    | some reason => .ok (some reason)

def argReason (raw : Option String) : Except String (Option CloseReason) :=
  match raw with
  | none => .ok none
  | some raw => match CloseReason.parseStr raw with
    | none => .error ("unknown close_reason: " ++ raw)
    | some reason => .ok (some reason)

/-- The issue as it is after the transition is read once more for the answer. -/
def reloaded (id : IssueId) : Call Reply := do
  match ← loadIssue id with
  | .error e => return .failed e
  | .ok issue => issueSummary issue

/-- The transition is checked on the copy that was read, and written to the row. -/
def transitionLoaded (issue : Issue) (target : IssueStatus) (closeReason : Option CloseReason) :
    Call Reply := do
  let now ← execute .readClock
  match issue.transitionTo target closeReason now with
  | .error e => return .failed (.conflict e.message)
  | .ok moved =>
    match ← execute (.transitionIssue moved.id moved.status moved.closeReason) with
    | .error e => return .failed (.ofStore e)
    | .ok _ => reloaded moved.id

def transitionIssueApi (req : TransitionRequest) : Call Reply :=
  if !req.csrfValid then return .failed (.forbidden "CSRF token invalid")
  else
    let raw := req.status.getD ""
    match IssueStatus.parseStr raw with
    | none => return .failed (.badRequest ("unknown issue status: " ++ raw))
    | some target =>
      if !req.permissions.contains (requiredCapabilityForTransition target) then
        return .failed permissionDenied
      else
        match formReason req.closeReason, req.id with
        | .error msg, _ => return .failed (.badRequest msg)
        | .ok _, none => return .failed (.badRequest "invalid issue id")
        | .ok closeReason, some id => do
          match ← loadIssue id with
          | .error e => return .failed e
          | .ok issue => transitionLoaded issue target closeReason

def storeFailed (e : StoreError) : JsonRpcError := .internal ("store error: " ++ e.message)

def capabilityMissing (target : IssueStatus) : JsonRpcError :=
  .invalidRequest ("transition to '" ++ target.asStr ++ "' requires the '" ++
    requiredCapabilityName target ++ "' capability")

def transitionRead (issue : Issue) (target : IssueStatus) (closeReason : Option CloseReason) :
    Call Reply := do
  let now ← execute .readClock
  match issue.transitionTo target closeReason now with
  | .error e => return .toolError e.message
  | .ok moved =>
    match ← execute (.transitionIssue moved.id moved.status moved.closeReason) with
    | .error e => return .rpcFailed (storeFailed e)
    | .ok _ =>
      match ← execute (.issueHasActiveTasks moved.id) with
      | .error e => return .rpcFailed (storeFailed e)
      | .ok active => return .issue moved active

def handleTransitionIssue (req : TransitionRequest) : Call Reply :=
  match req.status with
  | none => return .rpcFailed (.invalidParams "missing required field: status")
  | some raw =>
    match IssueStatus.parseStr raw with
    | none => return .rpcFailed (.invalidParams "unknown status")
    | some target =>
      if !req.permissions.contains (requiredCapabilityForTransition target) then
        return .rpcFailed (capabilityMissing target)
      else
        match argReason req.closeReason, req.id with
        | .error msg, _ => return .rpcFailed (.invalidParams msg)
        | .ok _, none => return .rpcFailed (.invalidParams "issue_id must be a UUID")
        | .ok closeReason, some id => do
          match ← execute (.getIssue id) with
          | .error e => return .rpcFailed (storeFailed e)
          | .ok none => return .toolError "issue not found"
          | .ok (some issue) => transitionRead issue target closeReason

structure IssuePatch where
  title : Option String := none
  body : Option String := none
  severity : Option IssueSeverity := none
  labels : Option (List String) := none
  assignee : Option (Option String) := none

def IssuePatch.apply (patch : IssuePatch) (issue : Issue) : Issue :=
  { issue with
    title := patch.title.getD issue.title, body := patch.body.getD issue.body,
    severity := patch.severity.getD issue.severity, labels := patch.labels.getD issue.labels,
    assignee := patch.assignee.getD issue.assignee }

/-- An edit that its surface has let through. -/
def updateIssueApi (id : IssueId) (patch : IssuePatch) : Call Reply := do
  match ← loadIssue id with
  | .error e => return .failed e
  | .ok issue =>
    match ← execute (.updateIssueFields (patch.apply issue)) with
    | .error e => return .failed (.ofStore e)
    | .ok _ => reloaded issue.id

def createIssueApi (id : IssueId) (projectId : ProjectId) (title createdBy : String) :
    Call Reply := do
  let now ← execute .readClock
  let issue := Issue.new id projectId title createdBy now
  match ← execute (.createIssue issue) with
  | .error e => return .failed (.ofStore e)
  | .ok () => issueSummary issue

inductive Activity where
  | create (id : IssueId) (projectId : ProjectId) (title createdBy : String)
  | update (id : IssueId) (patch : IssuePatch)
  | transitionApi (req : TransitionRequest)
  | transitionTool (req : TransitionRequest)

def program : Activity → Call Reply
  | .create id projectId title createdBy => createIssueApi id projectId title createdBy
  | .update id patch => updateIssueApi id patch
  | .transitionApi req => transitionIssueApi req
  | .transitionTool req => handleTransitionIssue req

/-- Any number of clients of one store, while time passes. -/
def clients (b : Backend) : Machine Op Op.Resp Unit Activity Reply World Choice ℕ where
  program _ a := program a
  exec ch _ op s := exec b ch op s
  spawned _ _ := []
  accept _ _ s := some s
  disturb n s := some { s with now := s.now + n }

abbrev IssueConfig := Config Op Op.Resp Unit Activity Reply World
abbrev IssueAction := Action Unit Activity Choice ℕ
abbrev History := List (Entry Op Op.Resp)

end FleetOrchestrator.Issues
