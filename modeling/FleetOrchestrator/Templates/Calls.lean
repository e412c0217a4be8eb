import FleetOrchestrator.Core.Errors
import FleetOrchestrator.Interleaving.Program
import FleetOrchestrator.Templates.Templates

/-! The store calls on templates and revisions in both backends, the request that changes a
template's status, and any number of callers at once. -/

namespace FleetOrchestrator.Templates

open Api Core Tables Store Interleaving

section Calls

variable (sha256 : List UInt8 → String)

namespace PgStore

def retireAgentTemplate (id : ℕ) (expected : String) : Call (Except StoreError Bool) := do
  match ← execute (.lockTemplate id) with
  | none => return .ok false
  | some _ =>
    let dependents ← execute (.selectDependents id)
    if dependentSetHash sha256 dependents ≠ expected then
      execute .rollback
      return .error (dependentsChanged dependents.length id)
    execute (.retireRow id)
    return .ok true

def createAgentTemplateRevision (id : ℕ) (body : AgentTemplateBody) (createdBy : Option String) :
    Call (Except StoreError AgentTemplateRevision) := do
  match ← execute (.lockTemplate id) with
  | none => return .error (noSuchTemplate id)
  | some status =>
    if !status.acceptsNewRevisions then
      execute .rollback
      return .error (refusesRevisions id status)
    let next ← execute (.selectNext id)
    execute (.insertRevision id next body createdBy)

end PgStore

namespace MemStore

/-- The lock on the templates is dropped before the one on the revisions is taken. -/
def createAgentTemplateRevision (id : ℕ) (body : AgentTemplateBody) (createdBy : Option String) :
    Call (Except StoreError AgentTemplateRevision) := do
  match ← execute (.statusLocked id) with
  | none => return .error (noSuchTemplate id)
  | some status =>
    if !status.acceptsNewRevisions then
      return .error (refusesRevisions id status)
    let revision ← execute (.reviseLocked id body createdBy)
    return .ok revision

end MemStore

def retireAgentTemplate (b : Backend) (id : ℕ) (expected : String) :
    Call (Except StoreError Bool) :=
  match b with
  | .mem => execute (.retireLocked id expected)
  | .pg => PgStore.retireAgentTemplate sha256 id expected

def createAgentTemplateRevision (b : Backend) (id : ℕ) (body : AgentTemplateBody)
    (createdBy : Option String) : Call (Except StoreError AgentTemplateRevision) :=
  match b with
  | .mem => MemStore.createAgentTemplateRevision id body createdBy
  | .pg => PgStore.createAgentTemplateRevision id body createdBy

def createAgent (b : Backend) (agent : Agent) : Call (Except StoreError (Option WorkerId)) :=
  (match b with
    | .mem => Agents.MemStore.createAgent agent
    | .pg => Agents.PgStore.createAgent agent).embed .agent fun _ r => r

def templateNotFound : ApiError := .notFound "agent template not found"

def cannotTransition (status next : AgentTemplateStatus) : ApiError :=
  .conflict ("cannot transition from " ++ status.asStr ++ " to " ++ next.asStr)

def hashRequired : ApiError :=
  .badRequest "dependent_set_hash is required to retire a template"

def loadAgentTemplate (id : ℕ) : Call (Except ApiError AgentTemplate) := do
  match ← execute (.getTemplate id) with
  | none => return .error templateNotFound
  | some template => return .ok template

/-- The write of the new status. A retirement has a call of its own. -/
def writeStatus (b : Backend) (id : ℕ) (next : AgentTemplateStatus)
    (confirmed : Option String) : Call (Except ApiError Bool) :=
  if next = .retired then
    match confirmed with
    | none => return .error hashRequired
    | some expected => do
      match ← retireAgentTemplate sha256 b id expected with
      | .error e => return .error (.ofStore e)
      | .ok changed => return .ok changed
  else do
    let changed ← execute (.updateStatus id next)
    return .ok changed

/-- Whether the status may change is decided on the template as it was read. -/
def changeAgentTemplateStatus (b : Backend) (id : ℕ) (status : String)
    (confirmed : Option String) : Call (Except ApiError AgentTemplate) := do
  match ← loadAgentTemplate id with
  | .error e => return .error e
  | .ok template =>
    match AgentTemplateStatus.parseStr status with
    | none => return .error (.badRequest ("unknown status: " ++ status))
    | some next =>
      if next = template.status then
        return .ok template
      else if !template.status.canTransitionTo next then
        return .error (cannotTransition template.status next)
      else
        match ← writeStatus sha256 b id next confirmed with
        | .error e => return .error e
        | .ok changed =>
          if !changed then
            return .error templateNotFound
          else
            loadAgentTemplate id

inductive Activity where
  | changeStatus (id : ℕ) (status : String) (confirmed : Option String)
  | retire (id : ℕ) (expected : String)
  | createRevision (id : ℕ) (body : AgentTemplateBody) (createdBy : Option String)
  | revoke (id : ℕ)
  | createAgent (agent : Agent)

inductive Outcome where
  | changed (r : Except ApiError AgentTemplate)
  | retired (r : Except StoreError Bool)
  | revised (r : Except StoreError AgentTemplateRevision)
  | revoked (found : Bool)
  | created (r : Except StoreError (Option WorkerId))

def program (b : Backend) : Activity → Call Outcome
  | .changeStatus id status confirmed =>
    Outcome.changed <$> changeAgentTemplateStatus sha256 b id status confirmed
  | .retire id expected => Outcome.retired <$> retireAgentTemplate sha256 b id expected
  | .createRevision id body createdBy =>
    Outcome.revised <$> createAgentTemplateRevision b id body createdBy
  | .revoke id => Outcome.revoked <$> execute (.revoke id)
  | .createAgent agent => Outcome.created <$> createAgent b agent

end Calls

inductive Disturbance where
  | others (s : StoreState)
  | createTemplate (t : AgentTemplate)
  /-- A connection is lost: its transaction is rolled back. -/
  | disconnect (p : ℕ)

/-- Nobody else creates or removes an agent, or changes what it is pinned to. -/
def keepsPins (s s' : StoreState) : Bool :=
  s'.agents.rows.map (fun a => (a.id, a.templatePin)) =
    s.agents.rows.map fun a => (a.id, a.templatePin)

def disturb : Disturbance → World → Option World
  | .others s, w => if keepsPins w.store s then some { w with store := s } else none
  | .createTemplate t, w =>
    if t.status = .draft && !w.templates.contains t.id &&
        !w.templates.rows.any fun u => u.projectId = t.projectId && u.name = t.name then
      some { w with templates := w.templates.put t }
    else none
  | .disconnect p, w => some { w with locks := w.locks.release p, lost := p :: w.lost }

/-- Every call has a connection of its own. -/
def callers (sha256 : List UInt8 → String) (b : Backend) :
    Machine Op Op.Resp ℕ Activity Outcome World Choice Disturbance where
  program _ a := program sha256 b a
  exec ch p op w := op.exec sha256 ch p w
  spawned _ _ := []
  accept p _ w :=
    if w.connections.contains p then none
    else some { w with connections := p :: w.connections }
  disturb := disturb

abbrev TemplateConfig := Config Op Op.Resp ℕ Activity Outcome World
abbrev TemplateAction := Action ℕ Activity Choice Disturbance
abbrev TemplateThread := Thread Op Op.Resp ℕ Activity Outcome
abbrev Past := List (Entry Op Op.Resp)

end FleetOrchestrator.Templates
