import FleetOrchestrator.Agents.Calls
import FleetOrchestrator.Interleaving.Connections
import FleetOrchestrator.Templates.Template

/-! The tables of templates and revisions, and what one step of a store call does to them. -/

namespace FleetOrchestrator.Templates

open Core Tables Store Interleaving

structure AgentTemplate where
  id : ℕ
  projectId : Option ProjectId := none
  name : String
  description : Option String := none
  createdBy : Option String := none
  status : AgentTemplateStatus := .draft
  createdAt : ℤ
  updatedAt : ℤ
  deriving DecidableEq

structure AgentTemplateRevision where
  id : ℕ
  templateId : ℕ
  contentRevision : ℕ
  contentHash : String
  body : AgentTemplateBody
  revokedAt : Option ℤ := none
  createdBy : Option String := none
  createdAt : ℤ
  deriving DecidableEq

def AgentTemplate.withStatus (now : ℤ) (status : AgentTemplateStatus) (t : AgentTemplate) :
    AgentTemplate :=
  { t with status, updatedAt := now }

@[simp] theorem AgentTemplate.withStatus_id (now : ℤ) (status : AgentTemplateStatus)
    (t : AgentTemplate) : (t.withStatus now status).id = t.id := rfl

def AgentTemplateRevision.revoked (now : ℤ) (r : AgentTemplateRevision) : AgentTemplateRevision :=
  { r with revokedAt := some now }

@[simp] theorem AgentTemplateRevision.revoked_id (now : ℤ) (r : AgentTemplateRevision) :
    (r.revoked now).id = r.id := rfl

/-- What the check of a pin reads. -/
def AgentTemplateRevision.referenced (r : AgentTemplateRevision) : Core.AgentTemplateRevision :=
  { id := r.id, templateId := r.templateId, isRevoked := r.revokedAt.isSome }

abbrev TemplateTable := Keyed ℕ AgentTemplate AgentTemplate.id
abbrev RevisionTable := Keyed ℕ AgentTemplateRevision AgentTemplateRevision.id

inductive RowLock where
  /-- The template's row, for update. -/
  | template (id : ℕ)
  | revision (id : ℕ)
  /-- The rows of the pinned revision and of its template, for share. -/
  | pin (pin : AgentTemplatePin)
  deriving DecidableEq

namespace RowLock

def conflicts : RowLock → RowLock → Bool
  | template i, template j => i = j
  | template i, pin p => p.templateId = i
  | pin p, template i => p.templateId = i
  | revision i, revision j => i = j
  | revision i, pin p => p.revisionId = i
  | pin p, revision i => p.revisionId = i
  | _, _ => false

end RowLock

structure World where
  store : StoreState
  templates : TemplateTable
  revisions : RevisionTable
  locks : LockTable RowLock RowLock.conflicts := .empty
  /-- The connections used so far, and the lost ones among them. -/
  connections : List ℕ := []
  lost : List ℕ := []

/-- The agent depends on the template. -/
def dependsOn (id : ℕ) (a : Agent) : Bool := a.templatePin.map AgentTemplatePin.templateId = some id

namespace World

def status (w : World) (id : ℕ) : Option AgentTemplateStatus :=
  (w.templates.get id).map AgentTemplate.status

def dependents (w : World) (id : ℕ) : List AgentId :=
  ((w.store.agents.rows.filter (dependsOn id)).map Agent.id).insertionSort fun a b =>
    a.uuid ≤ b.uuid

def numbers (w : World) (id : ℕ) : List ℕ :=
  (w.revisions.rows.filter fun r => r.templateId = id).map AgentTemplateRevision.contentRevision

def nextRevision (w : World) (id : ℕ) : ℕ := (w.numbers id).max?.getD 0 + 1

def setStatus (w : World) (id : ℕ) (status : AgentTemplateStatus) : Bool × World :=
  let templates := w.templates.modify id (fun t => t.withStatus w.store.now status) fun t =>
    t.withStatus_id w.store.now status
  (w.templates.contains id, { w with templates })

def isOpen (r : AgentTemplateRevision) : Bool := r.revokedAt.isNone

def revoke (w : World) (id : ℕ) : Bool × World :=
  let p (r : AgentTemplateRevision) : Bool := r.id = id && isOpen r
  let revisions := w.revisions.updateWhere p (fun r => r.revoked w.store.now) fun r =>
    r.revoked_id w.store.now
  (decide (0 < w.revisions.rowsAffected p), { w with revisions })

/-- The tables as the check of a pin sees them. -/
def referenced (w : World) : StoreState :=
  { w.store with
    agentTemplates := w.templates.rows.map fun t => (t.id, t.status)
    templateRevisions := w.revisions.rows.map AgentTemplateRevision.referenced }

end World

def dependentsChanged (n id : ℕ) : StoreError :=
  .conflict ("agent template dependents changed since it was shown: " ++ toString n ++
    " agent(s) now depend on " ++ toString id)

def noSuchTemplate (id : ℕ) : StoreError := .conflict ("no such agent template: " ++ toString id)

def refusesRevisions (id : ℕ) (status : AgentTemplateStatus) : StoreError :=
  .conflict ("agent template " ++ toString id ++ " is " ++ status.asStr ++
    " and accepts no new revisions")

def numberTaken : StoreError :=
  Agents.PgStore.refused (Agents.PgStore.duplicateKey
    "agent_template_revisions_template_id_content_revision_key")

/-- The steps of the store calls; the ones that end in `Locked` are the in-memory store's. -/
inductive Op where
  | getTemplate (id : ℕ)
  | updateStatus (id : ℕ) (status : AgentTemplateStatus)
  | retireLocked (id : ℕ) (expected : String)
  | statusLocked (id : ℕ)
  | reviseLocked (id : ℕ) (body : AgentTemplateBody) (createdBy : Option String)
  | lockTemplate (id : ℕ)
  | selectDependents (id : ℕ)
  | retireRow (id : ℕ)
  | selectNext (id : ℕ)
  | insertRevision (id next : ℕ) (body : AgentTemplateBody) (createdBy : Option String)
  | rollback
  | revoke (id : ℕ)
  | agent (op : Agents.Statement)

abbrev Op.Resp : Op → Type
  | .getTemplate _ => Option AgentTemplate
  | .updateStatus _ _ => Bool
  | .retireLocked _ _ => Except StoreError Bool
  | .statusLocked _ => Option AgentTemplateStatus
  | .reviseLocked _ _ _ => AgentTemplateRevision
  | .lockTemplate _ => Option AgentTemplateStatus
  | .selectDependents _ => List AgentId
  | .retireRow _ => Unit
  | .selectNext _ => ℕ
  | .insertRevision _ _ _ _ => Except StoreError AgentTemplateRevision
  | .rollback => Unit
  | .revoke _ => Bool
  | .agent op => op.Resp

abbrev Call (α : Type) := Prog Op Op.Resp α

def execute (op : Op) : Call op.Resp := Prog.perform op

/-- The order in which the map lists the agents, and the id that a new revision gets. -/
structure Choice where
  agentRank : AgentId → ℕ := AgentId.uuid
  revisionId : ℕ := 0

namespace Op

/-- The lock that the step needs. -/
def wants : Op → Option RowLock
  | updateStatus id _ | retireLocked id _ | reviseLocked id _ _ | lockTemplate id =>
    some (.template id)
  | revoke id => some (.revision id)
  | agent (.selectPin pin) => some (.pin pin)
  | agent (.createLocked row _) => row.templatePin.map .pin
  | _ => none

/-- The lock that the step leaves to its transaction, which a refusal ends. -/
def leaves : (op : Op) → op.Resp → Option RowLock
  | lockTemplate id, some _ => some (.template id)
  | agent (.selectPin pin), some (false, status) =>
    if status.acceptsNewPins then some (.pin pin) else none
  | _, _ => none

def ends : Op → Bool
  | retireRow _ | insertRevision _ _ _ _ | rollback | agent (.insertAgent _ _) => true
  | _ => false

def addsRevision : Op → Bool
  | reviseLocked _ _ _ | insertRevision _ _ _ _ => true
  | _ => false

end Op

variable (sha256 : List UInt8 → String)

def newRevision (w : World) (id number : ℕ) (templateId : ℕ) (body : AgentTemplateBody)
    (createdBy : Option String) : AgentTemplateRevision :=
  { id, templateId, contentRevision := number,
    contentHash := body.normalized.contentHash sha256, body := body.normalized, createdBy,
    createdAt := w.store.now }

def Op.effect (ch : Choice) : (op : Op) → World → op.Resp × World
  | .getTemplate id, w => (w.templates.get id, w)
  | .updateStatus id status, w => w.setStatus id status
  | .retireLocked id expected, w =>
    if !w.templates.contains id then (.ok false, w)
    else if dependentSetHash sha256 (w.dependents id) ≠ expected then
      (.error (dependentsChanged (w.dependents id).length id), w)
    else (.ok true, (w.setStatus id .retired).2)
  | .statusLocked id, w => (w.status id, w)
  | .reviseLocked id body createdBy, w =>
    let revision := newRevision sha256 w ch.revisionId (w.nextRevision id) id body createdBy
    (revision, { w with revisions := w.revisions.put revision })
  | .lockTemplate id, w => (w.status id, w)
  | .selectDependents id, w => (w.dependents id, w)
  | .retireRow id, w => ((), (w.setStatus id .retired).2)
  | .selectNext id, w => (w.nextRevision id, w)
  | .insertRevision id next body createdBy, w =>
    if (w.numbers id).contains next then (.error numberTaken, w)
    else
      let revision := newRevision sha256 w ch.revisionId next id body createdBy
      (.ok revision, { w with revisions := w.revisions.put revision })
  | .rollback, w => ((), w)
  | .revoke id, w => w.revoke id
  | .agent op, w =>
    let r := op.effect ch.agentRank w.referenced
    (r.1, { w with store := r.2 })

/-- The step waits for a lock. No two revisions get the same id. -/
def Op.waits (ch : Choice) (p : ℕ) (op : Op) (w : World) : Bool :=
  w.lost.contains p || op.wants.any (fun l => w.locks.blocked l p) ||
    (op.addsRevision && w.revisions.contains ch.revisionId)

def Op.settle (p : ℕ) (op : Op) (r : op.Resp) (w : World) : World :=
  if op.ends then { w with locks := w.locks.release p }
  else
    match op.leaves r with
    | some l => { w with locks := w.locks.grant l p }
    | none => w

def Op.exec (ch : Choice) (p : ℕ) (op : Op) (w : World) : Option (op.Resp × World) :=
  if op.waits ch p w then none
  else
    let r := op.effect sha256 ch w
    some (r.1, op.settle p r.1 r.2)

end FleetOrchestrator.Templates
