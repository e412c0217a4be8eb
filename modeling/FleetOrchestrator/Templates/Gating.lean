import FleetOrchestrator.Api.Routes
import FleetOrchestrator.Core.Errors
import FleetOrchestrator.Store.Tasks
import FleetOrchestrator.Templates.Hashes
import FleetOrchestrator.Templates.Revisions

/-! Requests that store the next revision of a template, by principals with any permissions. -/

namespace FleetOrchestrator.Templates

open Core Tables Store Interleaving

def AgentTemplateBody.new (rolePrompt : String) : AgentTemplateBody :=
  { rolePrompt, tools := [], skills := [] }

/-- What an edit needs: tools and skills say what an agent can do, the prompt does not. -/
def AgentTemplateBody.requiredPermissionsForChange (body next : AgentTemplateBody) :
    List Api.PermissionKind :=
  let a := body.normalized
  let b := next.normalized
  (if a ≠ b then [.agentTemplateUpdate] else []) ++
    if a.tools ≠ b.tools ∨ a.skills ≠ b.skills then [.agentManage] else []

namespace Gating

open Dashboard

structure Principal where
  username : String
  permissions : List Api.PermissionKind
  deriving DecidableEq

def Principal.has (p : Principal) (perm : Api.PermissionKind) : Bool := p.permissions.contains perm

/-- The id is what its text parses to. -/
structure CreateAgentTemplateRevisionRequest where
  id : Option ℕ
  body : AgentTemplateBody
  csrfValid : Bool := true

/-- The store calls that the request makes. -/
inductive StoreCall where
  | getAgentTemplate (id : ℕ)
  | listAgentTemplateRevisions (id : ℕ)
  | createAgentTemplateRevision (id : ℕ) (body : AgentTemplateBody) (createdBy : Option String)

abbrev StoreCall.Resp : StoreCall → Type
  | .getAgentTemplate _ => Except StoreError (Option AgentTemplate)
  | .listAgentTemplateRevisions _ => Except StoreError (List AgentTemplateRevision)
  | .createAgentTemplateRevision _ _ _ => Except StoreError AgentTemplateRevision

abbrev Request (α : Type) := Prog StoreCall StoreCall.Resp α

def execute (op : StoreCall) : Request op.Resp := Prog.perform op

/-- The error of a call that fails, and the id that a new revision gets. -/
structure Choice where
  fault : Option StoreError := none
  revisionId : ℕ := 0

def attempt {α : Type} (ch : Choice) (w : World) (k : Except StoreError α × World) :
    Except StoreError α × World :=
  match ch.fault with
  | some e => (.error e, w)
  | none => k

def listAgentTemplateRevisions (w : World) (id : ℕ) : List AgentTemplateRevision :=
  newestFirst (fun r => (r.contentRevision : ℤ)) (w.revisions.rows.filter fun r => r.templateId = id)

/-- Each call is done at once: nobody comes between the steps that make up the call. -/
def exec (sha256 : List UInt8 → String) (b : Backend) (ch : Choice) :
    (op : StoreCall) → World → Option (op.Resp × World)
  | .getAgentTemplate id, w => some (attempt ch w (.ok (w.templates.get id), w))
  | .listAgentTemplateRevisions id, w =>
    some (attempt ch w (.ok (listAgentTemplateRevisions w id), w))
  | .createAgentTemplateRevision id body createdBy, w =>
    if w.revisions.contains ch.revisionId then none
    else
      some <| attempt ch w <|
        (createAgentTemplateRevision b id body createdBy).alone
          (fun op w => op.effect sha256 { revisionId := ch.revisionId } w) w

/-- The body that an edit is compared with. -/
def currentBody (revisions : List AgentTemplateRevision) : AgentTemplateBody :=
  (revisions.head?.map AgentTemplateRevision.body).getD (.new "")

def loadAgentTemplate (id : ℕ) : Request (Except ApiError AgentTemplate) := do
  match ← execute (.getAgentTemplate id) with
  | .error e => return .error (.ofStore e)
  | .ok none => return .error (.notFound "agent template not found")
  | .ok (some template) => return .ok template

/-- A global template is not a project's to change. -/
def inScope (p : Principal) (template : AgentTemplate) : Bool :=
  template.projectId.isSome || p.has .agentTemplateManageGlobal

def storeRevision (p : Principal) (id : ℕ) (next : AgentTemplateBody) :
    Request (Except ApiError AgentTemplateRevision) := do
  match ← execute (.listAgentTemplateRevisions id) with
  | .error e => return .error (.ofStore e)
  | .ok revisions =>
    if !((currentBody revisions).requiredPermissionsForChange next).all p.has then
      return .error permissionDenied
    else
      match ← execute (.createAgentTemplateRevision id next (some p.username)) with
      | .error (.conflict msg) => return .error (.conflict msg)
      | .error e => return .error (.ofStore e)
      | .ok revision => return .ok revision

def createAgentTemplateRevisionApi (p : Principal) (req : CreateAgentTemplateRevisionRequest) :
    Request (Except ApiError AgentTemplateRevision) :=
  if !p.has .agentTemplateUpdate then return .error permissionDenied
  else if !req.csrfValid then return .error (.forbidden "CSRF token invalid")
  else
    match req.id with
    | none => return .error (.badRequest "invalid agent template id")
    | some id => do
      match ← loadAgentTemplate id with
      | .error e => return .error e
      | .ok template =>
        if !inScope p template then return .error permissionDenied
        else storeRevision p id req.body

/-- Whoever else is at work stores no revision and changes no body. -/
def keepsRevisions (w w' : World) : Bool :=
  w'.revisions.rows.map AgentTemplateRevision.content =
    w.revisions.rows.map AgentTemplateRevision.content

def editors (sha256 : List UInt8 → String) (b : Backend) :
    Machine StoreCall StoreCall.Resp Principal CreateAgentTemplateRevisionRequest
      (Except ApiError AgentTemplateRevision) World Choice World where
  program := createAgentTemplateRevisionApi
  exec ch _ op w := exec sha256 b ch op w
  spawned _ _ := []
  accept _ _ w := some w
  disturb w' w := if keepsRevisions w w' then some w' else none

abbrev EditConfig := Config StoreCall StoreCall.Resp Principal CreateAgentTemplateRevisionRequest
  (Except ApiError AgentTemplateRevision) World
abbrev EditAction := Action Principal CreateAgentTemplateRevisionRequest Choice World
abbrev Past := List (Entry StoreCall StoreCall.Resp)

/-- The tools and the skills of a body, as edits are compared. -/
def bindings (body : AgentTemplateBody) : List String × List String :=
  (body.normalized.tools, body.normalized.skills)

/-- The body that comes before a revision; the first one comes after the empty body. -/
def Precedes (w : World) (r : AgentTemplateRevision) (prev : AgentTemplateBody) : Prop :=
  (r.contentRevision = 1 ∧ prev = .new "") ∨
    ∃ q ∈ w.revisions.rows, q.templateId = r.templateId ∧
      q.contentRevision + 1 = r.contentRevision ∧ prev = q.body

/-- The revision that a call has stored. -/
def stored : Entry StoreCall StoreCall.Resp → Option AgentTemplateRevision
  | ⟨.createAgentTemplateRevision _ _ _, .ok r⟩ => some r
  | _ => none

/-- Who has stored the revision. -/
def creators (log : List (Interleaving.Call StoreCall StoreCall.Resp Principal))
    (r : AgentTemplateRevision) : List Principal :=
  (log.filter fun k => (stored k.entry).any fun r' => r'.content = r.content).map
    Interleaving.Call.party

/-- What a revision stored since `w₀` changes in the tools or skills, its creator may manage. -/
def Gated (w₀ : World) (c : EditConfig) : Prop :=
  ∀ r ∈ c.state.revisions.rows, w₀.revisions.contains r.id = false → ∀ prev,
    Precedes c.state r prev → bindings r.body ≠ bindings prev →
    ∃ p ∈ creators c.log r, p.has .agentManage = true

/-- The revisions as the request has listed them last. -/
def lastRead (id : ℕ) : Past → List AgentTemplateRevision
  | [] => []
  | ⟨.listAgentTemplateRevisions i, .ok revisions⟩ :: h =>
    if i = id then revisions else lastRead id h
  | _ :: h => lastRead id h

/-- Who may not manage agents stores a revision only while the newest one has the tools and skills
that the request has read. -/
def asRead (c : EditConfig) : EditAction → Bool
  | .run i _ =>
    match c.next i with
    | some (.createAgentTemplateRevision id _ _) =>
      (c.threads[i]?).any (fun t => t.party.has .agentManage) ||
        bindings (currentBody (listAgentTemplateRevisions c.state id)) =
          bindings (currentBody (lastRead id (history c.log i)))
    | _ => true
  | _ => true

abbrev AsRead (c : EditConfig) (x : EditAction) : Prop := asRead c x = true

def Numbered (w : World) : Prop :=
  ∀ id, (w.numbers id).Perm (List.range' 1 (w.numbers id).length)

section Tables

variable {w w' : World} {id : ℕ} {q r : AgentTemplateRevision}

theorem mem_numbers (hq : q ∈ w.revisions.rows) : q.contentRevision ∈ w.numbers q.templateId :=
  List.mem_map_of_mem (List.mem_filter.mpr ⟨hq, by simp⟩)

theorem number_bounds (hw : Numbered w) (hq : q ∈ w.revisions.rows) :
    1 ≤ q.contentRevision ∧ q.contentRevision ≤ (w.numbers q.templateId).length := by
  have hmem := mem_numbers hq
  rw [(hw q.templateId).mem_iff, List.mem_range'_1] at hmem
  omega

theorem mem_listed :
    q ∈ listAgentTemplateRevisions w id ↔ q ∈ w.revisions.rows ∧ q.templateId = id := by
  simp [listAgentTemplateRevisions, mem_newestFirst]

theorem listed_sorted (id : ℕ) : (listAgentTemplateRevisions w id).Pairwise
    fun a b => (b.contentRevision : ℤ) ≤ a.contentRevision := by
  have : IsTrans AgentTemplateRevision fun a b => (b.contentRevision : ℤ) ≤ a.contentRevision :=
    ⟨fun _ _ _ hab hbc => hbc.trans hab⟩
  have : Std.Total fun a b : AgentTemplateRevision =>
      (b.contentRevision : ℤ) ≤ a.contentRevision :=
    ⟨fun a b => le_total (b.contentRevision : ℤ) a.contentRevision⟩
  exact List.pairwise_insertionSort _ _

/-- A template without revisions is at the empty body. -/
theorem current_none (h : (w.numbers id).length = 0) :
    currentBody (listAgentTemplateRevisions w id) = .new "" := by
  have hnone : listAgentTemplateRevisions w id = [] := by
    apply List.eq_nil_iff_forall_not_mem.mpr
    intro q hq
    obtain ⟨hrow, rfl⟩ := mem_listed.mp hq
    have hmem := mem_numbers hrow
    rw [List.eq_nil_of_length_eq_zero h] at hmem
    cases hmem
  rw [hnone]
  rfl

/-- The revision with the last number is the one that is listed first. -/
theorem current_last (hw : Numbered w) (hq : q ∈ w.revisions.rows)
    (hn : q.contentRevision = (w.numbers q.templateId).length) :
    currentBody (listAgentTemplateRevisions w q.templateId) = q.body := by
  have hlisted := mem_listed.mpr ⟨hq, rfl⟩
  have hsorted := @listed_sorted w q.templateId
  cases hl : listAgentTemplateRevisions w q.templateId with
  | nil =>
    rw [hl] at hlisted
    cases hlisted
  | cons first rest =>
    obtain ⟨hfirst, hid⟩ := mem_listed.mp (hl ▸ List.mem_cons_self)
    have hle : q.contentRevision ≤ first.contentRevision := by
      rw [hl] at hlisted hsorted
      rcases List.mem_cons.mp hlisted with rfl | hrest
      · omega
      · have := (List.pairwise_cons.mp hsorted).1 q hrest
        omega
    have hge := (number_bounds hw hfirst).2
    rw [hid] at hge
    have hnodup : (w.numbers q.templateId).Nodup :=
      (hw q.templateId).nodup_iff.mpr List.nodup_range'
    have hsame : first = q := by
      apply List.inj_on_of_nodup_map hnodup
      · exact List.mem_filter.mpr ⟨hfirst, by simpa using hid⟩
      · exact List.mem_filter.mpr ⟨hq, by simp⟩
      · omega
    rw [hsame]
    rfl

/-- The body that comes before the next revision is the current one. -/
theorem precedes_next (hw : Numbered w) (hr : r.contentRevision = w.nextRevision r.templateId)
    {prev : AgentTemplateBody} (hp : Precedes w r prev) :
    prev = currentBody (listAgentTemplateRevisions w r.templateId) := by
  rw [next_of_numbered (hw r.templateId)] at hr
  rcases hp with ⟨hone, rfl⟩ | ⟨q, hq, ht, hn, rfl⟩
  · exact (current_none (by omega)).symm
  · rw [← ht] at hr ⊢
    exact (current_last hw hq (by omega)).symm

theorem numbered_congr (h : w'.revisions.rows.map AgentTemplateRevision.content =
    w.revisions.rows.map AgentTemplateRevision.content) (hw : Numbered w) : Numbered w' := by
  intro id
  rw [numbers_of_contents h]
  exact hw id

theorem numbered_put (hw : Numbered w) (hnew : w.revisions.contains r.id = false)
    (hr : r.contentRevision = w.nextRevision r.templateId)
    (hput : w'.revisions = w.revisions.put r) : Numbered w' := by
  intro id
  rw [numbers_put hnew hput]
  by_cases hid : r.templateId = id
  · subst hid
    rw [if_pos rfl, hr, next_of_numbered (hw r.templateId)]
    exact numbered_snoc (hw r.templateId)
  · rw [if_neg hid, List.append_nil]
    exact hw id

end Tables

section Conduct

/-- A revision is stored by whoever may make the change from what was read. -/
def Licensed (p : Principal) (h : Past) : StoreCall → Prop
  | .createAgentTemplateRevision id next _ =>
    ∀ perm ∈ (currentBody (lastRead id h)).requiredPermissionsForChange next, p.has perm = true
  | _ => True

variable {p : Principal} {h : Past}

theorem storeRevision_obeys (id : ℕ) (next : AgentTemplateBody) :
    Obeys (Licensed p) (fun _ _ => True) (storeRevision p id next) h := by
  apply obeys_step trivial
  intro r
  cases r with
  | error e => exact obeys_ret trivial
  | ok revisions =>
    dsimp only
    split
    · exact obeys_ret trivial
    · next hall =>
      refine obeys_step ?_ fun r => ?_
      · intro perm hperm
        rw [lastRead, if_pos rfl] at hperm
        simp only [Bool.not_eq_true, Bool.not_eq_false'] at hall
        exact List.all_eq_true.mp hall perm hperm
      · split <;> exact obeys_ret trivial

theorem editors_disciplined (sha256 : List UInt8 → String) (b : Backend) :
    (editors sha256 b).Disciplined (fun p _ => Licensed p) fun _ _ _ _ => True := by
  intro p req
  change Obeys _ _ (createAgentTemplateRevisionApi p req) []
  unfold createAgentTemplateRevisionApi
  split
  · exact obeys_ret trivial
  · split
    · exact obeys_ret trivial
    · cases req.id with
      | none => exact obeys_ret trivial
      | some id =>
        have hload : Obeys (Licensed p) (fun _ _ => True) (loadAgentTemplate id) [] := by
          apply obeys_step trivial
          intro r
          split <;> exact obeys_ret trivial
        apply obeys_bind hload
        intro r h' _
        cases r with
        | error e => exact obeys_ret trivial
        | ok template =>
          dsimp only
          split
          · exact obeys_ret trivial
          · exact storeRevision_obeys id req.body

/-- Whoever may change the tools or the skills of a body may manage agents. -/
theorem manages_of_licensed {id : ℕ} {next : AgentTemplateBody} {createdBy : Option String}
    (hl : Licensed p h (.createAgentTemplateRevision id next createdBy))
    (hb : bindings next ≠ bindings (currentBody (lastRead id h))) :
    p.has .agentManage = true := by
  apply hl
  have hne : (currentBody (lastRead id h)).normalized.tools ≠ next.normalized.tools ∨
      (currentBody (lastRead id h)).normalized.skills ≠ next.normalized.skills := by
    by_contra hboth
    simp only [not_or, not_not] at hboth
    exact hb (Prod.ext hboth.1.symm hboth.2.symm)
  simp [AgentTemplateBody.requiredPermissionsForChange, hne]

end Conduct

section Runs

variable {sha256 : List UInt8 → String} {b : Backend} {c₀ c c' : EditConfig} {i : ℕ} {ch : Choice}
  {op : StoreCall} {w w' w₀ : World}

/-- The store call as a whole adds the next revision, or nothing. -/
theorem create_alone {id revisionId : ℕ} {next : AgentTemplateBody} {createdBy : Option String}
    {res : Except StoreError AgentTemplateRevision}
    (h : (createAgentTemplateRevision b id next createdBy).alone
      (fun op w => op.effect sha256 { revisionId := revisionId } w) w = (res, w')) :
    (w'.revisions = w.revisions) ∨
      res = .ok (newRevision sha256 w revisionId (w.nextRevision id) id next createdBy) ∧
        w'.revisions =
          w.revisions.put (newRevision sha256 w revisionId (w.nextRevision id) id next createdBy) := by
  cases b with
  | mem =>
    simp only [createAgentTemplateRevision, MemStore.createAgentTemplateRevision,
      Templates.execute, Prog.perform_bind, Prog.alone, Op.effect] at h
    cases hs : w.status id with
    | none =>
      rw [hs] at h
      cases h
      exact .inl rfl
    | some status =>
      rw [hs] at h
      dsimp only at h
      split at h
      · cases h
        exact .inl rfl
      · cases h
        exact .inr ⟨rfl, rfl⟩
  | pg =>
    simp only [createAgentTemplateRevision, PgStore.createAgentTemplateRevision,
      Templates.execute, Prog.perform_bind, Prog.alone, Op.effect] at h
    cases hs : w.status id with
    | none =>
      rw [hs] at h
      cases h
      exact .inl rfl
    | some status =>
      rw [hs] at h
      dsimp only at h
      split at h
      · cases h
        exact .inl rfl
      · simp only [Prog.perform, Prog.alone] at h
        split at h
        · cases h
          exact .inl rfl
        · cases h
          exact .inr ⟨rfl, rfl⟩

theorem exec_revisions {r : op.Resp} (h : exec sha256 b ch op w = some (r, w')) :
    w'.revisions = w.revisions ∨
      ∃ id next createdBy, w.revisions.contains ch.revisionId = false ∧
        (⟨op, r⟩ : Entry StoreCall StoreCall.Resp) = ⟨.createAgentTemplateRevision id next createdBy,
          .ok (newRevision sha256 w ch.revisionId (w.nextRevision id) id next createdBy)⟩ ∧
        w'.revisions =
          w.revisions.put (newRevision sha256 w ch.revisionId (w.nextRevision id) id next createdBy) := by
  cases op with
  | createAgentTemplateRevision id next createdBy =>
    simp only [exec, Option.ite_none_left_eq_some, Bool.not_eq_true, Option.some.injEq] at h
    obtain ⟨hnew, h⟩ := h
    unfold attempt at h
    cases hf : ch.fault with
    | some e =>
      rw [hf] at h
      cases h
      exact .inl rfl
    | none =>
      rw [hf] at h
      rcases create_alone h with hsame | ⟨rfl, hput⟩
      · exact .inl hsame
      · exact .inr ⟨id, next, createdBy, hnew, rfl, hput⟩
  | _ =>
    left
    simp only [exec, attempt, Option.some.injEq] at h
    cases hf : ch.fault <;> rw [hf] at h <;> cases h <;> rfl

theorem mem_creators {log : List (Interleaving.Call StoreCall StoreCall.Resp Principal)}
    {r : AgentTemplateRevision} {p : Principal} : p ∈ creators log r ↔
      ∃ k ∈ log, k.party = p ∧ ∃ r', stored k.entry = some r' ∧ r'.content = r.content := by
  simp only [creators, List.mem_map, List.mem_filter, Option.any_eq_true_iff_get, and_assoc]
  apply exists_congr
  intro k
  cases hs : stored k.entry <;> simp [and_comm]

theorem creators_mono {log log' : List (Interleaving.Call StoreCall StoreCall.Resp Principal)}
    {r r' : AgentTemplateRevision} {p : Principal} (hl : log <:+ log')
    (hr : r'.content = r.content) (h : p ∈ creators log r') : p ∈ creators log' r := by
  rw [mem_creators] at h ⊢
  obtain ⟨k, hk, hparty, r'', hs, hc⟩ := h
  exact ⟨k, hl.subset hk, hparty, r'', hs, hc.trans hr⟩

/-- What a step leaves of the revisions is gated as it was. -/
theorem gated_same (hs : w'.revisions.rows.map AgentTemplateRevision.content =
      c.state.revisions.rows.map AgentTemplateRevision.content) (hw : c'.state = w')
    (hl : c.log <:+ c'.log) (h : Gated w₀ c) : Gated w₀ c' := by
  subst hw
  have old {r : AgentTemplateRevision} (hr : r ∈ c'.state.revisions.rows) :
      ∃ r' ∈ c.state.revisions.rows, r'.content = r.content :=
    List.mem_map.mp (hs ▸ List.mem_map_of_mem hr)
  intro r hr hnew prev hp hb
  obtain ⟨r', hr', he⟩ := old hr
  have hcontent := he
  simp only [AgentTemplateRevision.content, Prod.mk.injEq] at he
  have hp' : Precedes c.state r' prev := by
    rcases hp with ⟨hone, rfl⟩ | ⟨q, hq, ht, hn, rfl⟩
    · exact .inl ⟨he.2.2.1.trans hone, rfl⟩
    · obtain ⟨q', hq', heq⟩ := old hq
      simp only [AgentTemplateRevision.content, Prod.mk.injEq] at heq
      refine .inr ⟨q', hq', ?_, ?_, heq.2.2.2.2.symm⟩
      · rw [heq.2.1, ht, he.2.1]
      · omega
  obtain ⟨p, hby, hm⟩ := h r' hr' (he.1 ▸ hnew) prev hp' (he.2.2.2.2 ▸ hb)
  exact ⟨p, creators_mono hl hcontent hby, hm⟩

/-- A step that stores a revision was allowed to, or changes no tools and no skills. -/
theorem gated_put {id : ℕ} {next : AgentTemplateBody} {createdBy : Option String}
    {r : AgentTemplateRevision} {k : Interleaving.Call StoreCall StoreCall.Resp Principal}
    (hr : r = newRevision sha256 c.state ch.revisionId (c.state.nextRevision id) id next createdBy)
    (hnew : c.state.revisions.contains r.id = false)
    (hput : c'.state.revisions = c.state.revisions.put r)
    (hlog : c'.log = k :: c.log)
    (hk : k.entry = ⟨.createAgentTemplateRevision id next createdBy, .ok r⟩)
    (hm : bindings next ≠ bindings (currentBody (listAgentTemplateRevisions c.state id)) →
      k.party.has .agentManage = true)
    (hw : Numbered c.state) (h : Gated w₀ c) : Gated w₀ c' := by
  have hrows : c'.state.revisions.rows = c.state.revisions.rows ++ [r] := by
    rw [hput, Keyed.rows_put_new hnew]
  have hid : r.templateId = id := by rw [hr]; rfl
  have hnumber : r.contentRevision = c.state.nextRevision r.templateId := by rw [hid, hr]; rfl
  have hlast := hnumber
  rw [next_of_numbered (hw r.templateId)] at hlast
  -- the revision before one of the template is an old one
  have before {s : AgentTemplateRevision} {prev : AgentTemplateBody} (hs : s = r ∨
      s ∈ c.state.revisions.rows) (hp : Precedes c'.state s prev) : Precedes c.state s prev := by
    rcases hp with hp | ⟨q, hq, ht, hn, rfl⟩
    · exact .inl hp
    · rw [hrows] at hq
      rcases List.mem_append.mp hq with hq | hq
      · exact .inr ⟨q, hq, ht, hn, rfl⟩
      · exfalso
        rw [List.mem_singleton.mp hq] at ht hn
        rcases hs with rfl | hs
        · omega
        · have := (number_bounds hw hs).2
          rw [← ht] at this
          omega
  intro s hs hfresh prev hp hb
  rw [hrows] at hs
  rcases List.mem_append.mp hs with hs | hs
  · obtain ⟨p, hby, hmanage⟩ := h s hs hfresh prev (before (.inr hs) hp) hb
    refine ⟨p, creators_mono ?_ rfl hby, hmanage⟩
    rw [hlog]
    exact List.suffix_cons _ _
  · obtain rfl := List.mem_singleton.mp hs
    have hby : k.party ∈ creators c'.log s := by
      apply mem_creators.mpr
      exact ⟨k, by simp [hlog], rfl, s, by rw [hk]; rfl, rfl⟩
    refine ⟨k.party, hby, hm ?_⟩
    rw [precedes_next hw hnumber (before (.inl rfl) hp), hid] at hb
    have hbody : s.body = next.normalized := by rw [hr]; rfl
    rw [hbody, bindings, normalized_idem] at hb
    exact hb

theorem gated_step (h₀ : Machine.Fresh c₀) (hr : (editors sha256 b).Reaches AsRead c₀ c)
    {x : EditAction} (hx : AsRead c x) (hs : (editors sha256 b).step c x = some c')
    (hc : Numbered c.state ∧ Gated w₀ c) : Numbered c'.state ∧ Gated w₀ c' := by
  obtain ⟨hw, hg⟩ := hc
  have hlog := Machine.step_log hs
  cases x with
  | start p req =>
    have hstate : c'.state = c.state := (Option.some.inj (Machine.step_start hs).1).symm
    exact ⟨hstate ▸ hw, gated_same (by rw [hstate]) rfl hlog hg⟩
  | env w' =>
    have hstate := (Machine.step_env hs).1
    simp only [editors, keepsRevisions, decide_eq_true_eq, Option.ite_none_right_eq_some,
      Option.some.injEq] at hstate
    obtain ⟨hkeeps, rfl⟩ := hstate
    exact ⟨numbered_congr hkeeps hw, gated_same hkeeps rfl hlog hg⟩
  | run i ch =>
    obtain ⟨op, ⟨r⟩⟩ := Machine.step_run hs
    rcases exec_revisions r.done with hsame | ⟨id, next, createdBy, hnew, he, hput⟩
    · have hcontents : c'.state.revisions.rows.map AgentTemplateRevision.content =
          c.state.revisions.rows.map AgentTemplateRevision.content := by rw [hsame]
      exact ⟨numbered_congr hcontents hw, gated_same hcontents rfl hlog hg⟩
    · have hop := congrArg Entry.op he
      simp only at hop
      subst hop
      refine ⟨numbered_put hw hnew rfl hput, gated_put rfl hnew hput r.log he ?_ hw hg⟩
      intro hne
      rw [AsRead, asRead, r.next] at hx
      simp only [r.was, Option.any_some, Bool.or_eq_true, decide_eq_true_eq] at hx
      rcases hx with hmay | hread
      · exact hmay
      · rw [hread] at hne
        exact manages_of_licensed (r.licensed (editors_disciplined sha256 b) h₀ hr) hne

/-- As long as nobody else's edit comes between what a request reads and what it stores, a change
of the tools or skills is stored by a principal who may manage agents. -/
theorem changes_gated (h₀ : Machine.Fresh c₀) (hw : Numbered c₀.state)
    (h : (editors sha256 b).Reaches AsRead c₀ c) : Gated c₀.state c := by
  have both : Numbered c.state ∧ Gated c₀.state c := by
    apply h.invariant (P := fun c => Numbered c.state ∧ Gated c₀.state c)
    · refine ⟨hw, ?_⟩
      intro r hr hnew
      have hold := Keyed.get_of_mem hr
      rw [Keyed.contains_eq, hold] at hnew
      cases hnew
    · intro c x c' hr hx hs hc
      exact gated_step h₀ hr hx hs hc
  exact both.2

end Runs

section Examples

def oneDraft : EditConfig := ⟨oneTemplate.state, [], []⟩

def ann : Principal := ⟨"ann", [.agentTemplateUpdate, .agentTemplateManageGlobal, .agentManage]⟩

def bob : Principal := ⟨"bob", [.agentTemplateUpdate, .agentTemplateManageGlobal]⟩

def edit (rolePrompt : String) (tools : List String) : CreateAgentTemplateRevisionRequest :=
  { id := some 1, body := { rolePrompt, tools, skills := [] } }

/-- Bob has read the empty body when Ann stores a tool. -/
def overtaken : List EditAction :=
  [.start bob (edit "review" []), .start ann (edit "build" ["shell"]), .run 0 {}, .run 0 {},
    .run 1 {}, .run 1 {}, .run 1 { revisionId := 1 }, .run 0 { revisionId := 2 }]

def overwritten : EditConfig := (editors emptySetHash .pg).after oneDraft overtaken

def withTool : AgentTemplateRevision :=
  { id := 1, templateId := 1, contentRevision := 1, contentHash := noDependents
    body := ⟨"build", ["shell"], []⟩, createdBy := some "ann", createdAt := 0 }

def withoutTool : AgentTemplateRevision :=
  { id := 2, templateId := 1, contentRevision := 2, contentHash := noDependents
    body := ⟨"review", [], []⟩, createdBy := some "bob", createdAt := 0 }

/-- Bob's edit of the prompt takes the tool away. -/
theorem tools_taken_away : (editors emptySetHash .pg).Reaches Machine.always oneDraft overwritten ∧
    ¬ Gated oneDraft.state overwritten := by
  refine ⟨Machine.after_reaches _, ?_⟩
  intro h
  have hrows : overwritten.state.revisions.rows = [withTool, withoutTool] := by decide +kernel
  have hcreators : creators overwritten.log withoutTool = [bob] := by decide +kernel
  have hbefore : Precedes overwritten.state withoutTool withTool.body :=
    .inr ⟨withTool, by simp [hrows], rfl, rfl, rfl⟩
  obtain ⟨p, hp, hm⟩ := h withoutTool (by simp [hrows]) (by decide +kernel) withTool.body hbefore
    (by decide +kernel)
  rw [hcreators, List.mem_singleton] at hp
  subst hp
  exact absurd hm (by decide)

/-- The same two edits, the second one read after the first is stored. -/
def inTurn : List EditAction :=
  [.start ann (edit "build" ["shell"]), .run 0 {}, .run 0 {}, .run 0 { revisionId := 1 },
    .start bob (edit "review" ["shell"]), .run 1 {}, .run 1 {}, .run 1 { revisionId := 2 }]

def edited : EditConfig :=
  ((editors emptySetHash .pg).replayWhile asRead oneDraft inTurn).getD oneDraft

theorem edited_gated : edited.state.revisions.rows.map AgentTemplateRevision.contentRevision = [1, 2] ∧
    Gated oneDraft.state edited := by
  have hdone : ((editors emptySetHash .pg).replayWhile asRead oneDraft inTurn).isSome = true := by
    decide +kernel
  have hc : (editors emptySetHash .pg).replayWhile asRead oneDraft inTurn = some edited :=
    (Option.some_get hdone).symm.trans (by rw [edited, Option.get_eq_getD])
  have hempty : Numbered oneDraft.state := fun _ => .refl _
  exact ⟨by decide +kernel, changes_gated ⟨rfl, rfl⟩ hempty (Machine.replayWhile_reaches hc)⟩

end Examples

end Gating

end FleetOrchestrator.Templates
