import FleetOrchestrator.Encoding.Words
import FleetOrchestrator.Interleaving.Log
import FleetOrchestrator.Issues.Transitions

/-! Edits of one issue by any number of clients: which request the stored fields come from. -/

namespace FleetOrchestrator.Issues

open Api Core Tables Store Interleaving Machine

namespace IssueSeverity

def asStr : IssueSeverity → String
  | critical => "critical"
  | high => "high"
  | medium => "medium"
  | low => "low"

def parseStr : String → Option IssueSeverity
  | "critical" => some critical
  | "high" => some high
  | "medium" => some medium
  | "low" => some low
  | _ => none

theorem parseStr_asStr (s : IssueSeverity) : parseStr s.asStr = some s := by
  cases s <;> rfl

end IssueSeverity

/-- The issue id is what its text parses to. -/
structure UpdateIssueRequest where
  id : Option IssueId
  title : Option String := none
  body : Option String := none
  severity : Option String := none
  labels : Option (List String) := none
  assignee : Option (Option String) := none
  permissions : List PermissionKind
  csrfValid : Bool := true

namespace UpdateIssueRequest

def editedTitle (req : UpdateIssueRequest) : Except Dashboard.ApiError (Option String) :=
  match req.title with
  | none => .ok none
  | some title =>
    if trim title = "" then .error (.badRequest "title must not be empty")
    else .ok (some (trim title))

/-- An empty severity is none. -/
def editedSeverity (req : UpdateIssueRequest) : Except Dashboard.ApiError (Option IssueSeverity) :=
  match req.severity.filter fun s => s ≠ "" with
  | none => .ok none
  | some raw => match IssueSeverity.parseStr raw with
    | none => .error (.badRequest ("unknown severity: " ++ raw))
    | some severity => .ok (some severity)

/-- What the request edits. A blank assignee is none. -/
def patch (req : UpdateIssueRequest) : Except Dashboard.ApiError IssuePatch :=
  match req.editedTitle with
  | .error e => .error e
  | .ok title => match req.editedSeverity with
    | .error e => .error e
    | .ok severity => .ok
      { title, body := req.body, severity, labels := req.labels
        assignee := req.assignee.map fun a => a.filter fun s => trim s ≠ "" }

theorem patch_assignee {req : UpdateIssueRequest} {patch : IssuePatch} (h : req.patch = .ok patch) :
    patch.assignee.isSome = req.assignee.isSome := by
  unfold UpdateIssueRequest.patch at h
  cases ht : req.editedTitle with
  | error e =>
    rw [ht] at h
    cases h
  | ok title =>
    rw [ht] at h
    cases hs : req.editedSeverity with
    | error e =>
      rw [hs] at h
      cases h
    | ok severity =>
      rw [hs] at h
      cases h
      simp

end UpdateIssueRequest

/-- The request: who is given in it is somebody else's to decide. A field that cannot be edited as
asked is refused once the issue is found. -/
def updateIssue (req : UpdateIssueRequest) : Call Reply :=
  if !req.permissions.contains .issueUpdate then return .failed Dashboard.permissionDenied
  else if !req.csrfValid then return .failed (.forbidden "CSRF token invalid")
  else if req.assignee.isSome && !req.permissions.contains .issueAssign then
    return .failed Dashboard.permissionDenied
  else
    match req.id with
    | none => return .failed (.badRequest "invalid issue id")
    | some id =>
      match req.patch with
      | .ok patch => updateIssueApi id patch
      | .error e => do
        match ← loadIssue id with
        | .error e => return .failed e
        | .ok _ => return .failed e

inductive Edit where
  | patch (req : UpdateIssueRequest)
  | transitionApi (req : TransitionRequest)
  | transitionTool (req : TransitionRequest)
  | create (id : IssueId) (projectId : ProjectId) (title createdBy : String)

def Edit.program : Edit → Call Reply
  | patch req => updateIssue req
  | transitionApi req => transitionIssueApi req
  | transitionTool req => handleTransitionIssue req
  | create id projectId title createdBy => createIssueApi id projectId title createdBy

def desk (b : Backend) : Machine Op Op.Resp Unit Edit Reply World Choice ℕ where
  program _ a := a.program
  exec ch _ op s := exec b ch op s
  spawned _ _ := []
  accept _ _ s := some s
  disturb n s := some { s with now := s.now + n }

abbrev DeskConfig := Config Op Op.Resp Unit Edit Reply World
abbrev DeskAction := Action Unit Edit Choice ℕ

inductive Field where
  | title
  | body
  | severity
  | labels
  | assignee
  deriving DecidableEq

namespace Field

def all : List Field := [title, body, severity, labels, assignee]

theorem mem_all (f : Field) : f ∈ all := by
  cases f <;> decide

abbrev Value : Field → Type
  | title | body => String
  | severity => IssueSeverity
  | labels => List String
  | assignee => Option String

instance (f : Field) : DecidableEq f.Value :=
  match f with
  | title | body => inferInstanceAs (DecidableEq String)
  | severity => inferInstanceAs (DecidableEq IssueSeverity)
  | labels => inferInstanceAs (DecidableEq (List String))
  | assignee => inferInstanceAs (DecidableEq (Option String))

def stored : (f : Field) → Issue → f.Value
  | title, issue => issue.title
  | body, issue => issue.body
  | severity, issue => issue.severity
  | labels, issue => issue.labels
  | assignee, issue => issue.assignee

/-- The value that an edit names for the field. -/
def given : (f : Field) → IssuePatch → Option f.Value
  | title, patch => patch.title
  | body, patch => patch.body
  | severity, patch => patch.severity
  | labels, patch => patch.labels
  | assignee, patch => patch.assignee

variable (f : Field)

theorem stored_apply (patch : IssuePatch) (issue : Issue) :
    f.stored (patch.apply issue) = (f.given patch).getD (f.stored issue) := by
  cases f <;> rfl

theorem stored_withFieldsOf (row issue : Issue) (now : ℤ) :
    f.stored (row.withFieldsOf issue now) = f.stored issue := by
  cases f <;> rfl

theorem stored_moved (now : ℤ) (status : IssueStatus) (closeReason : Option CloseReason)
    (row : Issue) : f.stored (Issue.moved now status closeReason row) = f.stored row := by
  cases f <;> rfl

end Field

def Edit.edits : Edit → Option IssuePatch
  | patch req => req.patch.toOption
  | _ => none

/-- What the request at the thread edits. -/
def patchAt (c : DeskConfig) (i : ℕ) : Option IssuePatch :=
  (c.threads[i]?).bind fun t => t.act.edits

/-- The value that a logged call has written into the field because its request names it. -/
def named (c : DeskConfig) (id : IssueId) (f : Field) (k : Interleaving.Call Op Op.Resp Unit) :
    Option f.Value :=
  match k.entry with
  | ⟨.updateIssueFields issue, .ok _⟩ =>
    if issue.id = id then (patchAt c k.thread).bind f.given else none
  | _ => none

/-- Every call of the first thread comes after every call of the second. -/
def Follows (log : List (Interleaving.Call Op Op.Resp Unit)) (i j : ℕ) : Prop :=
  ∀ k l, k :: l <:+ log → k.thread = i → ∀ k' l', k' :: l' <:+ log → k'.thread = j →
    k' :: l' <:+ l

/-- The row's fields are the initial ones, but for those that requests name: such a field has the
value of a request that no other one naming it follows entirely. -/
def LastNamed (c : DeskConfig) (id : IssueId) (row₀ : Issue) (f : Field) : Prop :=
  ∃ row, c.state.issues.get id = some row ∧
    ((∀ k ∈ c.log, named c id f k = none) → f.stored row = f.stored row₀) ∧
    ((∃ k ∈ c.log, (named c id f k).isSome = true) →
      ∃ k ∈ c.log, named c id f k = some (f.stored row) ∧
        ∀ k' ∈ c.log, (named c id f k').isSome = true → k'.thread ≠ k.thread →
          ¬ Follows c.log k'.thread k.thread)

/-- What a request does not name is still as it has read it when it writes. -/
def unnamedAsRead (c : DeskConfig) : DeskAction → Bool
  | .run i _ =>
    match c.next i, patchAt c i with
    | some (.updateIssueFields issue), some patch =>
      Field.all.all fun f => (f.given patch).isSome ||
        (c.state.issues.get issue.id).map f.stored =
          (lastRead issue.id (history c.log i)).map f.stored
    | _, _ => true
  | _ => true

abbrev UnnamedAsRead (c : DeskConfig) (x : DeskAction) : Prop := unnamedAsRead c x = true

section Conduct

/-- The fields are written by an edit of the copy that was read, whoever is assigned by those who
may. -/
def WritesCopy (a : Edit) (h : History) : Op → Prop
  | .updateIssueFields issue => ∃ req patch read, a = .patch req ∧ req.patch = .ok patch ∧
      lastRead issue.id h = some read ∧ issue = patch.apply read ∧
      (patch.assignee.isSome = true → req.permissions.contains .issueAssign = true)
  | _ => True

def LeavesFields (op : Op) : Prop := ∀ issue, op ≠ .updateIssueFields issue

variable {h : History} {a : Edit}

theorem leaves_writesCopy (h : History) (op : Op) (ho : LeavesFields op) : WritesCopy a h op := by
  cases op with
  | updateIssueFields issue => exact absurd rfl (ho issue)
  | _ => trivial

theorem summary_leaves (issue : Issue) : Uses LeavesFields (issueSummary issue) := by
  refine uses_step (fun _ h => by cases h) fun r => ?_
  cases r <;> exact uses_ret _

theorem loadIssue_leaves (id : IssueId) : Uses LeavesFields (loadIssue id) := by
  refine uses_step (fun _ h => by cases h) fun r => ?_
  cases r with
  | error e => exact uses_ret _
  | ok found => cases found <;> exact uses_ret _

theorem reloaded_leaves (id : IssueId) : Uses LeavesFields (reloaded id) := by
  apply uses_bind (loadIssue_leaves id)
  intro r
  cases r with
  | error e => exact uses_ret _
  | ok issue => exact summary_leaves issue

theorem transitionLoaded_leaves (issue : Issue) (target : IssueStatus)
    (closeReason : Option CloseReason) :
    Uses LeavesFields (transitionLoaded issue target closeReason) := by
  refine uses_step (fun _ h => by cases h) fun now => ?_
  cases issue.transitionTo target closeReason now with
  | error e => exact uses_ret _
  | ok moved =>
    refine uses_step (fun _ h => by cases h) fun r => ?_
    cases r with
    | error e => exact uses_ret _
    | ok found => exact reloaded_leaves moved.id

theorem transitionRead_leaves (issue : Issue) (target : IssueStatus)
    (closeReason : Option CloseReason) :
    Uses LeavesFields (transitionRead issue target closeReason) := by
  refine uses_step (fun _ h => by cases h) fun now => ?_
  cases issue.transitionTo target closeReason now with
  | error e => exact uses_ret _
  | ok moved =>
    refine uses_step (fun _ h => by cases h) fun r => ?_
    cases r with
    | error e => exact uses_ret _
    | ok found =>
      refine uses_step (fun _ h => by cases h) fun active => ?_
      cases active <;> exact uses_ret _

theorem transitionIssueApi_leaves (req : TransitionRequest) :
    Uses LeavesFields (transitionIssueApi req) := by
  unfold transitionIssueApi
  split_ifs
  · exact uses_ret _
  · dsimp only
    cases IssueStatus.parseStr (req.status.getD "") with
    | none => exact uses_ret _
    | some target =>
      dsimp only
      split_ifs
      · exact uses_ret _
      · cases formReason req.closeReason with
        | error msg => exact uses_ret _
        | ok closeReason =>
          cases req.id with
          | none => exact uses_ret _
          | some id =>
            apply uses_bind (loadIssue_leaves id)
            intro r
            cases r with
            | error e => exact uses_ret _
            | ok issue => exact transitionLoaded_leaves issue target closeReason

theorem handleTransitionIssue_leaves (req : TransitionRequest) :
    Uses LeavesFields (handleTransitionIssue req) := by
  unfold handleTransitionIssue
  cases req.status with
  | none => exact uses_ret _
  | some raw =>
    dsimp only
    cases IssueStatus.parseStr raw with
    | none => exact uses_ret _
    | some target =>
      dsimp only
      split_ifs
      · exact uses_ret _
      · cases argReason req.closeReason with
        | error msg => exact uses_ret _
        | ok closeReason =>
          cases req.id with
          | none => exact uses_ret _
          | some id =>
            refine uses_step (fun _ h => by cases h) fun r => ?_
            cases r with
            | error e => exact uses_ret _
            | ok found =>
              cases found with
              | none => exact uses_ret _
              | some issue => exact transitionRead_leaves issue target closeReason

theorem createIssueApi_leaves (id : IssueId) (projectId : ProjectId) (title createdBy : String) :
    Uses LeavesFields (createIssueApi id projectId title createdBy) := by
  refine uses_step (fun _ h => by cases h) fun now => ?_
  refine uses_step (fun _ h => by cases h) fun r => ?_
  cases r with
  | error e => exact uses_ret _
  | ok u => exact summary_leaves _

/-- An edit that is let through writes the fields of what it has read. -/
theorem updateIssueApi_writes {req : UpdateIssueRequest} {patch : IssuePatch} (id : IssueId)
    (hp : req.patch = .ok patch)
    (ha : patch.assignee.isSome = true → req.permissions.contains .issueAssign = true) :
    Obeys (WritesCopy (.patch req)) (fun _ _ => True) (updateIssueApi id patch) h := by
  have hload : Obeys (WritesCopy (.patch req))
      (fun r h' => ∀ issue, r = .ok issue → lastRead issue.id h' = some issue) (loadIssue id) h := by
    refine obeys_mono (obeys_and (loadIssue_obeys id)
      (obeys_of_uses (loadIssue_leaves id) leaves_writesCopy)) (fun _ _ ho => ho.2) ?_
    exact fun r h' hr => hr.1
  apply obeys_bind hload
  intro r h' hr
  cases r with
  | error e => exact obeys_ret trivial
  | ok issue =>
    refine obeys_step ⟨req, patch, issue, rfl, hp, hr issue rfl, rfl, ha⟩ fun r => ?_
    cases r with
    | error e => exact obeys_ret trivial
    | ok found =>
      exact obeys_conseq (obeys_of_uses (reloaded_leaves issue.id) leaves_writesCopy)
        fun _ _ _ => trivial

theorem updateIssue_writes (req : UpdateIssueRequest) :
    Obeys (WritesCopy (.patch req)) (fun _ _ => True) (updateIssue req) h := by
  unfold updateIssue
  split
  · exact obeys_ret trivial
  · split
    · exact obeys_ret trivial
    · split
      · exact obeys_ret trivial
      · next hassign =>
        cases req.id with
        | none => exact obeys_ret trivial
        | some id =>
          dsimp only
          cases hp : req.patch with
          | ok patch =>
            apply updateIssueApi_writes id hp
            intro ha
            rw [UpdateIssueRequest.patch_assignee hp] at ha
            simpa [ha] using hassign
          | error e =>
            apply obeys_bind
              (obeys_of_uses (loadIssue_leaves id) (leaves_writesCopy (a := .patch req)))
            intro r h' _
            cases r <;> exact obeys_ret trivial

theorem desk_disciplined (b : Backend) :
    (desk b).Disciplined (fun _ => WritesCopy) fun _ _ _ _ => True := by
  have free {p : Call Reply} {a : Edit} (hp : Uses LeavesFields p) :
      Obeys (WritesCopy a) (fun _ _ => True) p [] :=
    obeys_conseq (obeys_of_uses hp leaves_writesCopy) fun _ _ _ => trivial
  intro p a
  cases a with
  | patch req => exact updateIssue_writes req
  | transitionApi req => exact free (transitionIssueApi_leaves req)
  | transitionTool req => exact free (handleTransitionIssue_leaves req)
  | create id projectId title createdBy =>
    exact free (createIssueApi_leaves id projectId title createdBy)

end Conduct

section Runs

variable {b : Backend} {c₀ c c' : DeskConfig} {i : ℕ} {ch : Choice} {op : Op} {s s' : World}
  {id : IssueId} {row row₀ : Issue} {f : Field}

/-- The row of an issue after a store call: its fields are those of the copy that is written to it,
or stay. -/
theorem exec_row {r : op.Resp} (he : exec b ch op s = some (r, s'))
    (hrow : s.issues.get id = some row) :
    (∃ issue found, (⟨op, r⟩ : Entry Op Op.Resp) = ⟨.updateIssueFields issue, .ok found⟩ ∧
      issue.id = id ∧ s'.issues.get id = some (row.withFieldsOf issue s.now)) ∨
    (∀ issue found, (⟨op, r⟩ : Entry Op Op.Resp) = ⟨.updateIssueFields issue, .ok found⟩ →
      issue.id ≠ id) ∧ ∃ row', s'.issues.get id = some row' ∧ ∀ f : Field,
        f.stored row' = f.stored row := by
  by_cases hop : ∃ issue, op = .updateIssueFields issue
  · obtain ⟨issue, rfl⟩ := hop
    simp only [exec, attempt, Option.some.injEq] at he
    cases hf : ch.fault with
    | some e =>
      rw [hf] at he
      cases he
      refine .inr ⟨?_, row, hrow, fun _ => rfl⟩
      intro issue' found h
      cases h
    | none =>
      rw [hf] at he
      cases he
      by_cases hi : issue.id = id
      · subst hi
        refine .inl ⟨issue, _, rfl, rfl, ?_⟩
        rw [s.get_setFields_self issue, hrow, Option.map_some]
      · refine .inr ⟨?_, row, ?_, fun _ => rfl⟩
        · intro issue' found h
          cases h
          exact hi
        · rw [s.get_setFields_ne id issue (Ne.symm hi), hrow]
  · refine .inr ⟨?_, ?_⟩
    · intro issue found h
      exact absurd ⟨issue, congrArg Entry.op h⟩ hop
    · obtain hsame | ⟨issue, -, hn, -⟩ | ⟨issue, hup, -⟩ | ⟨status, closeReason, -, hset⟩ :=
        writes_row (exec_writes he) id
      · exact ⟨row, hsame.trans hrow, fun _ => rfl⟩
      · rw [hn] at hrow
        cases hrow
      · exact absurd ⟨issue, hup⟩ hop
      · rw [hrow] at hset
        exact ⟨_, hset, fun f => f.stored_moved _ _ _ _⟩

/-- What a logged call has written because it was asked to stays known. -/
theorem named_step {x : DeskAction} (hs : (desk b).step c x = some c') (hw : LogWithin c)
    {k : Interleaving.Call Op Op.Resp Unit} (hk : k ∈ c.log) : named c' id f k = named c id f k := by
  obtain ⟨t', ht', -, hact⟩ := step_thread hs (List.getElem?_eq_getElem (hw k hk))
  have hpatch : patchAt c' k.thread = patchAt c k.thread := by
    simp only [patchAt, ht', List.getElem?_eq_getElem (hw k hk), Option.bind_some, hact]
  unfold named
  rw [hpatch]

theorem findSome?_named_step {x : DeskAction} (hs : (desk b).step c x = some c')
    (hw : LogWithin c) : c.log.findSome? (named c' id f) = c.log.findSome? (named c id f) := by
  have same : ∀ l : List (Interleaving.Call Op Op.Resp Unit), (∀ k ∈ l, k ∈ c.log) →
      l.findSome? (named c' id f) = l.findSome? (named c id f) := by
    intro l
    induction l with
    | nil => intro _; rfl
    | cons k l ih =>
      intro hl
      rw [List.findSome?_cons, List.findSome?_cons, named_step hs hw (hl k List.mem_cons_self),
        ih fun k' hk' => hl k' (List.mem_cons_of_mem k hk')]
  exact same c.log fun _ hk => hk

/-- The stored value is the one that was named last. -/
def Traced (c : DeskConfig) (id : IssueId) (row₀ : Issue) : Prop :=
  ∃ row, c.state.issues.get id = some row ∧
    ∀ f : Field, f.stored row = (c.log.findSome? (named c id f)).getD (f.stored row₀)

/-- What an edit writes where it names nothing is what is stored, if that is as it was read. -/
theorem unnamed_kept {issue : Issue} {patch : IssuePatch} {read : Issue} {ch : Choice}
    (hx : UnnamedAsRead c (.run i ch)) (hn : c.next i = some (.updateIssueFields issue))
    (ht : patchAt c i = some patch) (hread : lastRead issue.id (history c.log i) = some read)
    (hrow : c.state.issues.get issue.id = some row) (hf : f.given patch = none) :
    f.stored read = f.stored row := by
  simp only [UnnamedAsRead, unnamedAsRead, hn, ht, List.all_eq_true, Bool.or_eq_true,
    decide_eq_true_eq, hrow, hread, Option.map_some, Option.some.injEq] at hx
  rcases hx f f.mem_all with hsome | hsame
  · rw [hf] at hsome
    cases hsome
  · exact hsame.symm

theorem traced_run (h₀ : Fresh c₀) (hr : (desk b).Reaches UnnamedAsRead c₀ c)
    (hx : UnnamedAsRead c (.run i ch)) (hs : (desk b).step c (.run i ch) = some c')
    (h : Traced c id row₀) : Traced c' id row₀ := by
  obtain ⟨op, ⟨r⟩⟩ := step_run hs
  obtain ⟨row, hrow, hvalue⟩ := h
  have hw := within_of_reaches h₀ hr
  have hlog (f : Field) : c'.log.findSome? (named c' id f) =
      (named c' id f ⟨i, r.party, op, r.resp⟩).or (c.log.findSome? (named c id f)) := by
    rw [r.log, List.findSome?_cons, findSome?_named_step hs hw]
    cases named c' id f ⟨i, r.party, op, r.resp⟩ <;> rfl
  rcases exec_row r.done hrow with ⟨issue, found, he, rfl, hwritten⟩ | ⟨hother, row', hrow', hkept⟩
  · refine ⟨_, hwritten, fun f => ?_⟩
    obtain rfl : op = .updateIssueFields issue := congrArg Entry.op he
    have hlicence := r.licensed (desk_disciplined b) h₀ hr
    obtain ⟨req, patch, read, hact, hpatch, hread, hissue, -⟩ := hlicence
    have hbefore : patchAt c i = some patch := by
      simp [patchAt, r.was, hact, Edit.edits, hpatch, Except.toOption]
    have hafter : patchAt c' i = some patch := by
      simp [patchAt, r.after.1, hact, Edit.edits, hpatch, Except.toOption]
    have hnamed : named c' issue.id f ⟨i, r.party, .updateIssueFields issue, r.resp⟩ =
        f.given patch := by
      have hentry : (⟨i, r.party, .updateIssueFields issue, r.resp⟩ :
          Interleaving.Call Op Op.Resp Unit).entry = ⟨.updateIssueFields issue, .ok found⟩ := he
      simp only [named, hentry, if_true, hafter, Option.bind_some]
    rw [hlog, hnamed, f.stored_withFieldsOf]
    conv_lhs => rw [hissue, f.stored_apply]
    cases hg : f.given patch with
    | some v => rfl
    | none =>
      rw [Option.none_or, Option.getD_none,
        unnamed_kept hx r.next hbefore hread hrow hg]
      exact hvalue f
  · refine ⟨row', hrow', fun f => ?_⟩
    have hnamed : named c' id f ⟨i, r.party, op, r.resp⟩ = none := by
      unfold named
      split
      · next issue found he => rw [if_neg (hother issue found he)]
      · rfl
    rw [hlog, hnamed, Option.none_or, hkept f]
    exact hvalue f

theorem traced_of_reaches (h₀ : Fresh c₀) (hrow : c₀.state.issues.get id = some row₀)
    (h : (desk b).Reaches UnnamedAsRead c₀ c) : Traced c id row₀ := by
  apply h.invariant (P := fun c => Traced c id row₀)
  · refine ⟨row₀, hrow, fun f => ?_⟩
    rw [h₀.log]
    rfl
  · intro c x c' hr hx hs hc
    have same (hstate : c'.state.issues = c.state.issues) (hlog : c'.log = c.log) :
        Traced c' id row₀ := by
      obtain ⟨row, hrow, hvalue⟩ := hc
      refine ⟨row, by rw [hstate, hrow], fun f => ?_⟩
      rw [hlog, findSome?_named_step hs (within_of_reaches h₀ hr)]
      exact hvalue f
    cases x with
    | start p a =>
      obtain ⟨hstate, -, hlog⟩ := step_start hs
      exact same (by rw [← Option.some.inj hstate]) hlog
    | env n =>
      obtain ⟨hstate, -, hlog⟩ := step_env hs
      exact same (by rw [← Option.some.inj hstate]) hlog
    | run i ch => exact traced_run h₀ hr hx hs hc

/-- The value that was named last is of a request that no other one naming the field follows. -/
theorem lastNamed_of_traced (h : Traced c id row₀) (f : Field) : LastNamed c id row₀ f := by
  obtain ⟨row, hrow, hvalue⟩ := h
  refine ⟨row, hrow, ?_, ?_⟩
  · intro hnone
    rw [hvalue f, List.findSome?_eq_none_iff.mpr hnone]
    rfl
  · rintro ⟨k₁, hk₁, hsome⟩
    obtain ⟨v, hv⟩ := Option.isSome_iff_exists.mp (List.findSome?_isSome_iff.mpr ⟨k₁, hk₁, hsome⟩)
    obtain ⟨newer, k, older, hsplit, hk, hnewer⟩ := List.findSome?_eq_some_iff.mp hv
    have hat : k :: older <:+ c.log := hsplit ▸ List.suffix_append newer (k :: older)
    refine ⟨k, hat.subset List.mem_cons_self, ?_, ?_⟩
    · rw [hvalue f, hv]
      exact hk
    · intro k' hk' hsome' hne hfollows
      rw [hsplit] at hk'
      rcases List.mem_append.mp hk' with hk' | hk'
      · rw [hnewer k' hk'] at hsome'
        cases hsome'
      · rcases List.mem_cons.mp hk' with rfl | hk'
        · exact hne rfl
        · obtain ⟨l', hl'⟩ := placed hk'
          have hbefore : k' :: l' <:+ c.log := (hl'.trans (List.suffix_cons k older)).trans hat
          have hlong := (hfollows k' l' hbefore rfl k older hat rfl).length_le
          have hshort := hl'.length_le
          simp only [List.length_cons] at hlong hshort
          omega

/-- A request that may not assign leaves the assignee, where it writes what it has read. -/
theorem assignee_kept (h₀ : Fresh c₀) (h : (desk b).Reaches UnnamedAsRead c₀ c)
    (hx : UnnamedAsRead c (.run i ch)) (r : (desk b).Ran c c' i ch op) {req : UpdateIssueRequest}
    (hact : r.act = .patch req) (hmay : req.permissions.contains .issueAssign = false)
    (hrow : c.state.issues.get id = some row) :
    ∃ row', c'.state.issues.get id = some row' ∧ row'.assignee = row.assignee := by
  rcases exec_row r.done hrow with ⟨issue, found, he, rfl, hwritten⟩ | ⟨-, row', hrow', hkept⟩
  · refine ⟨_, hwritten, ?_⟩
    obtain rfl : op = .updateIssueFields issue := congrArg Entry.op he
    obtain ⟨req', patch, read, hact', hpatch, hread, hissue, hassign⟩ :=
      r.licensed (desk_disciplined b) h₀ h
    rw [hact] at hact'
    cases hact'
    have hnone : Field.given .assignee patch = none := by
      change patch.assignee = none
      cases ha : patch.assignee with
      | none => rfl
      | some assignee =>
        rw [hassign (by rw [ha]; rfl)] at hmay
        cases hmay
    have hbefore : patchAt c i = some patch := by
      simp [patchAt, r.was, hact, Edit.edits, hpatch, Except.toOption]
    have hsame := unnamed_kept hx r.next hbefore hread hrow hnone
    change issue.assignee = row.assignee
    have hcopy := Field.stored_apply .assignee patch read
    rw [← hissue, hnone] at hcopy
    exact hcopy.trans hsame
  · exact ⟨row', hrow', hkept .assignee⟩

/-- Where a request finds what it does not name as it has read it, the fields of the issue are those
that were named last, and only who may assign changes the assignee. -/
theorem edits_kept (h₀ : Fresh c₀) (hrow : c₀.state.issues.get id = some row₀)
    (h : (desk b).Reaches UnnamedAsRead c₀ c) :
    (∀ f, LastNamed c id row₀ f) ∧
      ∀ c' i ch op (r : (desk b).Ran c c' i ch op) req row, UnnamedAsRead c (.run i ch) →
        r.act = .patch req → req.permissions.contains .issueAssign = false →
        c.state.issues.get id = some row →
        ∃ row', c'.state.issues.get id = some row' ∧ row'.assignee = row.assignee :=
  ⟨lastNamed_of_traced (traced_of_reaches h₀ hrow h), fun _ _ _ _ r _ _ hx hact hmay hstored =>
    assignee_kept h₀ h hx r hact hmay hstored⟩

end Runs

section Editors

/-- The body of an issue, by somebody who may not assign it. -/
def newBody : UpdateIssueRequest :=
  { id := some ⟨1⟩, body := some "fails on arm only", permissions := [.issueUpdate] }

def assignBob : UpdateIssueRequest :=
  { id := some ⟨1⟩, assignee := some (some "bob"), permissions := [.issueUpdate, .issueAssign] }

def openDesk : DeskConfig := ⟨oneIssue.state, [], []⟩

/-- The issue is assigned after the other request has read it. -/
def crossing : List DeskAction :=
  [.start () (.patch newBody), .start () (.patch assignBob), .run 0 {}] ++
    List.replicate 4 (.run 1 {}) ++ List.replicate 3 (.run 0 {})

def crossed : DeskConfig := (desk .pg).after openDesk crossing

/-- Two edits of different fields, both answered with success: the assignee is lost. -/
theorem assignee_lost : (desk .pg).Reaches always openDesk crossed ∧
    (crossed.threads.all fun t => t.prog matches .ret (.issue _ _)) = true ∧
    ¬ LastNamed crossed ⟨1⟩ triagedIssue .assignee := by
  refine ⟨after_reaches _, by decide +kernel, ?_⟩
  rintro ⟨row, hrow, -, hlast⟩
  have hstored : (crossed.state.issues.get ⟨1⟩).map Issue.assignee = some none := by decide +kernel
  have hnamed : ∃ k ∈ crossed.log, (named crossed ⟨1⟩ .assignee k).isSome = true := by
    decide +kernel
  have hnever : ∀ k ∈ crossed.log, named crossed ⟨1⟩ .assignee k ≠ some none := by decide +kernel
  obtain ⟨k, hk, hvalue, -⟩ := hlast hnamed
  rw [hrow, Option.map_some, Option.some.injEq] at hstored
  apply hnever k hk
  rw [hvalue]
  exact congrArg some hstored

/-- The same two requests, one after the other. -/
def inTurn : List DeskAction :=
  [.start () (.patch assignBob)] ++ List.replicate 4 (.run 0 {}) ++ [.start () (.patch newBody)] ++
    List.replicate 4 (.run 1 {})

def edited : DeskConfig := ((desk .pg).replayWhile unnamedAsRead openDesk inTurn).getD openDesk

theorem both_edits_kept :
    ((edited.state.issues.get ⟨1⟩).map fun row => (row.body, row.assignee)) =
        some ("fails on arm only", some "bob") ∧
      (∀ f, LastNamed edited ⟨1⟩ triagedIssue f) ∧
      ∀ c' i ch op (r : (desk .pg).Ran edited c' i ch op) req row,
        UnnamedAsRead edited (.run i ch) → r.act = .patch req →
        req.permissions.contains .issueAssign = false →
        edited.state.issues.get ⟨1⟩ = some row →
        ∃ row', c'.state.issues.get ⟨1⟩ = some row' ∧ row'.assignee = row.assignee := by
  have hdone : ((desk .pg).replayWhile unnamedAsRead openDesk inTurn).isSome = true := by
    decide +kernel
  have hc : (desk .pg).replayWhile unnamedAsRead openDesk inTurn = some edited :=
    (Option.some_get hdone).symm.trans (by rw [edited, Option.get_eq_getD])
  exact ⟨by decide +kernel, edits_kept ⟨rfl, rfl⟩ rfl (replayWhile_reaches hc)⟩

end Editors

end FleetOrchestrator.Issues
