import FleetOrchestrator.Issues.Issue

/-! How the stored status of an issue moves while any number of clients work on it. -/

namespace FleetOrchestrator.Issues

open Api Core Dashboard Tables Store Interleaving Machine

/-- The issue as its caller has read it last. -/
def lastRead (id : IssueId) : History → Option Issue
  | [] => none
  | ⟨.getIssue _, .ok (some issue)⟩ :: h => if issue.id = id then some issue else lastRead id h
  | _ :: h => lastRead id h

/-- A new issue is open; a transition is written by a caller that has checked it on its copy. -/
def Licensed (h : History) : Op → Prop
  | .createIssue issue => issue.status = .open ∧ issue.closeReason = none
  | .transitionIssue id status closeReason =>
    (closeReason.isSome = true ↔ status = .closed) ∧
      ∃ issue, lastRead id h = some issue ∧ Issue.transitionAllowed issue.status status = true
  | _ => True

section Conduct

variable {h : History} {Q : Reply → History → Prop}

theorem summary_obeys (issue : Issue) : Obeys Licensed (fun _ _ => True) (issueSummary issue) h := by
  apply obeys_step trivial
  intro r
  cases r with
  | error e => trivial
  | ok active => trivial

theorem loadIssue_obeys (id : IssueId) :
    Obeys Licensed (fun r h' => ∀ issue, r = .ok issue → lastRead issue.id h' = some issue)
      (loadIssue id) h := by
  apply obeys_step trivial
  intro r
  cases r with
  | error e =>
    intro issue hi
    cases hi
  | ok found =>
    cases found with
    | none =>
      intro issue hi
      cases hi
    | some issue' =>
      intro issue hi
      cases hi
      exact if_pos rfl

theorem reloaded_obeys (id : IssueId) : Obeys Licensed (fun _ _ => True) (reloaded id) h := by
  apply obeys_bind (loadIssue_obeys id)
  intro r h' _
  cases r with
  | error e => trivial
  | ok issue => exact summary_obeys issue

/-- The write of a transition that was checked on the copy is licensed. -/
theorem moved_licensed {issue moved : Issue} {target : IssueStatus}
    {closeReason : Option CloseReason} {now : ℤ}
    (hm : issue.transitionTo target closeReason now = .ok moved)
    (hi : lastRead issue.id h = some issue) :
    Licensed (⟨.readClock, now⟩ :: h) (.transitionIssue moved.id moved.status moved.closeReason) := by
  obtain ⟨ha, hr, rfl⟩ := Issue.transitionTo_ok hm
  exact ⟨hr, issue, hi, ha⟩

theorem transitionLoaded_obeys {issue : Issue} (target : IssueStatus)
    (closeReason : Option CloseReason) (hi : lastRead issue.id h = some issue) :
    Obeys Licensed (fun _ _ => True) (transitionLoaded issue target closeReason) h := by
  apply obeys_step trivial
  intro now
  cases hm : issue.transitionTo target closeReason now with
  | error e => trivial
  | ok moved =>
    apply obeys_step (moved_licensed hm hi)
    intro r
    cases r with
    | error e => trivial
    | ok found => exact reloaded_obeys moved.id

theorem transitionRead_obeys {issue : Issue} (target : IssueStatus)
    (closeReason : Option CloseReason) (hi : lastRead issue.id h = some issue) :
    Obeys Licensed (fun _ _ => True) (transitionRead issue target closeReason) h := by
  apply obeys_step trivial
  intro now
  cases hm : issue.transitionTo target closeReason now with
  | error e => trivial
  | ok moved =>
    apply obeys_step (moved_licensed hm hi)
    intro r
    cases r with
    | error e => trivial
    | ok found =>
      apply obeys_step trivial
      intro active
      cases active <;> trivial

theorem transitionIssueApi_obeys (req : TransitionRequest) :
    Obeys Licensed (fun _ _ => True) (transitionIssueApi req) h := by
  unfold transitionIssueApi
  split_ifs
  · trivial
  · dsimp only
    cases IssueStatus.parseStr (req.status.getD "") with
    | none => trivial
    | some target =>
      dsimp only
      split_ifs
      · trivial
      · cases formReason req.closeReason with
        | error msg => trivial
        | ok closeReason =>
          cases req.id with
          | none => trivial
          | some id =>
            apply obeys_bind (loadIssue_obeys id)
            intro r h' hr
            cases r with
            | error e => trivial
            | ok issue => exact transitionLoaded_obeys target closeReason (hr issue rfl)

theorem handleTransitionIssue_obeys (req : TransitionRequest) :
    Obeys Licensed (fun _ _ => True) (handleTransitionIssue req) h := by
  unfold handleTransitionIssue
  cases req.status with
  | none => trivial
  | some raw =>
    dsimp only
    cases IssueStatus.parseStr raw with
    | none => trivial
    | some target =>
      dsimp only
      split_ifs
      · trivial
      · cases argReason req.closeReason with
        | error msg => trivial
        | ok closeReason =>
          cases req.id with
          | none => trivial
          | some id =>
            apply obeys_step trivial
            intro r
            cases r with
            | error e => trivial
            | ok found =>
              cases found with
              | none => trivial
              | some issue => exact transitionRead_obeys target closeReason (if_pos rfl)

theorem program_obeys (a : Activity) : Obeys Licensed (fun _ _ => True) (program a) h := by
  cases a with
  | create id projectId title createdBy =>
    apply obeys_step trivial
    intro now
    apply obeys_step ⟨rfl, rfl⟩
    intro r
    cases r with
    | error e => trivial
    | ok u => exact summary_obeys _
  | update id patch =>
    apply obeys_bind (loadIssue_obeys id)
    intro r h' _
    cases r with
    | error e => trivial
    | ok issue =>
      apply obeys_step trivial
      intro r
      cases r with
      | error e => trivial
      | ok found => exact reloaded_obeys issue.id
  | transitionApi req => exact transitionIssueApi_obeys req
  | transitionTool req => exact handleTransitionIssue_obeys req

end Conduct

theorem disciplined (b : Backend) :
    (clients b).Disciplined (fun _ _ => Licensed) fun _ _ _ _ => True :=
  fun _ a => program_obeys a

/-- A close reason is stored exactly while the issue is closed. -/
def ReasonsMatch (s : World) : Prop :=
  ∀ id issue, s.issues.get id = some issue →
    (issue.closeReason.isSome = true ↔ issue.status = .closed)

/-- What the caller writes of an issue's status goes by the status that is stored. -/
def asRead (c : IssueConfig) : IssueAction → Bool
  | .run i _ =>
    match c.next i with
    | some (.transitionIssue id _ _) =>
      (c.state.issues.get id).all fun row =>
        (lastRead id (history c.log i)).any fun read => read.status = row.status
    | _ => true
  | _ => true

abbrev AsRead (c : IssueConfig) (x : IssueAction) : Prop := asRead c x = true

section Steps

variable {b : Backend} {ch : Choice} {op : Op} {s s' : World} {r : op.Resp} {h : History}

/-- The rows after a store call: a new one, or the old ones with the fields or the status of one
written. -/
inductive Writes (s s' : World) : Op → Prop
  | nothing {op : Op} (h : s'.issues = s.issues) : Writes s s' op
  | created {issue : Issue} (hn : s.issues.get issue.id = none)
      (h : s'.issues = s.issues.put issue) : Writes s s' (.createIssue issue)
  | edited {issue : Issue} (h : s'.issues = (s.setFields issue).issues) :
      Writes s s' (.updateIssueFields issue)
  | moved {id : IssueId} {status : IssueStatus} {closeReason : Option CloseReason}
      (h : s'.issues = (s.setStatus id status closeReason).issues) :
      Writes s s' (.transitionIssue id status closeReason)

theorem attempt_snd {α : Type} {k : Except StoreError α × World} :
    (attempt ch s k).2 = s ∨ (attempt ch s k).2 = k.2 := by
  unfold attempt
  cases ch.fault with
  | some e => exact .inl rfl
  | none => exact .inr rfl

theorem exec_writes (he : exec b ch op s = some (r, s')) : Writes s s' op := by
  have attempted {α : Type} {k : Except StoreError α × World} {r : Except StoreError α}
      (he : some (attempt ch s k) = some (r, s')) : s' = s ∨ s' = k.2 := by
    have hs : (attempt ch s k).2 = s' := congrArg Prod.snd (Option.some.inj he)
    rw [← hs]
    exact attempt_snd
  cases op with
  | readClock =>
    cases he
    exact .nothing rfl
  | getIssue id =>
    apply Writes.nothing
    rcases attempted he with rfl | rfl <;> rfl
  | issueHasActiveTasks id =>
    apply Writes.nothing
    rcases attempted he with rfl | rfl <;> rfl
  | createIssue issue =>
    simp only [exec, Option.ite_none_left_eq_some] at he
    obtain ⟨hn, he⟩ := he
    rw [Keyed.contains_eq, Bool.not_eq_true, Option.isSome_eq_false_iff, Option.isNone_iff_eq_none]
      at hn
    rcases attempted he with rfl | rfl
    · exact .nothing rfl
    · exact .created hn rfl
  | updateIssueFields issue =>
    rcases attempted he with rfl | rfl
    · exact .nothing rfl
    · exact .edited rfl
  | transitionIssue id status closeReason =>
    rcases attempted he with rfl | rfl
    · exact .nothing rfl
    · split_ifs
      · exact .nothing rfl
      · exact .moved rfl

/-- What becomes of one row. -/
theorem writes_row (hw : Writes s s' op) (id : IssueId) :
    s'.issues.get id = s.issues.get id ∨
      (∃ issue, op = .createIssue issue ∧ s.issues.get id = none ∧ s'.issues.get id = some issue) ∨
      (∃ issue, op = .updateIssueFields issue ∧
        s'.issues.get id = (s.issues.get id).map fun row => row.withFieldsOf issue s.now) ∨
      ∃ status closeReason, op = .transitionIssue id status closeReason ∧
        s'.issues.get id = (s.issues.get id).map (Issue.moved s.now status closeReason) := by
  cases hw with
  | nothing h => exact .inl (by rw [h])
  | @created issue hn h =>
    by_cases hi : id = issue.id
    · subst hi
      exact .inr (.inl ⟨issue, rfl, hn, by rw [h, Keyed.get_put_self]⟩)
    · exact .inl (by rw [h, Keyed.get_put_ne hi])
  | @edited issue h =>
    rw [h]
    by_cases hi : id = issue.id
    · subst hi
      exact .inr (.inr (.inl ⟨issue, rfl, s.get_setFields_self issue⟩))
    · exact .inl (s.get_setFields_ne id issue hi)
  | @moved j status closeReason h =>
    rw [h]
    by_cases hi : id = j
    · subst hi
      exact .inr (.inr (.inr ⟨status, closeReason, rfl, s.get_setStatus_self id status closeReason⟩))
    · exact .inl (s.get_setStatus_ne j id status closeReason hi)

theorem writes_match (hw : Writes s s' op) (hl : Licensed h op) (hm : ReasonsMatch s) :
    ReasonsMatch s' := by
  intro id issue' hg
  obtain he | ⟨issue, rfl, -, he⟩ | ⟨issue, -, he⟩ | ⟨status, closeReason, rfl, he⟩ := writes_row hw id
  · exact hm id issue' (he.symm.trans hg)
  · rw [he] at hg
    cases hg
    simp [hl.1, hl.2]
  · rw [he, Option.map_eq_some_iff] at hg
    obtain ⟨row, hrow, rfl⟩ := hg
    exact hm id row hrow
  · rw [he, Option.map_eq_some_iff] at hg
    obtain ⟨row, -, rfl⟩ := hg
    exact hl.1

/-- The status of a row is changed by a transition only, to the status that it writes. -/
theorem writes_status (hw : Writes s s' op) {id : IssueId} {row row' : Issue}
    (hrow : s.issues.get id = some row) (hrow' : s'.issues.get id = some row') :
    row'.status = row.status ∨ ∃ closeReason, op = .transitionIssue id row'.status closeReason := by
  obtain he | ⟨issue, -, hn, -⟩ | ⟨issue, -, he⟩ | ⟨status, closeReason, ho, he⟩ := writes_row hw id
  · rw [he, hrow] at hrow'
    cases hrow'
    exact .inl rfl
  · rw [hn] at hrow
    cases hrow
  · rw [he, hrow] at hrow'
    cases hrow'
    exact .inl rfl
  · rw [he, hrow] at hrow'
    cases hrow'
    exact .inr ⟨closeReason, ho⟩

end Steps

section Runs

variable {b : Backend} {cond : IssueConfig → IssueAction → Prop} {c₀ c c' : IssueConfig}
  {x : IssueAction}

theorem reasons_match (h₀ : Fresh c₀) (hm : ReasonsMatch c₀.state)
    (h : (clients b).Reaches cond c₀ c) : ReasonsMatch c.state := by
  apply h.invariant (P := fun c => ReasonsMatch c.state) hm
  intro c x c' hr _ hs ih
  cases x with
  | start p a =>
    have he : some c.state = some c'.state := (step_start hs).1
    rwa [← Option.some.inj he]
  | env n =>
    have he : some { c.state with now := c.state.now + n } = some c'.state := (step_env hs).1
    rw [← Option.some.inj he]
    exact ih
  | run i ch =>
    obtain ⟨op, ⟨r⟩⟩ := step_run hs
    exact writes_match (exec_writes r.done) (r.licensed (disciplined b) h₀ hr) ih

/-- One step of a run, where the stored status is the one that the writer has read. -/
theorem step_allowed (h₀ : Fresh c₀) (h : (clients b).Reaches cond c₀ c) (hx : AsRead c x)
    (hs : (clients b).step c x = some c') {id : IssueId} {row row' : Issue}
    (hrow : c.state.issues.get id = some row) (hrow' : c'.state.issues.get id = some row') :
    row'.status = row.status ∨ Issue.transitionAllowed row.status row'.status = true := by
  cases x with
  | start p a =>
    have he : some c.state = some c'.state := (step_start hs).1
    rw [← Option.some.inj he, hrow] at hrow'
    cases hrow'
    exact .inl rfl
  | env n =>
    have he : some { c.state with now := c.state.now + n } = some c'.state := (step_env hs).1
    rw [← Option.some.inj he] at hrow'
    cases hrow.symm.trans hrow'
    exact .inl rfl
  | run i ch =>
    obtain ⟨op, ⟨r⟩⟩ := step_run hs
    rcases writes_status (exec_writes r.done) hrow hrow' with hsame | ⟨closeReason, rfl⟩
    · exact .inl hsame
    · obtain ⟨-, read, hread, hallowed⟩ := r.licensed (disciplined b) h₀ h
      have hstored : read.status = row.status := by
        simpa only [AsRead, asRead, r.next, hrow, hread, Option.all_some, Option.any_some,
          decide_eq_true_eq] using hx
      exact .inr (hstored ▸ hallowed)

end Runs

/-- In every run a close reason is stored exactly while the issue is closed; and where a transition
is only written while the stored status is the one it was checked against, the status moves only
along allowed transitions. -/
theorem issue_moves {b : Backend} {c₀ : IssueConfig} (h₀ : Fresh c₀) (hm : ReasonsMatch c₀.state) :
    (∀ c, (clients b).Reaches always c₀ c → ReasonsMatch c.state) ∧
      ∀ c x c', (clients b).Reaches AsRead c₀ c → AsRead c x → (clients b).step c x = some c' →
        ∀ id row row', c.state.issues.get id = some row → c'.state.issues.get id = some row' →
          row'.status = row.status ∨ Issue.transitionAllowed row.status row'.status = true := by
  constructor
  · exact fun c h => reasons_match h₀ hm h
  · intro c x c' h hx hs id row row' hrow hrow'
    exact step_allowed h₀ h hx hs hrow hrow'

section Clients

def triagedIssue : Issue :=
  { id := ⟨1⟩, projectId := ⟨1⟩, title := "flaky build", status := .triaged, createdBy := "ann",
    createdAt := 0, updatedAt := 0 }

def oneIssue : IssueConfig := ⟨{ issues := ⟨[triagedIssue], by decide⟩ }, [], []⟩

def request (status : IssueStatus) (closeReason : Option CloseReason) : TransitionRequest :=
  { id := some ⟨1⟩, status := some status.asStr, closeReason := closeReason.map CloseReason.asStr,
    permissions := [.issueApproveAgentWork, .issueClose] }

/-- One client closes the issue; the other has read it before, and approves it for agents. -/
def bothRead : List IssueAction :=
  [.start () (.transitionApi (request .readyForAgent none)),
    .start () (.transitionTool (request .closed (some .wontFix)))] ++
    List.replicate 2 (.run 0 {}) ++ List.replicate 3 (.run 1 {})

theorem oneIssue_match : ReasonsMatch oneIssue.state := by
  intro id issue h
  obtain ⟨hm, -⟩ := Keyed.get_eq_some.mp h
  obtain rfl := List.mem_singleton.mp hm
  simp [triagedIssue]

theorem triaged_issue_closed :
    (∀ c, (clients .pg).Reaches always oneIssue c → ReasonsMatch c.state) ∧
      ∀ c x c', (clients .pg).Reaches AsRead oneIssue c → AsRead c x →
        (clients .pg).step c x = some c' → ∀ id row row', c.state.issues.get id = some row →
          c'.state.issues.get id = some row' →
            row'.status = row.status ∨ Issue.transitionAllowed row.status row'.status = true :=
  issue_moves ⟨rfl, rfl⟩ oneIssue_match

/-- The closed issue becomes ready for agents. -/
theorem closed_issue_ready : ∃ c c' : IssueConfig, ∃ x row row',
    (clients .pg).Reaches always oneIssue c ∧ (clients .pg).step c x = some c' ∧
      c.state.issues.get ⟨1⟩ = some row ∧ c'.state.issues.get ⟨1⟩ = some row' ∧
        row.status = .closed ∧ row'.status = .readyForAgent ∧
          Issue.transitionAllowed row.status row'.status = false :=
  ⟨(clients .pg).after oneIssue bothRead, (clients .pg).after oneIssue (bothRead ++ [.run 0 {}]),
    .run 0 {}, _, _, after_reaches bothRead, after_step rfl, rfl, rfl, rfl, rfl, rfl⟩

end Clients

end FleetOrchestrator.Issues
