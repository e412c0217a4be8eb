import FleetOrchestrator.Interleaving.Log
import FleetOrchestrator.Interleaving.Passage
import FleetOrchestrator.Scheduler.System
import FleetOrchestrator.Submissions.Handlers

/-! What is known of a task when it is handed to the dispatcher. -/

namespace FleetOrchestrator.Submissions

open Api Core Dashboard Issues Projects Scheduler Store Tables Interleaving Machine

/-- The call was made, and answered so. -/
def Told (h : History) (op : Op) (r : op.Resp) : Prop := (⟨op, r⟩ : Entry Op Op.Resp) ∈ h

def Accepting (h : History) (id : ProjectId) : Prop :=
  ∃ project, Told h (.getProject id) (.ok (some project)) ∧ project.status.acceptsNewTasks = true

/-- The rules of an admission, by what the calls have told. -/
structure Admitted (h : History) (parent : Option TaskId) (task : Task) : Prop where
  onePin : ∀ a, task.agentId = some a → task.serverHint = none
  agentProject : ∀ a, task.agentId = some a → ∃ agent,
    Told h (.getAgent a) (.ok (some agent)) ∧ task.projectId = some agent.projectId
  accepting : ∀ p, task.projectId = some p → Accepting h p
  cwd : ∃ raw, validateWorkspaceCwd task.cwd = .ok raw
  rootThread : parent = none → task.threadId = task.id
  parentThread : ∀ p, parent = some p → ∃ row,
    Told h (.getTask p) (.ok (some row)) ∧ task.threadId = row.threadId

def Given.toOption {α : Type} : Given α → Option α
  | .given a => some a
  | .absent | .malformed => none

/-- The form pins an agent, and the row of its parent names a server. -/
def CarriesHint (h : History) (form : SubmitTaskForm) : Prop :=
  (∃ a, form.agentId = .given a) ∧
    ∃ p row, form.parentTaskId = .given p ∧ Told h (.getTask p) (.ok (some row)) ∧
      row.serverHint ≠ none

section Parts

variable {h h' : History} {req req' : TaskRequest} {task task' : Task} {id : ProjectId}

theorem Told.later {op : Op} {r : op.Resp} (ht : Told h op r) (hs : h <:+ h') : Told h' op r :=
  hs.subset ht

theorem Accepting.later (ha : Accepting h id) (hs : h <:+ h') : Accepting h' id := by
  obtain ⟨project, ht, hp⟩ := ha
  exact ⟨project, ht.later hs, hp⟩

theorem project_accepts {project : Project}
    (hy : Yields (ensureProjectAcceptsNewTasks id) h (.ok project) h') : Accepting h' id := by
  obtain ⟨r, hy⟩ := yields_step hy
  cases r with
  | error e => cases hy
  | ok found =>
    cases found with
    | none => cases hy
    | some row =>
      dsimp only at hy
      split_ifs at hy with hn
      · cases hy
      · cases hy
        exact ⟨_, List.mem_cons_self, by simpa using hn⟩

/-- What the pin leaves of a request that it lets through. -/
theorem pin_applied (hy : Yields (applyAgentPin req) h (.ok req') h') :
    (req.agentId = none ∧ req' = req) ∨
      ∃ a agent, req.agentId = some a ∧ req.serverHint = none ∧
        Told h' (.getAgent a) (.ok (some agent)) ∧
          req' = { req with projectId := some agent.projectId } ∧
            (req.projectId = some agent.projectId ∨ Accepting h' agent.projectId) := by
  unfold applyAgentPin at hy
  cases ha : req.agentId with
  | none =>
    rw [ha] at hy
    cases hy
    exact .inl ⟨rfl, rfl⟩
  | some a =>
    rw [ha] at hy
    dsimp only at hy
    split_ifs at hy with hh
    · cases hy
    · have hhint : req.serverHint = none := by simpa using hh
      obtain ⟨r, hy⟩ := yields_step hy
      cases r with
      | error e => cases hy
      | ok found =>
        cases found with
        | none => cases hy
        | some agent =>
          have hagent : Told (⟨.getAgent a, .ok (some agent)⟩ :: h) (.getAgent a)
            (.ok (some agent)) := List.mem_cons_self
          dsimp only at hy
          refine .inr ⟨a, agent, rfl, hhint, ?_⟩
          cases hp : req.projectId with
          | none =>
            rw [hp] at hy
            obtain ⟨r, h₁, hensure, hy⟩ := yields_bind hy
            cases r with
            | error e => cases hy
            | ok project =>
              cases hy
              exact ⟨hagent.later hensure.suffix, rfl, .inr (project_accepts hensure)⟩
          | some p =>
            rw [hp] at hy
            dsimp only at hy
            split_ifs at hy with hne
            · cases hy
            · cases hy
              obtain rfl : p = agent.projectId := not_not.mp hne
              exact ⟨hagent, by rw [← hp, ← ha], .inl rfl⟩

theorem final_checked (hy : Yields (checkFinal task) h (.ok task') h') :
    task' = task ∧ (∀ p, task.projectId = some p → Accepting h' p) ∧
      ∃ raw, validateWorkspaceCwd task.cwd = .ok raw := by
  unfold checkFinal at hy
  cases hp : task.projectId with
  | none =>
    rw [hp] at hy
    cases hc : validateWorkspaceCwd task.cwd with
    | error e =>
      rw [hc] at hy
      cases hy
    | ok raw =>
      rw [hc] at hy
      cases hy
      refine ⟨rfl, ?_, raw, rfl⟩
      intro p hp'
      cases hp'
  | some p =>
    rw [hp] at hy
    obtain ⟨r, h₁, hensure, hy⟩ := yields_bind hy
    cases r with
    | error e => cases hy
    | ok project =>
      cases hc : validateWorkspaceCwd task.cwd with
      | error e =>
        rw [hc] at hy
        cases hy
      | ok raw =>
        rw [hc] at hy
        cases hy
        refine ⟨rfl, ?_, raw, rfl⟩
        rintro _ ⟨⟩
        exact project_accepts hensure

theorem parent_loaded {named : Given TaskId} {parent : Option Task}
    (hy : Yields (loadParent named) h (.ok parent) h') :
    (named = .absent ∧ parent = none) ∨
      ∃ p row, named = .given p ∧ parent = some row ∧ Told h' (.getTask p) (.ok (some row)) := by
  cases named with
  | absent =>
    cases hy
    exact .inl ⟨rfl, rfl⟩
  | malformed => cases hy
  | given p =>
    obtain ⟨r, hy⟩ := yields_step hy
    cases r with
    | error e => cases hy
    | ok found =>
      cases found with
      | none => cases hy
      | some row =>
        cases hy
        exact .inr ⟨p, row, rfl, rfl, List.mem_cons_self⟩

theorem task_built {sha256 : List UInt8 → String} {parent : Option Task}
    (hy : Yields (buildTask sha256 req parent) h (.ok task) h') :
    ∃ req' id now h₁, Yields (applyAgentPin req) h (.ok req') h₁ ∧ h₁ <:+ h' ∧
      Told h' .newTask (id, now) ∧ task = inherited (fromRequest sha256 id now req') parent ∧
        (∀ p, task.projectId = some p → Accepting h' p) ∧
          ∃ raw, validateWorkspaceCwd task.cwd = .ok raw := by
  obtain ⟨r, h₁, hpin, hy⟩ := yields_bind hy
  cases r with
  | error e => cases hy
  | ok req' =>
    obtain ⟨⟨id, now⟩, hy⟩ := yields_step hy
    have hlater : (⟨.newTask, (id, now)⟩ : Entry Op Op.Resp) :: h₁ <:+ h' := hy.suffix
    obtain ⟨rfl, haccepting, hcwd⟩ := final_checked hy
    exact ⟨req', id, now, h₁, hpin, (List.suffix_cons _ _).trans hlater,
      hlater.subset List.mem_cons_self, rfl, haccepting, hcwd⟩

theorem given_of_ok {α : Type} {msg : String} {g : Given α} {x : Option α}
    (hg : given? msg g = .ok x) : x = g.toOption := by
  cases g <;> cases hg <;> rfl

/-- What a form that is let through has gone through. -/
theorem form_admitted {sha256 : List UInt8 → String} {principal : Principal} {configured : Bool}
    {form : SubmitTaskForm}
    (hy : Yields (admitForm sha256 principal configured form) h (.ok task) h') :
    ∃ parent h₁, Yields (loadParent form.parentTaskId) h (.ok parent) h₁ ∧
      Yields (buildTask sha256 (formRequest principal.username form form.projectId.toOption
        form.agentId.toOption) parent) h₁ (.ok task) h' := by
  unfold admitForm at hy
  split_ifs at hy with hperm hcsrf hprompt hconf
  · cases hy
  · cases hy
  · cases hy
  · cases hy
  · obtain ⟨r, h₁, hparent, hy⟩ := yields_bind hy
    cases r with
    | error e => cases hy
    | ok parent =>
      dsimp only at hy
      cases hp : given? "invalid project_id" form.projectId with
      | error e =>
        rw [hp] at hy
        cases hy
      | ok projectId =>
        rw [hp] at hy
        dsimp only at hy
        cases ha : given? "invalid agent_id" form.agentId with
        | error e =>
          rw [ha] at hy
          cases hy
        | ok agentId =>
          rw [ha] at hy
          rw [← given_of_ok hp, ← given_of_ok ha]
          exact ⟨parent, h₁, hparent, hy⟩

theorem args_admitted {sha256 : List UInt8 → String} {createdBy : String} {args : DispatchArgs}
    (hy : Yields (admitArgs sha256 createdBy args) h (.ok task) h') :
    ∃ prompt projectId agentId req' id now h₁ h₂,
      (∃ raw, validateWorkspaceCwd args.cwd = .ok raw) ∧
        Yields (argsProject args.projectId) h (.ok projectId) h₁ ∧
          Yields (applyAgentPin (argsRequest createdBy prompt args projectId agentId)) h₁
            (.ok req') h₂ ∧ h₂ <:+ h' ∧ Told h' .newTask (id, now) ∧
              task = fromRequest sha256 id now req' := by
  unfold admitArgs at hy
  cases hprompt : args.prompt with
  | none =>
    rw [hprompt] at hy
    cases hy
  | some prompt =>
    rw [hprompt] at hy
    dsimp only at hy
    split_ifs at hy with hblank
    · cases hy
    · cases hc : validateWorkspaceCwd args.cwd with
      | error e =>
        rw [hc] at hy
        cases hy
      | ok raw =>
        rw [hc] at hy
        obtain ⟨r, h₁, hproject, hy⟩ := yields_bind hy
        cases r with
        | error e => cases hy
        | ok projectId =>
          dsimp only at hy
          cases ha : argsAgent args.agentId with
          | error e =>
            rw [ha] at hy
            cases hy
          | ok agentId =>
            rw [ha] at hy
            obtain ⟨r, h₂, hpin, hy⟩ := yields_bind hy
            cases r with
            | error e => cases hy
            | ok req' =>
              obtain ⟨⟨id, now⟩, hy⟩ := yields_step hy
              cases hy
              exact ⟨prompt, projectId, agentId, req', id, now, h₁, h₂, ⟨raw, rfl⟩, hproject, hpin,
                List.suffix_cons _ _, List.mem_cons_self, rfl⟩

theorem args_project {g : Arg ProjectId} {x : Option ProjectId}
    (hy : Yields (argsProject g) h (.ok x) h') : ∀ p, x = some p → Accepting h' p := by
  rintro p rfl
  cases g with
  | absent => cases hy
  | notText => cases hy
  | malformed => cases hy
  | given id =>
    obtain ⟨r, h₁, hensure, hy⟩ := yields_bind hy
    cases r with
    | error e => cases hy
    | ok project =>
      cases hy
      exact project_accepts hensure

end Parts

section Surfaces

variable {sha256 : List UInt8 → String} {h : History} {task : Task}

theorem tool_admitted {createdBy : String} {args : DispatchArgs}
    (hy : Yields (admitArgs sha256 createdBy args) [] (.ok task) h) : Admitted h none task := by
  obtain ⟨prompt, projectId, agentId, req', id, now, h₁, h₂, hcwd, hproject, hpin, hs, -, rfl⟩ :=
    args_admitted hy
  have hnamed := args_project hproject
  rcases pin_applied hpin with ⟨hnone, rfl⟩ | ⟨a, agent, ha, hhint, hagent, rfl, haccepting⟩
  · refine ⟨?_, ?_, ?_, hcwd, fun _ => rfl, ?_⟩
    · intro a ha
      cases hnone.symm.trans ha
    · intro a ha
      cases hnone.symm.trans ha
    · intro p hp
      exact ((hnamed p hp).later hpin.suffix).later hs
    · intro p hp
      cases hp
  · refine ⟨fun _ _ => hhint, ?_, ?_, hcwd, fun _ => rfl, ?_⟩
    · intro b hb
      obtain rfl : a = b := Option.some.inj (ha.symm.trans hb)
      exact ⟨agent, hagent.later hs, rfl⟩
    · rintro p ⟨⟩
      rcases haccepting with hgiven | haccepting
      · exact ((hnamed _ hgiven).later hpin.suffix).later hs
      · exact haccepting.later hs
    · intro p hp
      cases hp

/-- The calls that build a task. -/
def Looks : Op → Prop
  | .getProject _ | .getAgent _ | .newTask => True
  | .getTask _ | .insertTaskIdempotent _ | .dispatchInserted _ => False

theorem ensure_reads (id : ProjectId) : Uses Looks (ensureProjectAcceptsNewTasks id) := by
  apply uses_bind (uses_perform trivial)
  intro r
  cases r with
  | error e => trivial
  | ok found =>
    cases found with
    | none => trivial
    | some project =>
      dsimp only
      split_ifs <;> trivial

theorem pin_reads (req : TaskRequest) : Uses Looks (applyAgentPin req) := by
  unfold applyAgentPin
  cases req.agentId with
  | none => trivial
  | some a =>
    dsimp only
    split_ifs
    · trivial
    · apply uses_bind (uses_perform trivial)
      intro r
      cases r with
      | error e => trivial
      | ok found =>
        cases found with
        | none => trivial
        | some agent =>
          dsimp only
          cases req.projectId with
          | none =>
            apply uses_bind (ensure_reads agent.projectId)
            intro r
            cases r <;> trivial
          | some p =>
            dsimp only
            split_ifs <;> trivial

theorem final_reads (task : Task) : Uses Looks (checkFinal task) := by
  unfold checkFinal
  cases task.projectId with
  | none => trivial
  | some id =>
    apply uses_bind (ensure_reads id)
    intro r
    cases r <;> trivial

theorem build_reads (req : TaskRequest) (parent : Option Task) :
    Uses Looks (buildTask sha256 req parent) := by
  apply uses_bind (pin_reads req)
  intro r
  cases r with
  | error e => trivial
  | ok req' =>
    apply uses_bind (uses_perform trivial)
    intro r
    exact final_reads _

section Forms

variable {principal : Principal} {configured : Bool} {form : SubmitTaskForm} {parent : Option Task}
  {h₁ : History} {p : TaskId} {row : Task}

theorem load_told (hy : Yields (loadParent form.parentTaskId) [] (.ok parent) h₁)
    (ht : Told h₁ (.getTask p) (.ok (some row))) : parent = some row := by
  cases hg : form.parentTaskId with
  | absent =>
    rw [hg] at hy
    cases hy
    cases ht
  | malformed =>
    rw [hg] at hy
    cases hy
  | given q =>
    rw [hg] at hy
    obtain ⟨r, hy⟩ := yields_step hy
    cases r with
    | error e => cases hy
    | ok found =>
      cases found with
      | none => cases hy
      | some row' =>
        cases hy
        cases List.mem_singleton.mp ht
        rfl

/-- The rows of tasks that an admission has been told are the parent's, as it was loaded. -/
theorem told_parent {req : TaskRequest}
    (hparent : Yields (loadParent form.parentTaskId) [] (.ok parent) h₁)
    (hbuilt : Yields (buildTask sha256 req parent) h₁ (.ok task) h)
    (ht : Told h (.getTask p) (.ok (some row))) : parent = some row := by
  obtain ⟨new, rfl, hnew⟩ := hbuilt.obeyed
    (obeys_of_uses (φ := fun _ _ => True) (build_reads req parent) fun _ _ _ => trivial)
  rcases List.mem_append.mp ht with hn | ho
  · exact (hnew _ hn).elim
  · exact load_told hparent ho

theorem inherited_agentId (task : Task) (parent : Option Task) :
    (inherited task parent).agentId = task.agentId := by
  cases parent <;> rfl

theorem inherited_serverHint (task : Task) (parent : Option Task) :
    (inherited task parent).serverHint = task.serverHint.or (parent.bind Task.serverHint) := by
  cases parent with
  | none => exact (Option.or_none).symm
  | some row => rfl

theorem inherited_projectId {project : ProjectId} (parent : Option Task)
    (hp : task.projectId = some project) : (inherited task parent).projectId = some project := by
  cases parent with
  | none => exact hp
  | some row =>
    simp only [inherited, inheritFromParent]
    rw [hp, Option.some_or]

/-- A form that pins an agent names no server, and its task is in the agent's project. -/
theorem form_pinned {a : AgentId} (ha : form.agentId = .given a)
    (hbuilt : Yields (buildTask sha256 (formRequest principal.username form form.projectId.toOption
      form.agentId.toOption) parent) h₁ (.ok task) h) :
    task.agentId = some a ∧ task.serverHint = parent.bind Task.serverHint ∧
      ∃ agent, Told h (.getAgent a) (.ok (some agent)) ∧ task.projectId = some agent.projectId := by
  obtain ⟨req', id, now, h₂, hpin, hs, -, rfl, -, -⟩ := task_built hbuilt
  have hreq : (formRequest principal.username form form.projectId.toOption
      form.agentId.toOption).agentId = some a := by
    simp only [formRequest, ha, Given.toOption]
  rcases pin_applied hpin with ⟨hnone, -⟩ | ⟨b, agent, hb, hhint, hagent, rfl, -⟩
  · cases hnone.symm.trans hreq
  · obtain rfl : b = a := Option.some.inj (hb.symm.trans hreq)
    refine ⟨?_, ?_, agent, hagent.later hs, inherited_projectId parent rfl⟩
    · rw [inherited_agentId]
      exact hreq
    · have hown : (formRequest principal.username form form.projectId.toOption
          form.agentId.toOption).serverHint = none := hhint
      simp only [inherited_serverHint, fromRequest, hown, Option.none_or]

theorem form_unpinned (ha : form.agentId.toOption = none)
    (hbuilt : Yields (buildTask sha256 (formRequest principal.username form form.projectId.toOption
      form.agentId.toOption) parent) h₁ (.ok task) h) : task.agentId = none := by
  obtain ⟨req', id, now, h₂, hpin, -, -, rfl, -, -⟩ := task_built hbuilt
  rw [inherited_agentId]
  rcases pin_applied hpin with ⟨hnone, rfl⟩ | ⟨b, agent, hb, -⟩
  · exact hnone
  · cases hb.symm.trans ha

theorem toOption_some {α : Type} {g : Given α} {a : α} (h : g.toOption = some a) : g = .given a := by
  cases g <;> cases h
  rfl

/-- The task of a form: all the rules but that of the one pin hold, and that one unless the hint of
the parent has come in behind the check. -/
theorem form_rules (hy : Yields (admitForm sha256 principal configured form) [] (.ok task) h) :
    Admitted h form.parentTaskId.toOption task ↔ ¬ CarriesHint h form := by
  obtain ⟨parent, h₁, hparent, hbuilt⟩ := form_admitted hy
  have pinned {a : AgentId} (ha : task.agentId = some a) : form.agentId = .given a := by
    cases hg : form.agentId.toOption with
    | none => cases (form_unpinned hg hbuilt).symm.trans ha
    | some b =>
      have hb := toOption_some hg
      rw [hb]
      congr 1
      exact Option.some.inj ((form_pinned hb hbuilt).1.symm.trans ha)
  constructor
  · rintro hadmitted ⟨⟨a, ha⟩, p, row, -, hrow, hhint⟩
    obtain rfl := told_parent hparent hbuilt hrow
    obtain ⟨hagent, hserver, -⟩ := form_pinned ha hbuilt
    exact hhint (hserver.symm.trans (hadmitted.onePin a hagent))
  · intro hcarries
    obtain ⟨req', id, now, h₂, -, -, -, htask, haccepting, hcwd⟩ := task_built hbuilt
    refine ⟨?_, ?_, haccepting, hcwd, ?_, ?_⟩
    · intro a ha
      obtain ⟨-, hserver, -⟩ := form_pinned (pinned ha) hbuilt
      rw [hserver]
      rcases parent_loaded hparent with ⟨-, rfl⟩ | ⟨p, row, hp, rfl, hrow⟩
      · rfl
      · by_contra hhint
        exact hcarries ⟨⟨a, pinned ha⟩, p, row, hp, hrow.later hbuilt.suffix, hhint⟩
    · intro a ha
      exact (form_pinned (pinned ha) hbuilt).2.2
    · intro hroot
      rcases parent_loaded hparent with ⟨-, rfl⟩ | ⟨p, row, hp, -, -⟩
      · rw [htask]
        rfl
      · rw [hp] at hroot
        cases hroot
    · intro p hp
      rcases parent_loaded hparent with ⟨habsent, -⟩ | ⟨q, row, hq, rfl, hrow⟩
      · rw [habsent] at hp
        cases hp
      · rw [hq] at hp
        cases hp
        exact ⟨row, hrow.later hbuilt.suffix, by rw [htask]; rfl⟩

end Forms

end Surfaces

/-- The calls up to here are an admission, which ends with this task for the dispatcher. -/
def HandsOver (sha256 : List UInt8 → String) : Activity → History → Task → Prop
  | .submitTask principal configured form, past, task =>
    Yields (admitForm sha256 principal configured form) [] (.ok task) past
  | .dispatchTask createdBy args, past, task =>
    Yields (admitArgs sha256 createdBy args) [] (.ok task) past

def Activity.parent : Activity → Option TaskId
  | .submitTask _ _ form => form.parentTaskId.toOption
  | .dispatchTask _ _ => none

/-- The hint of a parent comes in behind the check of the pins. -/
def HintInherited (past : History) : Activity → Prop
  | .submitTask _ _ form => CarriesHint past form
  | .dispatchTask _ _ => False

/-- What a task is handed over with was so in the store, and meets the rules, all of them unless an
agent is pinned and the parent names a server. -/
theorem submissions_admitted {D : Deployment} {sha256 : List UInt8 → String}
    {c₀ c : SubmissionConfig} (h₀ : Fresh c₀) (h : (clients D sha256).Reaches always c₀ c) {i : ℕ}
    {past : History} (hp : past <:+ history c.log i) :
    (∀ op r, Told past op r → ∃ c₁ c₂ ch, (clients D sha256).Reaches always c₀ c₁ ∧
      (clients D sha256).Reaches always c₂ c ∧
        exec D.backend ch op c₁.state = some (r, c₂.state)) ∧
    ∀ act task, HandsOver sha256 act past task →
      (Admitted past act.parent task ↔ ¬ HintInherited past act) := by
  constructor
  · intro op r ht
    obtain ⟨h', hh⟩ := placed (hp.subset ht)
    obtain ⟨c₁, c₂, ch, r', hr, -, h₁, -, h₂⟩ := h.at_history h₀ hh
    have hdone := r'.done
    rw [hr] at hdone
    exact ⟨c₁, c₂, ch, h₁, h₂, hdone⟩
  · intro act task hh
    cases act with
    | submitTask principal configured form => exact form_rules hh
    | dispatchTask createdBy args => exact iff_of_true (tool_admitted hh) fun hf => hf

section Desk

def deskAgent : Agent :=
  { id := ⟨1⟩, projectId := ⟨1⟩, name := "reviewer", createdAt := 0, updatedAt := 0 }

/-- A task that was sent to one worker. -/
def hintedTask : Task :=
  { id := ⟨7⟩, prompt := "review", cwd := some "/work", serverHint := some "builder", createdAt := 0,
    createdBy := "ann", threadId := ⟨7⟩ }

def deskProject : Project := { id := ⟨1⟩, name := "fleet", createdAt := 0, updatedAt := 0 }

def desk : SubmissionConfig :=
  ⟨{ store := { StoreState.empty with
        tasks := ⟨[hintedTask], by decide⟩, agents := ⟨[deskAgent], by decide⟩ }
     projects := ⟨[deskProject], by decide⟩
     minted := [⟨7⟩] }, [], []⟩

/-- It is followed up, by an agent. -/
def reply : SubmitTaskForm :=
  { prompt := "go on", parentTaskId := .given ⟨7⟩, agentId := .given ⟨1⟩ }

def replied : List SubmissionAction :=
  [.start () (.submitTask { username := "ann" } true reply), .run 0 {}, .run 0 {}, .run 0 {},
    .run 0 { newId := ⟨8⟩ }, .run 0 {}]

def noDigest : List UInt8 → String := fun _ => ""

def repliedTask : Task :=
  { id := ⟨8⟩, prompt := "go on", cwd := some "/work", serverHint := some "builder",
    agentId := some ⟨1⟩, createdAt := 0, createdBy := "ann", threadId := ⟨7⟩,
    parentTaskId := some ⟨7⟩, projectId := some ⟨1⟩ }

theorem replied_handed_over : HandsOver noDigest (.submitTask { username := "ann" } true reply)
    (history ((clients solo noDigest).after desk replied).log 0) repliedTask :=
  .call (.ok (some hintedTask)) (.call (.ok (some deskAgent)) (.call (.ok (some deskProject))
    (.call (⟨8⟩, 0) (.call (.ok (some deskProject)) .ret))))

/-- The follow-up has both pins. -/
theorem reply_pinned_twice : ∃ c : SubmissionConfig, ∃ act past task,
    (clients solo noDigest).Reaches always desk c ∧ past <:+ history c.log 0 ∧
      c.threads[0]?.map Thread.act = some act ∧ HandsOver noDigest act past task ∧
        task.agentId = some ⟨1⟩ ∧ task.serverHint = some "builder" ∧
          ¬ Admitted past act.parent task := by
  refine ⟨(clients solo noDigest).after desk replied, _, _, repliedTask, after_reaches replied,
    List.suffix_rfl, rfl, replied_handed_over, rfl, rfl, ?_⟩
  intro hadmitted
  cases hadmitted.onePin ⟨1⟩ rfl

/-- Followed up without an agent it goes to the parent's server. -/
def plainReply : SubmitTaskForm :=
  { prompt := "go on", parentTaskId := .given ⟨7⟩, projectId := .given ⟨1⟩ }

def plainReplied : List SubmissionAction :=
  [.start () (.submitTask { username := "ann" } true plainReply), .run 0 {},
    .run 0 { newId := ⟨8⟩ }, .run 0 {}]

theorem plain_reply_admitted :
    ∃ task, HandsOver noDigest (.submitTask { username := "ann" } true plainReply)
      (history ((clients solo noDigest).after desk plainReplied).log 0) task ∧
        Admitted (history ((clients solo noDigest).after desk plainReplied).log 0) (some ⟨7⟩) task := by
  have hh : HandsOver noDigest (.submitTask { username := "ann" } true plainReply)
      (history ((clients solo noDigest).after desk plainReplied).log 0)
      { repliedTask with agentId := none } :=
    .call (.ok (some hintedTask)) (.call (⟨8⟩, 0) (.call (.ok (some deskProject)) .ret))
  refine ⟨_, hh, ((submissions_admitted ⟨rfl, rfl⟩ (after_reaches plainReplied)
    List.suffix_rfl).2 _ _ hh).mpr ?_⟩
  rintro ⟨⟨a, ha⟩, -⟩
  cases ha

end Desk

end FleetOrchestrator.Submissions
