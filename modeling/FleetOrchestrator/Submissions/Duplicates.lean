import FleetOrchestrator.Store.SubmissionRuns
import FleetOrchestrator.Submissions.Admission

/-! Submissions that are answered with an earlier task. -/

namespace FleetOrchestrator.Submissions

open Api Core Dashboard Issues Projects Scheduler Store Tables Interleaving Machine

def Inserts : Op → Prop
  | .insertTaskIdempotent _ => True
  | .getTask _ | .getProject _ | .getAgent _ | .newTask | .dispatchInserted _ => False

/-- A task is inserted by the one that has drawn its id, once. -/
def Licensed (h : History) : Op → Prop
  | .insertTaskIdempotent t =>
    (∃ now, Told h .newTask (t.id, now)) ∧ ∀ e ∈ h, ¬ Inserts e.op
  | _ => True

section Conduct

variable {D : Deployment} {sha256 : List UInt8 → String} {h h' : History} {task : Task}

theorem licensed_of_quiet {op : Op} (ho : ¬ Inserts op) : Licensed h op := by
  cases op with
  | insertTaskIdempotent t => exact absurd trivial ho
  | _ => trivial

theorem quiet_of_looks {op : Op} (ho : Looks op) : ¬ Inserts op := by
  cases op <;> first | exact fun h => h | exact ho.elim

theorem form_quiet (principal : Principal) (configured : Bool) (form : SubmitTaskForm) :
    Uses (fun op => ¬ Inserts op) (admitForm sha256 principal configured form) := by
  unfold admitForm
  apply uses_ite (uses_ret _)
  apply uses_ite (uses_ret _)
  apply uses_ite (uses_ret _)
  apply uses_ite (uses_ret _)
  apply uses_bind
  · cases form.parentTaskId with
    | absent => trivial
    | malformed => trivial
    | given p =>
      apply uses_bind (uses_perform fun h => h)
      intro r
      cases r with
      | error e => trivial
      | ok found => cases found <;> trivial
  · intro r
    cases r with
    | error e => trivial
    | ok parent =>
      dsimp only
      cases given? "invalid project_id" form.projectId with
      | error e => trivial
      | ok projectId =>
        dsimp only
        cases given? "invalid agent_id" form.agentId with
        | error e => trivial
        | ok agentId => exact uses_mono (build_reads _ _) fun _ => quiet_of_looks

theorem args_quiet (createdBy : String) (args : DispatchArgs) :
    Uses (fun op => ¬ Inserts op) (admitArgs sha256 createdBy args) := by
  unfold admitArgs
  cases args.prompt with
  | none => exact uses_ret _
  | some prompt =>
    apply uses_ite (uses_ret _)
    cases validateWorkspaceCwd args.cwd with
    | error e => exact uses_ret _
    | ok raw =>
      apply uses_bind
      · cases args.projectId with
        | absent => trivial
        | notText => trivial
        | malformed => trivial
        | given id =>
          apply uses_bind (uses_mono (ensure_reads id) fun _ => quiet_of_looks)
          intro r
          cases r <;> trivial
      · intro r
        cases r with
        | error e => trivial
        | ok projectId =>
          dsimp only
          cases argsAgent args.agentId with
          | error e => trivial
          | ok agentId =>
            apply uses_bind (uses_mono (pin_reads _) fun _ => quiet_of_looks)
            intro r
            cases r with
            | error e => trivial
            | ok req => exact ⟨fun h => h, fun _ => trivial⟩

theorem inherited_id (task : Task) (parent : Option Task) : (inherited task parent).id = task.id := by
  cases parent <;> rfl

/-- The id of a task that is handed over has been drawn for it. -/
theorem handed_drawn {a : Activity} (hh : HandsOver sha256 a h task) :
    ∃ now, Told h .newTask (task.id, now) := by
  cases a with
  | submitTask principal configured form =>
    obtain ⟨parent, h₁, -, hbuilt⟩ := form_admitted hh
    obtain ⟨req', id, now, h₂, -, -, hdrawn, rfl, -, -⟩ := task_built hbuilt
    exact ⟨now, by rwa [inherited_id]⟩
  | dispatchTask createdBy args =>
    obtain ⟨prompt, projectId, agentId, req', id, now, h₁, h₂, -, -, -, -, hdrawn, rfl⟩ :=
      args_admitted hh
    exact ⟨now, hdrawn⟩

theorem submit_licensed {now : ℤ} (ht : Told h .newTask (task.id, now))
    (hn : ∀ e ∈ h, ¬ Inserts e.op) :
    Obeys Licensed (fun _ _ => True) (submit D task) h := by
  unfold submit
  cases validateWorkspaceCwd task.cwd with
  | error e => trivial
  | ok raw =>
    apply obeys_step ⟨⟨now, ht⟩, hn⟩
    intro r
    cases r with
    | error e => trivial
    | ok o =>
      cases o with
      | duplicate existing => trivial
      | conflict existing => trivial
      | inserted =>
        apply obeys_step trivial
        intro r
        cases r <;> trivial

/-- An admission inserts nothing, and what it ends with is licensed to be inserted. -/
theorem admission_licensed {ε : Type} {p : Call (Except ε Task)}
    (hu : Uses (fun op => ¬ Inserts op) p)
    (hd : ∀ task h, Yields p [] (.ok task) h → ∃ now, Told h .newTask (task.id, now)) :
    Obeys Licensed (fun r h => (∀ task, r = .ok task → ∃ now, Told h .newTask (task.id, now)) ∧
      ∀ e ∈ h, ¬ Inserts e.op) p [] := by
  have hgrew := obeys_of_uses (φ := Licensed) (h := []) hu fun _ _ => licensed_of_quiet
  have hboth := obeys_and hgrew (obeys_yields hgrew)
  apply obeys_mono hboth
  · exact fun _ _ ho => ho.1
  · rintro r h ⟨⟨new, rfl, hnew⟩, hy⟩
    constructor
    · rintro task rfl
      exact hd task _ hy
    · intro e he
      rw [List.append_nil] at he
      exact hnew e he

theorem program_licensed (a : Activity) :
    Obeys Licensed (fun _ _ => True) (program D sha256 a) [] := by
  cases a with
  | submitTask principal configured form =>
    apply obeys_bind (admission_licensed (form_quiet principal configured form)
      fun task h hy => handed_drawn (a := .submitTask principal configured form) hy)
    intro r h hr
    cases r with
    | error e => trivial
    | ok task =>
      obtain ⟨now, hdrawn⟩ := hr.1 task rfl
      apply obeys_bind (submit_licensed hdrawn hr.2)
      intro o h' _
      cases o with
      | ok id => exact ⟨trivial, fun _ => trivial⟩
      | error e => cases e <;> trivial
  | dispatchTask createdBy args =>
    apply obeys_bind (admission_licensed (args_quiet createdBy args)
      fun task h hy => handed_drawn (a := .dispatchTask createdBy args) hy)
    intro r h hr
    cases r with
    | error e => trivial
    | ok task =>
      obtain ⟨now, hdrawn⟩ := hr.1 task rfl
      apply obeys_bind (submit_licensed hdrawn hr.2)
      intro o h' _
      cases o with
      | ok id => exact ⟨trivial, fun _ => trivial⟩
      | error e => trivial

/-- A finished request has done what its program yields. -/
theorem disciplined (D : Deployment) (sha256 : List UInt8 → String) :
    (clients D sha256).Disciplined (fun _ _ => Licensed)
      fun _ a out h => Yields (program D sha256 a) [] out h :=
  fun _ a => obeys_yields (program_licensed a)

end Conduct

/-- The requests meet a store all of whose task ids were drawn. -/
structure Start (c₀ : SubmissionConfig) : Prop where
  fresh : Fresh c₀
  drawn : ∀ t ∈ c₀.state.store.tasks.rows, t.id ∈ c₀.state.minted

section Steps

variable {b : Backend} {ch : Choice} {w w' : World} {t : Task} {id : TaskId}

/-- What the insertion makes of the tables and answers. -/
theorem insert_answers (b : Backend) (s : StoreState) (rank : TaskId → ℕ) (t : Task) :
    (b.insertTaskIdempotent s rank t = (.ok .inserted, withTask s (b.insertedRow t)) ∧
      s.tasks.get t.id = none) ∨
    (∃ o, Judged s t o ∧ b.insertTaskIdempotent s rank t = (.ok o, s)) ∨
    ∃ e, b.insertTaskIdempotent s rank t = (.error e, s) := by
  cases b with
  | mem =>
    rcases insertLocked_cases s rank t with ⟨-, hn, he⟩ | ⟨o, ho, he⟩ | ⟨-, he⟩
    · exact .inl ⟨he, hn⟩
    · exact .inr (.inl ⟨o, ho, he⟩)
    · exact .inr (.inr ⟨_, he⟩)
  | pg =>
    have free : s.tasks.contains t.id = false → s.tasks.get t.id = none := by
      intro hc
      simpa [Keyed.contains_eq] using hc
    simp only [Backend.insertTaskIdempotent, PgStore.insertTaskIdempotent]
    cases hk : t.idempotencyKey with
    | none =>
      cases hc : s.tasks.contains t.id with
      | true => exact .inr (.inr ⟨_, rfl⟩)
      | false => exact .inl ⟨rfl, free hc⟩
    | some key =>
      rcases find_scope s rank hk with ⟨a, hf, ha, hs⟩ | ⟨hf, -⟩
      · exact .inr (.inl ⟨judgeExisting t a, judged_existing ha hs, by simp only [hf]⟩)
      · simp only [hf]
        cases hc : s.tasks.contains t.id with
        | true => exact .inr (.inr ⟨_, rfl⟩)
        | false => exact .inl ⟨rfl, free hc⟩

/-- What an answer says of the rows. -/
def Answered (s : StoreState) : Entry Op Op.Resp → Prop
  | ⟨.getTask id, .ok (some row)⟩ => s.tasks.get id = some row
  | ⟨.insertTaskIdempotent t, .ok o⟩ => Judged s t o
  | ⟨.newTask, _⟩ => False
  | ⟨.dispatchInserted _, .error (.idempotencyConflict _ _)⟩ => False
  | _ => True

inductive Effect (b : Backend) (w w' : World) : Entry Op Op.Resp → Prop
  | drawn {id : TaskId} {now : ℤ} (hn : id ∉ w.minted) (hm : w'.minted = id :: w.minted)
      (hs : w'.store.tasks = w.store.tasks) : Effect b w w' ⟨.newTask, (id, now)⟩
  | inserted {t : Task} (hn : w.store.tasks.get t.id = none) (hm : w'.minted = w.minted)
      (hs : w'.store.tasks = w.store.tasks.put (b.insertedRow t)) :
      Effect b w w' ⟨.insertTaskIdempotent t, .ok .inserted⟩
  | told {e : Entry Op Op.Resp} (hm : w'.minted = w.minted) (hs : w'.store.tasks = w.store.tasks)
      (ha : Answered w.store e) : Effect b w w' e

theorem Effect.minted {e : Entry Op Op.Resp} (h : Effect b w w' e) : w.minted ⊆ w'.minted := by
  cases h with
  | drawn hn hm hs => exact hm ▸ List.subset_cons_self _ _
  | inserted hn hm hs => exact hm ▸ fun _ h => h
  | told hm hs ha => exact hm ▸ fun _ h => h

theorem exec_effect {op : Op} {r : op.Resp} (he : exec b ch op w = some (r, w')) :
    Effect b w w' ⟨op, r⟩ := by
  cases op with
  | newTask =>
    simp only [exec, Option.ite_none_left_eq_some] at he
    obtain ⟨hn, he⟩ := he
    cases he
    exact .drawn (by simpa using hn) rfl rfl
  | getTask id =>
    cases hf : ch.fault <;> simp only [exec, attempt, hf] at he <;> cases he
    · apply Effect.told rfl rfl
      cases hg : w.store.tasks.get id with
      | none => trivial
      | some row => exact hg
    · exact .told rfl rfl trivial
  | getProject id =>
    cases hf : ch.fault <;> simp only [exec, attempt, hf] at he <;> cases he <;>
      exact .told rfl rfl trivial
  | getAgent id =>
    cases hf : ch.fault <;> simp only [exec, attempt, hf] at he <;> cases he <;>
      exact .told rfl rfl trivial
  | insertTaskIdempotent t =>
    cases hf : ch.fault with
    | some e =>
      simp only [exec, attempt, hf] at he
      cases he
      exact .told rfl rfl trivial
    | none =>
      simp only [exec, attempt, hf] at he
      rcases insert_answers b w.store ch.taskRank t with ⟨hi, hn⟩ | ⟨o, ho, hi⟩ | ⟨e, hi⟩
      · rw [hi] at he
        cases he
        exact .inserted hn rfl rfl
      · rw [hi] at he
        cases he
        exact .told rfl rfl ho
      · rw [hi] at he
        cases he
        exact .told rfl rfl trivial
  | dispatchInserted t =>
    cases hd : ch.notDispatched with
    | none =>
      simp only [exec, hd] at he
      cases he
      exact .told rfl rfl trivial
    | some e =>
      simp only [exec, hd] at he
      cases e <;> cases he <;> exact .told rfl rfl trivial

end Steps

section Runs

variable {D : Deployment} {sha256 : List UInt8 → String}
  {cond : SubmissionConfig → SubmissionAction → Prop} {c₀ c c' : SubmissionConfig}
  {x : SubmissionAction} {id : TaskId} {t : Task}

def Draws (id : TaskId) (e : Entry Op Op.Resp) : Prop := ∃ now, e = ⟨.newTask, (id, now)⟩

def Stores (t : Task) (e : Entry Op Op.Resp) : Prop := e = ⟨.insertTaskIdempotent t, .ok .inserted⟩

theorem ran_effect {i : ℕ} {ch : Choice} {op : Op} (r : (clients D sha256).Ran c c' i ch op) :
    Effect D.backend c.state c'.state ⟨op, r.resp⟩ := exec_effect r.done

theorem minted_step (hs : (clients D sha256).step c x = some c') :
    c.state.minted ⊆ c'.state.minted := by
  cases x with
  | start p a =>
    have he : some c.state = some c'.state := (step_start hs).1
    rw [← Option.some.inj he]
    exact fun _ h => h
  | env o =>
    have he := (step_env hs).1
    simp only [clients, Option.ite_none_right_eq_some] at he
    obtain ⟨-, he⟩ := he
    rw [← Option.some.inj he]
    exact fun _ h => h
  | run i ch =>
    obtain ⟨op, ⟨r⟩⟩ := step_run hs
    exact (ran_effect r).minted

theorem minted_reaches (h : (clients D sha256).Reaches cond c₀ c) :
    c₀.state.minted ⊆ c.state.minted :=
  h.invariant (P := fun c => c₀.state.minted ⊆ c.state.minted) (fun _ h => h)
    fun _ _ _ _ _ hs ih _ h => minted_step hs (ih h)

theorem drawn_minted (h₀ : Start c₀) (h : (clients D sha256).Reaches cond c₀ c) :
    ∀ k ∈ c.log, Draws id k.entry → id ∈ c.state.minted ∧ id ∉ c₀.state.minted := by
  apply h.logged (P := fun c k => Draws id k.entry → id ∈ c.state.minted ∧ id ∉ c₀.state.minted)
    h₀.fresh
  · rintro c c' i ch op r hr - - ⟨now, he⟩
    have heffect := ran_effect r
    have he' : (⟨op, r.resp⟩ : Entry Op Op.Resp) = ⟨.newTask, (id, now)⟩ := he
    rw [he'] at heffect
    cases heffect with
    | drawn hn hm hs => exact ⟨hm ▸ List.mem_cons_self, fun h => hn (minted_reaches hr h)⟩
    | told hm hs ha => exact ha.elim
  · intro c x c' k hr _ hs _ ih hd
    exact ⟨minted_step hs (ih hd).1, (ih hd).2⟩

theorem drawn_once (h₀ : Start c₀) (h : (clients D sha256).Reaches cond c₀ c) (id : TaskId) :
    Once (fun k => Draws id k.entry) c.log := by
  apply h.invariant (P := fun c => Once (fun k => Draws id k.entry) c.log)
  · rw [h₀.fresh.log]
    exact once_nil
  · intro c x c' hr _ hs ih
    cases x with
    | start p a => rwa [(step_start hs).2.2]
    | env o => rwa [(step_env hs).2.2]
    | run i ch =>
      obtain ⟨op, ⟨r⟩⟩ := step_run hs
      rw [r.log]
      apply ih.cons
      rintro ⟨now, he⟩ k hk hd
      have heffect := ran_effect r
      have he' : (⟨op, r.resp⟩ : Entry Op Op.Resp) = ⟨.newTask, (id, now)⟩ := he
      rw [he'] at heffect
      cases heffect with
      | drawn hn hm hs => exact hn (drawn_minted h₀ hr k hk hd).1
      | told hm hs ha => exact ha.elim

/-- The id is that of a task of the beginning, or of one that a request has stored. -/
def Spent (c₀ c : SubmissionConfig) (id : TaskId) : Prop :=
  id ∈ c₀.state.minted ∨ ∃ k ∈ c.log, ∃ t, Stores t k.entry ∧ t.id = id

theorem Spent.step (h : Spent c₀ c id) (hs : (clients D sha256).step c x = some c') :
    Spent c₀ c' id := by
  rcases h with hm | ⟨k, hk, hstores⟩
  · exact .inl hm
  · exact .inr ⟨k, (step_log hs).subset hk, hstores⟩

/-- No other task is inserted under the id of a task. -/
theorem insert_unspent (h₀ : Start c₀) (h : (clients D sha256).Reaches cond c₀ c) {i : ℕ}
    {ch : Choice} (r : (clients D sha256).Ran c c' i ch (.insertTaskIdempotent t)) :
    ¬ Spent c₀ c t.id := by
  obtain ⟨⟨now, hdrawn⟩, hquiet⟩ := r.licensed (disciplined D sha256) h₀.fresh h
  obtain ⟨k, hk, rfl, he⟩ := mem_history.mp hdrawn
  rintro (hm | ⟨k', hk', u, hstores, hu⟩)
  · exact (drawn_minted h₀ h k hk ⟨now, he⟩).2 hm
  · obtain ⟨l, hl⟩ := placed hk'
    obtain ⟨-, -, -, hlicence⟩ := logged_licence (disciplined D sha256) h₀.fresh h hl
    rw [show k'.op = .insertTaskIdempotent u from congrArg Entry.op hstores] at hlicence
    obtain ⟨⟨now', hdrawn'⟩, -⟩ := hlicence
    obtain ⟨m, hm, hmt, hme⟩ := mem_history.mp hdrawn'
    obtain rfl := (drawn_once h₀ h t.id).eq hk
      (((List.suffix_cons k' l).trans hl).subset hm) ⟨now, he⟩ ⟨now', hu ▸ hme⟩
    have hmine : k'.entry ∈ history c.log k.thread := mem_history.mpr ⟨k', hk', hmt.symm, rfl⟩
    apply hquiet _ hmine
    rw [show k'.entry.op = .insertTaskIdempotent u from congrArg Entry.op hstores]
    trivial

theorem lasting_insertedRow (b : Backend) (t : Task) : lasting (b.insertedRow t) = lasting t := by
  cases b <;> rfl

/-- Where a row comes from. -/
theorem row_step (hs : (clients D sha256).step c x = some c') {row' : Task}
    (hrow' : c'.state.store.tasks.get id = some row') :
    (∃ row, c.state.store.tasks.get id = some row ∧ lasting row = lasting row') ∨
      ∃ i ch t, ∃ r : (clients D sha256).Ran c c' i ch (.insertTaskIdempotent t),
        r.resp = .ok .inserted ∧ t.id = id ∧ lasting row' = lasting t := by
  cases x with
  | start p a =>
    have he : some c.state = some c'.state := (step_start hs).1
    rw [← Option.some.inj he] at hrow'
    exact .inl ⟨row', hrow', rfl⟩
  | env o =>
    have he := (step_env hs).1
    simp only [clients, Option.ite_none_right_eq_some] at he
    obtain ⟨hkeeps, he⟩ := he
    rw [← Option.some.inj he] at hrow'
    obtain ⟨hmem, hid⟩ := Keyed.get_eq_some.mp hrow'
    have hkept := List.all_eq_true.mp hkeeps row' hmem
    simp only [Option.any_eq_true, decide_eq_true_eq] at hkept
    obtain ⟨row, hrow, hlasting⟩ := hkept
    exact .inl ⟨row, hid ▸ hrow, hlasting⟩
  | run i ch =>
    obtain ⟨op, ⟨r⟩⟩ := step_run hs
    have same (ht : c'.state.store.tasks = c.state.store.tasks) :
        ∃ row, c.state.store.tasks.get id = some row ∧ lasting row = lasting row' :=
      ⟨row', ht ▸ hrow', rfl⟩
    have heffect := ran_effect r
    generalize he : (⟨op, r.resp⟩ : Entry Op Op.Resp) = e at heffect
    cases heffect with
    | drawn hn hm ht => exact .inl (same ht)
    | told hm ht ha => exact .inl (same ht)
    | @inserted t hn hm ht =>
      by_cases hi : id = t.id
      · obtain rfl : op = .insertTaskIdempotent t := congrArg Entry.op he
        have hresp : r.resp = .ok .inserted := eq_of_heq (Entry.mk.inj he).2
        rw [ht, hi, ← @insertedRow_id D.backend t, Keyed.get_put_self] at hrow'
        cases hrow'
        exact .inr ⟨i, ch, t, r, hresp, hi.symm, lasting_insertedRow _ t⟩
      · rw [ht, Keyed.get_put_ne (by rwa [insertedRow_id])] at hrow'
        exact .inl ⟨row', hrow', rfl⟩

theorem rows_spent (h₀ : Start c₀) (h : (clients D sha256).Reaches cond c₀ c) :
    ∀ id row, c.state.store.tasks.get id = some row → Spent c₀ c id := by
  apply h.invariant (P := fun c => ∀ id row, c.state.store.tasks.get id = some row → Spent c₀ c id)
  · intro id row hrow
    obtain ⟨hmem, rfl⟩ := Keyed.get_eq_some.mp hrow
    exact .inl (h₀.drawn row hmem)
  · intro c x c' hr _ hs ih id row' hrow'
    rcases row_step hs hrow' with ⟨row, hrow, -⟩ | ⟨i, ch, t, r, hresp, hid, -⟩
    · exact (ih id row hrow).step hs
    · refine .inr ⟨⟨i, r.party, _, r.resp⟩, ?_, t, ?_, hid⟩
      · rw [r.log]
        exact List.mem_cons_self
      · rw [hresp]
        rfl

/-- What is known of the tasks, by what has been told of them. -/
structure Ledger (c₀ c : SubmissionConfig) (known : TaskId → Option Lasting) : Prop where
  spent : ∀ id l, known id = some l → Spent c₀ c id
  row : ∀ id l row, known id = some l → c.state.store.tasks.get id = some row → lasting row = l

/-- The answer is in keeping with what is known. -/
def Consistent (known : TaskId → Option Lasting) : Entry Op Op.Resp → Prop
  | ⟨.getTask id, .ok (some row)⟩ => known id = some (lasting row)
  | ⟨.insertTaskIdempotent t, .ok .inserted⟩ => known t.id = some (lasting t)
  | ⟨.insertTaskIdempotent t, .ok (.duplicate existing)⟩ =>
    known existing.id = some (lasting existing) ∧ sameScope t existing = true ∧
      existing.idempotencyPayloadHash = t.idempotencyPayloadHash
  | ⟨.insertTaskIdempotent t, .ok (.conflict id)⟩ => ∃ existing, existing.id = id ∧
      known id = some (lasting existing) ∧ sameScope t existing = true ∧
        existing.idempotencyPayloadHash ≠ t.idempotencyPayloadHash
  | ⟨.dispatchInserted _, .error (.idempotencyConflict _ _)⟩ => False
  | _ => True

def Extends (known more : TaskId → Option Lasting) : Prop :=
  ∀ id l, known id = some l → more id = some l

theorem Consistent.extend {known more : TaskId → Option Lasting} {e : Entry Op Op.Resp}
    (h : Consistent known e) (hm : Extends known more) : Consistent more e := by
  obtain ⟨op, r⟩ := e
  cases op with
  | getTask id =>
    cases r with
    | error e => trivial
    | ok found =>
      cases found with
      | none => trivial
      | some row => exact hm _ _ h
  | insertTaskIdempotent t =>
    cases r with
    | error e => trivial
    | ok o =>
      cases o with
      | inserted => exact hm _ _ h
      | duplicate existing => exact ⟨hm _ _ h.1, h.2⟩
      | conflict id =>
        obtain ⟨existing, hid, hk, hrest⟩ := h
        exact ⟨existing, hid, hm _ _ hk, hrest⟩
  | dispatchInserted t =>
    cases r with
    | ok u => trivial
    | error e => cases e <;> exact h
  | getProject id => trivial
  | getAgent id => trivial
  | newTask => trivial

theorem Ledger.step {known : TaskId → Option Lasting} (hl : Ledger c₀ c known) (h₀ : Start c₀)
    (h : (clients D sha256).Reaches cond c₀ c) (hs : (clients D sha256).step c x = some c') :
    Ledger c₀ c' known where
  spent id l hk := (hl.spent id l hk).step hs
  row id l row' hk hrow' := by
    rcases row_step hs hrow' with ⟨row, hrow, he⟩ | ⟨i, ch, t, r, -, hid, -⟩
    · rw [← he]
      exact hl.row id l row hk hrow
    · exact absurd (hid ▸ hl.spent id l hk) (insert_unspent h₀ h r)

/-- All rows are known from now on. -/
def learn (known : TaskId → Option Lasting) (c : SubmissionConfig) (id : TaskId) : Option Lasting :=
  (known id).or ((c.state.store.tasks.get id).map lasting)

theorem learn_extends (known : TaskId → Option Lasting) (c : SubmissionConfig) :
    Extends known (learn known c) := by
  intro id l hk
  rw [learn, hk, Option.some_or]

theorem Ledger.learned {known : TaskId → Option Lasting} (hl : Ledger c₀ c known) {row : Task}
    (hrow : c.state.store.tasks.get id = some row) : learn known c id = some (lasting row) := by
  unfold learn
  cases hk : known id with
  | none => rw [hrow, Option.none_or, Option.map_some]
  | some l => rw [Option.some_or, hl.row id l row hk hrow]

theorem Ledger.learn {known : TaskId → Option Lasting} (hl : Ledger c₀ c known) (h₀ : Start c₀)
    (h : (clients D sha256).Reaches cond c₀ c) : Ledger c₀ c (learn known c) := by
  constructor
  · intro id l hk
    unfold Submissions.learn at hk
    cases hg : known id with
    | some l' => exact hl.spent id l' hg
    | none =>
      rw [hg, Option.none_or, Option.map_eq_some_iff] at hk
      obtain ⟨row, hrow, -⟩ := hk
      exact rows_spent h₀ h id row hrow
  · intro id l row hk hrow
    rw [hl.learned hrow] at hk
    exact Option.some.inj hk

theorem effect_consistent {w : World} {known : TaskId → Option Lasting} {e : Entry Op Op.Resp}
    (he : Effect D.backend w c.state e) (hl : Ledger c₀ c known) :
    Consistent (learn known c) e := by
  cases he with
  | drawn hn hm hs => trivial
  | @inserted t hn hm hs =>
    have hrow : c.state.store.tasks.get t.id = some (D.backend.insertedRow t) := by
      rw [hs, ← @insertedRow_id D.backend t, Keyed.get_put_self]
    exact (hl.learned hrow).trans (congrArg some (lasting_insertedRow D.backend t))
  | told hm hs ha =>
    have known_row {row : Task} (hmem : row ∈ w.store.tasks.rows) :
        learn known c row.id = some (lasting row) :=
      hl.learned (hs ▸ Keyed.get_of_mem hmem)
    obtain ⟨op, r⟩ := e
    cases op with
    | getTask id =>
      cases r with
      | error e => trivial
      | ok found =>
        cases found with
        | none => trivial
        | some row =>
          have hget : w.store.tasks.get id = some row := ha
          exact hl.learned (hs ▸ hget)
    | insertTaskIdempotent t =>
      cases r with
      | error e => trivial
      | ok o =>
        cases o with
        | inserted => exact ha.elim
        | duplicate existing =>
          obtain ⟨hmem, hscope, hhash⟩ := ha
          exact ⟨known_row hmem, hscope, hhash⟩
        | conflict id =>
          obtain ⟨existing, hmem, rfl, hscope, hhash⟩ := ha
          exact ⟨existing, rfl, known_row hmem, hscope, hhash⟩
    | dispatchInserted t =>
      cases r with
      | ok u => trivial
      | error e => cases e <;> exact ha
    | getProject id => trivial
    | getAgent id => trivial
    | newTask => trivial

theorem ledger_nothing (c₀ c : SubmissionConfig) : Ledger c₀ c fun _ => none where
  spent id l hk := by cases hk
  row id l row hk := by cases hk

/-- All that the requests are told of the tasks fits together. -/
def FitsTogether (c₀ c : SubmissionConfig) : Prop :=
  ∃ known, Ledger c₀ c known ∧ ∀ k ∈ c.log, Consistent known k.entry

theorem fits_together (h₀ : Start c₀) (h : (clients D sha256).Reaches cond c₀ c) :
    FitsTogether c₀ c := by
  apply h.invariant (P := FitsTogether c₀)
  · refine ⟨fun _ => none, ledger_nothing c₀ c₀, ?_⟩
    intro k hk
    rw [h₀.fresh.log] at hk
    cases hk
  · rintro c x c' hr hx hs ⟨known, hl, hc⟩
    have hl' := hl.step h₀ hr hs
    cases x with
    | start p a => exact ⟨known, hl', by rwa [(step_start hs).2.2]⟩
    | env o => exact ⟨known, hl', by rwa [(step_env hs).2.2]⟩
    | run i ch =>
      obtain ⟨op, ⟨r⟩⟩ := step_run hs
      refine ⟨learn known c', hl'.learn h₀ (.tail _ hr hx hs), ?_⟩
      intro k hk
      rw [r.log] at hk
      rcases List.mem_cons.mp hk with rfl | hk
      · exact effect_consistent (ran_effect r) hl'
      · exact (hc k hk).extend (learn_extends known c')

end Runs

/-- The thread that a task continues; one without a parent starts its own. -/
def continued (t : Task) : Option TaskId := t.parentTaskId.map fun _ => t.threadId

/-- The same work, whoever does it. -/
structure SameWork (t u : Task) : Prop where
  prompt : t.prompt = u.prompt
  parent : t.parentTaskId = u.parentTaskId
  thread : continued t = continued u
  project : t.projectId = u.projectId
  cwd : t.cwd = u.cwd
  model : t.model = u.model
  server : t.serverHint = u.serverHint
  agent : t.agentId = u.agentId
  maxTurns : t.maxTurns = u.maxTurns
  timeoutSecs : t.timeoutSecs = u.timeoutSecs
  priority : t.priority = u.priority

/-- The thread submits the form and has come as far as the task that it makes of it; the request is
the one that is hashed, and the parent the row that was loaded. -/
structure Built (sha256 : List UInt8 → String) (c : SubmissionConfig) (i : ℕ)
    (principal : Principal) (form : SubmitTaskForm) (req : TaskRequest) (parent : Option Task)
    (task : Task) : Prop where
  submits : ∃ q configured prog past,
    c.threads[i]? = some ⟨q, .submitTask principal configured form, prog⟩ ∧
      past <:+ history c.log i ∧
        Yields (admitForm sha256 principal configured form) [] (.ok task) past
  asked : ∃ h h', Yields (applyAgentPin (formRequest principal.username form
    form.projectId.toOption form.agentId.toOption)) h (.ok req) h'
  made : ∃ id now, task = inherited (fromRequest sha256 id now req) parent
  loaded : form.parentTaskId.toOption = parent.map Task.id
  told : ∀ row, parent = some row → Told (history c.log i) (.getTask row.id) (.ok (some row))

def AnsweredWith (reply : Reply) (id : TaskId) : Prop := ∃ dispatched, reply = .submitted id dispatched true

def RefusedFor (reply : Reply) (key : String) (id : TaskId) : Prop :=
  reply = .failed (.conflict (conflictMessage key id))

section Replies

variable {D : Deployment} {sha256 : List UInt8 → String} {h h' past : History} {task : Task}
  {principal : Principal} {configured : Bool} {form : SubmitTaskForm} {id : TaskId}

/-- What the dispatcher answers, by what the insertion was answered. -/
theorem submit_answers {r : Except DispatchError TaskId} (hy : Yields (submit D task) h r h') :
    (∃ msg, r = .error (.invalidRequest msg)) ∨
      ∃ o, Told h' (.insertTaskIdempotent (Dispatcher.routed D task)) o ∧
        match o with
        | .error e => r = .error (.store e.message)
        | .ok (.duplicate existing) => r = .ok existing.id
        | .ok (.conflict id) => r = .error (.idempotencyConflict (task.idempotencyKey.getD "") id)
        | .ok .inserted => r = .ok task.id ∨
          ∃ e, r = .error e ∧ Told h' (.dispatchInserted (Dispatcher.routed D task)) (.error e) := by
  unfold submit at hy
  cases hc : validateWorkspaceCwd task.cwd with
  | error e =>
    rw [hc] at hy
    cases hy
    exact .inl ⟨_, rfl⟩
  | ok raw =>
    rw [hc] at hy
    obtain ⟨o, hy⟩ := yields_step hy
    refine .inr ⟨o, hy.suffix.subset List.mem_cons_self, ?_⟩
    cases o with
    | error e =>
      cases hy
      rfl
    | ok o =>
      cases o with
      | duplicate existing =>
        cases hy
        rfl
      | conflict id =>
        cases hy
        rfl
      | inserted =>
        obtain ⟨d, hy⟩ := yields_step hy
        cases d with
        | error e =>
          cases hy
          exact .inr ⟨e, rfl, List.mem_cons_self⟩
        | ok u =>
          cases hy
          exact .inl rfl

/-- What a form is answered, by what the dispatcher answered. -/
theorem form_answers {reply : Reply}
    (hy : Yields (submitTaskApi D sha256 principal configured form) [] reply h)
    (ha : Yields (admitForm sha256 principal configured form) [] (.ok task) past)
    (hp : past <:+ h) :
    ∃ r h₁ h₂, Yields (submit D task) h₁ r h₂ ∧ h₂ <:+ h ∧
      match r with
      | .ok id => ∃ dispatched, reply = .submitted id dispatched (id ≠ task.id)
      | .error (.idempotencyConflict key existing) =>
        reply = .failed (.conflict (conflictMessage key existing))
      | .error e => reply = .notDispatched task.id e.message := by
  obtain ⟨r, h₁, hadmit, hy⟩ := yields_bind hy
  obtain ⟨rfl, rfl⟩ := hadmit.unique ha hy.suffix hp
  obtain ⟨o, h₂, hsubmit, hy⟩ := yields_bind hy
  refine ⟨o, _, h₂, hsubmit, hy.suffix, ?_⟩
  cases o with
  | ok id =>
    obtain ⟨found, hy⟩ := yields_step hy
    cases hy
    exact ⟨_, rfl⟩
  | error e => cases e <;> cases hy <;> rfl

theorem conflictMessage_injective {key : String} {x y : TaskId}
    (h : conflictMessage key x = conflictMessage key y) : x = y := by
  have htext : toString x.uuid = toString y.uuid :=
    (String.append_right_inj _).mp ((String.append_left_inj ")").mp h)
  cases x
  cases y
  exact congrArg TaskId.mk (toString_injective htext)

/-- Who is answered with another task has run into it. -/
theorem met_duplicate {reply : Reply}
    (hy : Yields (submitTaskApi D sha256 principal configured form) [] reply h)
    (ha : Yields (admitForm sha256 principal configured form) [] (.ok task) past)
    (hp : past <:+ h) (hr : AnsweredWith reply id) :
    ∃ existing, Told h (.insertTaskIdempotent (Dispatcher.routed D task))
      (.ok (.duplicate existing)) ∧ existing.id = id := by
  obtain ⟨d, rfl⟩ := hr
  obtain ⟨r, h₁, h₂, hsubmit, hs, hreply⟩ := form_answers hy ha hp
  rcases submit_answers hsubmit with ⟨msg, rfl⟩ | ⟨o, ht, ho⟩
  · cases hreply
  · cases o with
    | error e =>
      subst ho
      cases hreply
    | ok o =>
      cases o with
      | duplicate existing =>
        subst ho
        obtain ⟨d', hd⟩ := hreply
        injection hd with hid
        exact ⟨existing, ht.later hs, hid.symm⟩
      | conflict x =>
        subst ho
        cases hreply
      | inserted =>
        rcases ho with rfl | ⟨e, rfl, -⟩
        · obtain ⟨d', hd⟩ := hreply
          simp at hd
        · cases e <;> cases hreply

theorem met_conflict {reply : Reply} {known : TaskId → Option Lasting}
    (hy : Yields (submitTaskApi D sha256 principal configured form) [] reply h)
    (ha : Yields (admitForm sha256 principal configured form) [] (.ok task) past)
    (hp : past <:+ h) (hk : ∀ e ∈ h, Consistent known e)
    (hr : RefusedFor reply (task.idempotencyKey.getD "") id) :
    Told h (.insertTaskIdempotent (Dispatcher.routed D task)) (.ok (.conflict id)) := by
  obtain ⟨r, h₁, h₂, hsubmit, hs, hreply⟩ := form_answers hy ha hp
  rw [hr] at hreply
  rcases submit_answers hsubmit with ⟨msg, rfl⟩ | ⟨o, ht, ho⟩
  · cases hreply
  · cases o with
    | error e =>
      subst ho
      cases hreply
    | ok o =>
      cases o with
      | duplicate existing =>
        subst ho
        obtain ⟨d', hd⟩ := hreply
        cases hd
      | conflict x =>
        subst ho
        have hmessage : conflictMessage (task.idempotencyKey.getD "") id =
            conflictMessage (task.idempotencyKey.getD "") x := by
          injection hreply with hreply
          injection hreply
        obtain rfl := conflictMessage_injective hmessage
        exact ht.later hs
      | inserted =>
        rcases ho with rfl | ⟨e, rfl, hd⟩
        · obtain ⟨d', hd⟩ := hreply
          cases hd
        · have hconsistent := hk _ (hd.later hs)
          cases e <;> first | cases hreply | exact hconsistent.elim

end Replies

section Agreement

variable {sha256 : List UInt8 → String} {c : SubmissionConfig} {i j : ℕ}
  {p₁ p₂ principal : Principal} {form₁ form₂ form : SubmitTaskForm} {req₁ req₂ req : TaskRequest}
  {parent₁ parent₂ parent : Option Task} {task₁ task₂ task : Task}

/-- What the pin leaves of the request. -/
theorem Built.asks (h : Built sha256 c i principal form req parent task) :
    req.Filled ∧ req.parentTaskId = none := by
  have filled (s : Option String) : nonEmpty s ≠ some "" := by
    intro hs
    simp [nonEmpty, Option.filter_eq_some_iff] at hs
  obtain ⟨h₁, h₂, hy⟩ := h.asked
  rcases pin_applied hy with ⟨-, rfl⟩ | ⟨a, agent, -, -, -, rfl, -⟩
  · exact ⟨⟨filled _, filled _, filled _⟩, rfl⟩
  · exact ⟨⟨filled _, filled _, filled _⟩, rfl⟩

theorem Built.key (h : Built sha256 c i principal form req parent task) :
    task.idempotencyPayloadHash = task.idempotencyKey.map fun _ => req.payloadHash sha256 := by
  obtain ⟨id, now, rfl⟩ := h.made
  cases parent <;> rfl

theorem Built.parentTaskId (h : Built sha256 c i principal form req parent task) :
    task.parentTaskId = form.parentTaskId.toOption := by
  obtain ⟨id, now, rfl⟩ := h.made
  rw [h.loaded]
  cases parent with
  | none => exact h.asks.2
  | some row => rfl

/-- One request, followed up in one thread, is one piece of work. -/
theorem same_work (h₁ : Built sha256 c i p₁ form₁ req₁ parent₁ task₁)
    (h₂ : Built sha256 c j p₂ form₂ req₂ parent₂ task₂) (hr : SameRequest req₁ req₂)
    (hp : parent₁.map lasting = parent₂.map lasting) : SameWork task₁ task₂ := by
  have hroot₁ := h₁.asks.2
  have hroot₂ := h₂.asks.2
  obtain ⟨id₁, now₁, rfl⟩ := h₁.made
  obtain ⟨id₂, now₂, rfl⟩ := h₂.made
  cases parent₁ with
  | none =>
    cases parent₂ with
    | some row => cases hp
    | none =>
      refine ⟨hr.prompt, hroot₁.trans hroot₂.symm, ?_, hr.projectId, hr.cwd, hr.model,
        hr.serverHint, hr.agentId, hr.maxTurns, hr.timeoutSecs, hr.priority⟩
      simp only [continued, inherited, fromRequest, hroot₁, hroot₂, Option.map_none]
  | some row₁ =>
    cases parent₂ with
    | none => cases hp
    | some row₂ =>
      simp only [Option.map_some, Option.some.injEq, lasting, Lasting.mk.injEq, stamp,
        Prod.mk.injEq] at hp
      obtain ⟨⟨hid, -⟩, hthread, hhint, hcwd, hmodel, hproject⟩ := hp
      constructor
      · exact hr.prompt
      · exact congrArg some hid
      · exact congrArg some hthread
      · simp only [inherited, inheritFromParent, fromRequest, hr.projectId, hproject]
      · simp only [inherited, inheritFromParent, fromRequest, hr.cwd, hcwd]
      · simp only [inherited, inheritFromParent, fromRequest, hr.model, hmodel]
      · simp only [inherited, inheritFromParent, fromRequest, hr.serverHint, hhint]
      · exact hr.agentId
      · exact hr.maxTurns
      · exact hr.timeoutSecs
      · exact hr.priority

/-- What is known of one task is the same for all who were told of it. -/
theorem parents_agree {known : TaskId → Option Lasting}
    (hk : ∀ i, ∀ e ∈ history c.log i, Consistent known e)
    (h₁ : Built sha256 c i p₁ form₁ req₁ parent₁ task₁)
    (h₂ : Built sha256 c j p₂ form₂ req₂ parent₂ task₂)
    (hp : form₁.parentTaskId.toOption = form₂.parentTaskId.toOption) :
    parent₁.map lasting = parent₂.map lasting := by
  rw [h₁.loaded, h₂.loaded] at hp
  cases hp₁ : parent₁ with
  | none =>
    rw [hp₁] at hp
    cases hp₂ : parent₂ with
    | none => rfl
    | some row =>
      rw [hp₂] at hp
      cases hp
  | some row₁ =>
    rw [hp₁] at hp
    cases hp₂ : parent₂ with
    | none =>
      rw [hp₂] at hp
      cases hp
    | some row₂ =>
      rw [hp₂] at hp
      have hknown₁ : known row₁.id = some (lasting row₁) := hk i _ (h₁.told row₁ hp₁)
      have hknown₂ : known row₂.id = some (lasting row₂) := hk j _ (h₂.told row₂ hp₂)
      rw [Option.some.inj hp, hknown₂] at hknown₁
      exact hknown₁.symm

theorem scope_keys {t other : Task} (h : sameScope t other = true) :
    ∃ key, t.idempotencyKey = some key ∧ other.idempotencyKey = some key := by
  unfold sameScope at h
  cases hk : t.idempotencyKey with
  | none =>
    rw [hk] at h
    cases h
  | some key =>
    rw [hk] at h
    simp only [sameKey, Bool.and_eq_true, decide_eq_true_eq] at h
    exact ⟨key, rfl, h.2⟩

end Agreement

/-- Of two submissions the second of which runs into the task of the first: it is answered with that
task only for the same work, and any other is refused, exactly where both name the same parent or
their requests differ. -/
theorem duplicates_agree {D : Deployment} {sha256 : List UInt8 → String} {c₀ c : SubmissionConfig}
    (h₀ : Start c₀) (h : (clients D sha256).Reaches always c₀ c) {i j : ℕ}
    {p₁ p₂ : Principal} {form₁ form₂ : SubmitTaskForm} {req₁ req₂ : TaskRequest}
    {parent₁ parent₂ : Option Task} {task₁ task₂ : Task} {reply : Reply}
    (h₁ : Built sha256 c i p₁ form₁ req₁ parent₁ task₁)
    (h₂ : Built sha256 c j p₂ form₂ req₂ parent₂ task₂)
    (hstored : ∃ e ∈ history c.log i, Stores (Dispatcher.routed D task₁) e)
    (hreply : (c.threads[j]?).map Thread.prog = some (.ret reply))
    (hmet : AnsweredWith reply task₁.id ∨
      RefusedFor reply (task₂.idempotencyKey.getD "") task₁.id)
    (hfits₁ : req₁.Fits) (hfits₂ : req₂.Fits)
    (hsha : sha256 req₁.payload = sha256 req₂.payload → req₁.payload = req₂.payload) :
    ((AnsweredWith reply task₁.id → SameWork task₁ task₂) ∧
      (¬ SameWork task₁ task₂ → RefusedFor reply (task₂.idempotencyKey.getD "") task₁.id)) ↔
    (form₁.parentTaskId.toOption = form₂.parentTaskId.toOption ∨ req₁.payload ≠ req₂.payload) := by
  obtain ⟨known, -, hlog⟩ := fits_together h₀ h
  have hk : ∀ i, ∀ e ∈ history c.log i, Consistent known e := by
    intro i e he
    obtain ⟨k, hk, -, rfl⟩ := mem_history.mp he
    exact hlog k hk
  have hfirst : known task₁.id = some (lasting task₁) := by
    obtain ⟨e, he, hs⟩ := hstored
    have hc := hk i e he
    rw [hs] at hc
    exact hc
  obtain ⟨q, configured, prog, past, ht, hpast, hadmit⟩ := h₂.submits
  obtain rfl : prog = .ret reply := by simpa [ht] using hreply
  have hy : Yields (submitTaskApi D sha256 p₂ configured form₂) [] reply (history c.log j) :=
    returned (disciplined D sha256) h₀.fresh h ht
  have hashed {existing : Task} (hl : lasting existing = lasting task₁)
      (hs : sameScope (Dispatcher.routed D task₂) existing = true) :
      existing.idempotencyPayloadHash = some (sha256 req₁.payload) ∧
        task₂.idempotencyPayloadHash = some (sha256 req₂.payload) := by
    obtain ⟨key, hkey₂, hkey⟩ := scope_keys hs
    have hstamp : stamp existing = stamp task₁ := congrArg Lasting.stamp hl
    simp only [stamp, Prod.mk.injEq] at hstamp
    have hkey₁ : task₁.idempotencyKey = some key := hstamp.2.2.1.symm.trans hkey
    have hkey₂' : task₂.idempotencyKey = some key := hkey₂
    rw [hstamp.2.2.2, h₁.key, h₂.key, hkey₁, hkey₂']
    exact ⟨rfl, rfl⟩
  have hduplicate (hr : AnsweredWith reply task₁.id) : req₁.payload = req₂.payload := by
    obtain ⟨existing, ht, hid⟩ := met_duplicate hy hadmit hpast hr
    obtain ⟨hknown, hscope, hhash⟩ := hk j _ ht
    rw [hid, hfirst] at hknown
    obtain ⟨hhash₁, hhash₂⟩ := hashed (Option.some.inj hknown).symm hscope
    have hsame : existing.idempotencyPayloadHash = task₂.idempotencyPayloadHash := hhash
    rw [hhash₁, hhash₂] at hsame
    exact hsha (Option.some.inj hsame)
  have hconflict (hr : RefusedFor reply (task₂.idempotencyKey.getD "") task₁.id) :
      req₁.payload ≠ req₂.payload := by
    obtain ⟨existing, hid, hknown, hscope, hhash⟩ := hk j _ (met_conflict hy hadmit hpast (hk j) hr)
    rw [hfirst] at hknown
    obtain ⟨hhash₁, hhash₂⟩ := hashed (Option.some.inj hknown).symm hscope
    intro hpayload
    apply hhash
    have hsame : task₂.idempotencyPayloadHash = some (sha256 req₁.payload) := by
      rw [hhash₂, hpayload]
    exact hhash₁.trans hsame.symm
  constructor
  · rintro ⟨hsame, -⟩
    by_cases hpayload : req₁.payload = req₂.payload
    · rcases hmet with hr | hr
      · exact .inl (h₁.parentTaskId.symm.trans ((hsame hr).parent.trans h₂.parentTaskId))
      · exact absurd hpayload (hconflict hr)
    · exact .inr hpayload
  · intro hcond
    have hsame (hr : AnsweredWith reply task₁.id) : SameWork task₁ task₂ := by
      have hpayload := hduplicate hr
      have hparent := hcond.resolve_right fun hn => hn hpayload
      exact same_work h₁ h₂ (same_of_payload hfits₁ hfits₂ h₁.asks.1 h₂.asks.1 hpayload)
        (parents_agree hk h₁ h₂ hparent)
    exact ⟨hsame, fun hn => hmet.resolve_left fun hr => hn (hsame hr)⟩

section FollowedUp

def rootTask (n : ℕ) : Task :=
  { id := ⟨n⟩, prompt := "review", cwd := some "/work", createdAt := 0, createdBy := "ann",
    threadId := ⟨n⟩ }

/-- Two threads that can be followed up. -/
def twoThreads : SubmissionConfig :=
  ⟨{ store := { StoreState.empty with tasks := ⟨[rootTask 7, rootTask 9], by decide⟩ }
     minted := [⟨7⟩, ⟨9⟩] }, [], []⟩

theorem twoThreads_start : Start twoThreads where
  fresh := ⟨rfl, rfl⟩
  drawn := by decide

def followUp (parent : ℕ) : SubmitTaskForm :=
  { prompt := "go on", cwd := some "/work", parentTaskId := .given ⟨parent⟩,
    idempotencyKey := some "again" }

def ann : Principal := { username := "ann" }

/-- The request that both follow-ups make. -/
def askedTwice : TaskRequest :=
  { prompt := "go on", cwd := some "/work", createdBy := "ann", idempotencyKey := some "again" }

/-- The digest of that request. -/
def knownDigest : List UInt8 → String :=
  fun _ => "789fe4fa85863337075825ba57bc5c872d9f4192aeda0b9d688304670df3755e"

def followedUp (other : ℕ) : List SubmissionAction :=
  [.start () (.submitTask ann true (followUp 7)), .run 0 {}, .run 0 { newId := ⟨10⟩ }, .run 0 {},
    .run 0 {}, .run 0 {}, .start () (.submitTask ann true (followUp other)), .run 1 {},
    .run 1 { newId := ⟨11⟩ }, .run 1 {}, .run 1 {}]

def afterBoth (other : ℕ) : SubmissionConfig :=
  (clients solo knownDigest).after twoThreads (followedUp other)

/-- The task that a follow-up makes. -/
def followTask (id parent : ℕ) : Task :=
  inherited (fromRequest knownDigest ⟨id⟩ 0 askedTwice) (some (rootTask parent))

theorem first_built : Built knownDigest (afterBoth 7) 0 ann (followUp 7) askedTwice
    (some (rootTask 7)) (followTask 10 7) where
  submits := by
    have ht : (afterBoth 7).threads[0]? = some ⟨(), .submitTask ann true (followUp 7),
        .ret (.submitted ⟨10⟩ false false)⟩ := rfl
    have hy : Yields (admitForm knownDigest ann true (followUp 7)) [] (.ok (followTask 10 7))
        ((history (afterBoth 7).log 0).drop 3) :=
      .call (.ok (some (rootTask 7))) (.call (⟨10⟩, 0) .ret)
    exact ⟨_, _, _, _, ht, List.drop_suffix 3 _, hy⟩
  asked := ⟨[], [], .ret⟩
  made := ⟨⟨10⟩, 0, rfl⟩
  loaded := rfl
  told := by
    rintro row ⟨⟩
    exact .tail _ (.tail _ (.tail _ (.tail _ (.head _))))

theorem second_built : Built knownDigest (afterBoth 7) 1 ann (followUp 7) askedTwice
    (some (rootTask 7)) (followTask 11 7) where
  submits := by
    have ht : (afterBoth 7).threads[1]? = some ⟨(), .submitTask ann true (followUp 7),
        .ret (.submitted ⟨10⟩ false true)⟩ := rfl
    have hy : Yields (admitForm knownDigest ann true (followUp 7)) [] (.ok (followTask 11 7))
        ((history (afterBoth 7).log 1).drop 2) :=
      .call (.ok (some (rootTask 7))) (.call (⟨11⟩, 0) .ret)
    exact ⟨_, _, _, _, ht, List.drop_suffix 2 _, hy⟩
  asked := ⟨[], [], .ret⟩
  made := ⟨⟨11⟩, 0, rfl⟩
  loaded := rfl
  told := by
    rintro row ⟨⟩
    exact .tail _ (.tail _ (.tail _ (.head _)))

/-- The same follow-up once more is answered with the first one's task. -/
theorem followed_up_twice :
    AnsweredWith (.submitted ⟨10⟩ false true) ⟨10⟩ ∧ SameWork (followTask 10 7) (followTask 11 7) := by
  have hr : AnsweredWith (.submitted ⟨10⟩ false true) (followTask 10 7).id := ⟨false, rfl⟩
  have hstored : ∃ e ∈ history (afterBoth 7).log 0,
      Stores (Dispatcher.routed solo (followTask 10 7)) e :=
    ⟨_, .tail _ (.tail _ (.head _)), rfl⟩
  exact ⟨hr, ((duplicates_agree twoThreads_start (after_reaches (followedUp 7)) first_built
    second_built hstored rfl (.inl hr) (by decide) (by decide) fun _ => rfl).mpr (.inl rfl)).1 hr⟩

/-- The follow-up of another thread is answered with that task as well. -/
theorem other_thread_answered : ∃ c : SubmissionConfig, ∃ task task' : Task,
    (clients solo knownDigest).Reaches always twoThreads c ∧
      (∃ past, past <:+ history c.log 0 ∧
        HandsOver knownDigest (.submitTask ann true (followUp 7)) past task) ∧
      (∃ past, past <:+ history c.log 1 ∧
        HandsOver knownDigest (.submitTask ann true (followUp 9)) past task') ∧
      (c.threads[1]?).map Thread.prog = some (.ret (.submitted task.id false true)) ∧
      task.parentTaskId = some ⟨7⟩ ∧ task'.parentTaskId = some ⟨9⟩ ∧ ¬ SameWork task task' := by
  refine ⟨afterBoth 9, followTask 10 7, followTask 11 9, after_reaches (followedUp 9),
    ⟨(history (afterBoth 9).log 0).drop 3, List.drop_suffix _ _, ?_⟩,
    ⟨(history (afterBoth 9).log 1).drop 2, List.drop_suffix _ _, ?_⟩, rfl, rfl, rfl, ?_⟩
  · exact .call (.ok (some (rootTask 7))) (.call (⟨10⟩, 0) .ret)
  · exact .call (.ok (some (rootTask 9))) (.call (⟨11⟩, 0) .ret)
  · intro hsame
    cases hsame.parent

end FollowedUp

end FleetOrchestrator.Submissions
