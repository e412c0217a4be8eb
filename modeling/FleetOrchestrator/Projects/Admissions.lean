import FleetOrchestrator.Projects.Lifecycle
import FleetOrchestrator.Store.SubmissionRuns

/-! What an archived project keeps closed, while submissions and agent creations are under way. -/

namespace FleetOrchestrator.Projects

open Core Tables Store Interleaving Machine

/-- The project that the step gives a new task or agent. -/
def Op.inserts : Op → Option ProjectId
  | .task (.insertLocked t) | .task (.insertTaskRow t _) => t.projectId
  | .agent (.createLocked a _) | .agent (.insertAgent a _) => some a.projectId
  | _ => none

/-- The step lets its caller go on to archive the project. -/
def Op.opens : Op → World → Option ProjectId
  | .isDraining id, w => if w.isDraining id then some id else none
  | .archiveDrained id fence, w => if w.mayArchive id fence then some id else none
  | _, _ => none

/-- The project was read while it was active. -/
def admits (id : ProjectId) : Entry Op Op.Resp → Bool
  | ⟨.getProject j, some p⟩ => j = id && p.status.acceptsNewTasks
  | _ => false

def Activity.isArchive : Activity → Bool
  | .archiveProject _ _ => true
  | _ => false

/-- A submission or creation that has found the project active and has not inserted yet. -/
def inFlight (c : ProjectConfig) (id : ProjectId) (i : ℕ) : Bool :=
  match c.threads[i]? with
  | some ⟨_, a, .call _ _⟩ => !a.isArchive && (history c.log i).any (admits id) &&
      (history c.log i).all fun e => e.op.inserts.isNone
  | _ => false

/-- Nobody is in flight to a project that is being archived. -/
def gateClear (c : ProjectConfig) : ProjectAction → Bool
  | .run i _ =>
    match (c.next i).bind fun op => op.opens c.state with
    | some id => (List.range c.threads.length).all fun j => !inFlight c id j
    | none => true
  | _ => true

abbrev GateClear (c : ProjectConfig) (x : ProjectAction) : Prop := gateClear c x = true

section Conduct

def Admitted (id : ProjectId) (h : History) : Prop := ∃ e ∈ h, admits id e = true

def Clean (h : History) : Prop := ∀ e ∈ h, e.op.inserts = none

/-- The statements of an insertion, and no others. -/
def Op.isOwn : Op → Bool
  | .task (.insertLocked _) | .task (.insertTaskRow _ _) | .task (.selectByKey _ _) => true
  | .task _ => false
  | .agent (.readCap _) | .agent (.createLocked _ _) | .agent (.selectPin _)
  | .agent (.lockWorker _) | .agent (.countAgents _) | .agent (.insertAgent _ _) => true
  | .agent _ => false
  | _ => true

/-- Insertions are admitted, one for each caller; the lock after lock of an archive comes last. -/
structure Allowed (a : Activity) (h : History) (op : Op) : Prop where
  own : op.isOwn = true
  insertion : ∀ id, op.inserts = some id → a.isArchive = false ∧ Admitted id h ∧ Clean h
  locked : ∀ id, op = .archiveLocked id → ∃ h', h =
    ⟨.hasLiveAgents id, false⟩ :: ⟨.hasActiveTasks id, false⟩ :: ⟨.isDraining id, true⟩ :: h'

/-- A step that only reads. -/
def Op.isPlain (op : Op) : Bool :=
  op.isOwn && op.inserts.isNone && match op with
    | .archiveLocked _ => false
    | _ => true

variable {a : Activity} {h h' : History} {op : Op} {b : Backend} {id : ProjectId} {α : Type}
  {p : Call α}

theorem plain_allowed (hp : op.isPlain = true) : Allowed a h op := by
  simp only [Op.isPlain, Bool.and_eq_true, Option.isNone_iff_eq_none] at hp
  obtain ⟨⟨hown, hn⟩, hl⟩ := hp
  refine ⟨hown, ?_, ?_⟩
  · intro id hi
    rw [hn] at hi
    cases hi
  · rintro id rfl
    cases hl

theorem Clean.cons {e : Entry Op Op.Resp} (hc : Clean h) (he : e.op.inserts = none) :
    Clean (e :: h) := by
  intro x hx
  rcases List.mem_cons.mp hx with rfl | hx
  · exact he
  · exact hc x hx

theorem Admitted.cons {e : Entry Op Op.Resp} (ha : Admitted id h) : Admitted id (e :: h) := by
  obtain ⟨x, hx, hadm⟩ := ha
  exact ⟨x, List.mem_cons_of_mem _ hx, hadm⟩

/-- What a submission has gathered before it inserts into the project. -/
structure Ready (id : Option ProjectId) (h : History) : Prop where
  admitted : ∀ j, id = some j → Admitted j h
  clean : Clean h

theorem Ready.grew {j : Option ProjectId} (hr : Ready j h)
    (hg : Grew (fun op => op.isPlain = true) h h') : Ready j h' := by
  obtain ⟨new, rfl, hn⟩ := hg
  constructor
  · intro id hid
    obtain ⟨e, he, ha⟩ := hr.admitted id hid
    exact ⟨e, List.mem_append_right _ he, ha⟩
  · intro e he
    rcases List.mem_append.mp he with he | he
    · have hp := hn e he
      simp only [Op.isPlain, Bool.and_eq_true, Option.isNone_iff_eq_none] at hp
      exact hp.1.2
    · exact hr.clean e he

theorem ready_plain {j : Option ProjectId} (hr : Ready j h)
    (hu : Uses (fun op => op.isPlain = true) p) :
    Obeys (Allowed a) (fun _ h' => Ready j h') p h :=
  obeys_conseq (obeys_of_uses hu fun _ _ ho => plain_allowed ho) fun _ _ hg => hr.grew hg

theorem Ready.insertion {j : Option ProjectId} (hr : Ready j h) (ha : a.isArchive = false)
    (ho : op.isOwn = true) (hi : op.inserts = j) (hl : ∀ id, op ≠ .archiveLocked id) :
    Allowed a h op := by
  refine ⟨ho, ?_, ?_⟩
  · intro id hid
    exact ⟨ha, hr.admitted id (hi ▸ hid), hr.clean⟩
  · intro id he
    exact absurd he (hl id)

theorem insertTask_allowed (task : Task) (ha : a.isArchive = false)
    (hr : Ready task.projectId h) :
    Obeys (Allowed a) (fun _ _ => True) (insertTask b task) h := by
  cases b with
  | mem =>
    refine obeys_call ?_ fun r => trivial
    exact hr.insertion ha rfl rfl fun id => by simp
  | pg =>
    have insertion (doNothing : Bool) : Allowed a h (.task (.insertTaskRow task doNothing)) :=
      hr.insertion ha rfl rfl fun id => by simp
    unfold insertTask Store.PgStore.serveInsert
    cases task.idempotencyKey with
    | none =>
      refine obeys_call (insertion false) fun r => ?_
      cases r <;> trivial
    | some key =>
      refine obeys_call (insertion true) fun r => ?_
      cases r with
      | error e => trivial
      | ok inserted =>
        by_cases hn : 0 < inserted
        · change Obeys _ _ (Prog.embed _ _ (if 0 < inserted then _ else _)) _
          rw [if_pos hn]
          trivial
        · change Obeys _ _ (Prog.embed _ _ (if 0 < inserted then _ else _)) _
          rw [if_neg hn]
          refine obeys_call (plain_allowed rfl) fun existing => ?_
          cases existing <;> trivial

theorem checkPin_plain (pin : Option AgentTemplatePin) :
    Uses (fun op => (Op.agent op).isPlain = true) (Agents.PgStore.checkPin pin) := by
  cases pin with
  | none => exact uses_ret _
  | some pin =>
    simp only [Agents.PgStore.checkPin, Agents.execute, Prog.perform_bind]
    refine uses_call (by rfl) fun r => ?_
    cases r with
    | none => exact uses_ret _
    | some found =>
      dsimp only
      split_ifs <;> exact uses_ret _

theorem claimSlot_plain (w : Option WorkerId) :
    Uses (fun op => (Op.agent op).isPlain = true) (Agents.PgStore.claimSlot w) := by
  cases w with
  | none => exact uses_ret _
  | some w =>
    simp only [Agents.PgStore.claimSlot, Agents.execute, Prog.perform_bind]
    refine uses_call (by rfl) fun cap => ?_
    cases cap with
    | none => exact uses_ret _
    | some cap =>
      cases cap with
      | none => exact uses_ret _
      | some cap =>
        refine uses_call (by rfl) fun n => ?_
        split_ifs <;> exact uses_ret _

theorem insertAgent_allowed (agent : Agent) (ha : a.isArchive = false)
    (hr : Ready (some agent.projectId) h) :
    Obeys (Allowed a) (fun _ _ => True) (insertAgent b agent) h := by
  cases b with
  | mem =>
    unfold insertAgent Agents.MemStore.createAgent
    cases agent.workerId with
    | none =>
      refine obeys_call ?_ fun r => trivial
      exact hr.insertion ha rfl rfl fun id => by simp
    | some w =>
      refine obeys_call (plain_allowed rfl) fun cap => ?_
      refine obeys_call ?_ fun r => trivial
      have hr' : Ready (some agent.projectId) (⟨.agent (.readCap w), cap⟩ :: h) :=
        hr.grew (Grew.one rfl)
      exact hr'.insertion ha rfl rfl fun id => by simp
  | pg =>
    unfold insertAgent Agents.PgStore.createAgent
    rw [embed_bind]
    apply obeys_bind (ready_plain hr (uses_embed (checkPin_plain _)))
    intro checked h₁ hr₁
    cases checked with
    | error e => trivial
    | ok _ =>
      rw [embed_bind]
      apply obeys_bind (ready_plain hr₁ (uses_embed (claimSlot_plain _)))
      intro claimed h₂ hr₂
      refine obeys_call ?_ fun r => ?_
      · exact hr₂.insertion ha rfl rfl fun id => by simp
      · cases r <;> trivial

/-- A successful look at the project is an admission to it. -/
theorem ensure_ready (id : ProjectId) (what : String) (hc : Clean h) :
    Obeys (Allowed a) (fun r h' => ∀ p, r = .ok p → Ready (some id) h')
      (ensureProjectActive id what) h := by
  simp only [ensureProjectActive, execute, Prog.perform_bind]
  refine obeys_call (plain_allowed rfl) fun project => ?_
  cases project with
  | none =>
    intro p hp
    cases hp
  | some project =>
    dsimp only
    split_ifs with hs
    · intro p hp
      cases hp
    · rintro p -
      refine ⟨?_, hc.cons rfl⟩
      rintro j hj
      cases hj
      refine ⟨_, List.mem_cons_self, ?_⟩
      simpa [admits] using hs

theorem pin_ready (req : Task) (hr : Ready req.projectId h) :
    Obeys (Allowed a) (fun r h' => ∀ task, r = .ok task → Ready task.projectId h')
      (applyAgentPin req) h := by
  have refused {h : History} (e : TaskPinError) :
      Obeys (Allowed a) (fun r h' => ∀ task, r = .ok task → Ready task.projectId h')
        (.ret (.error e) : Call (Except TaskPinError Task)) h := by
    intro task he
    cases he
  unfold applyAgentPin
  cases req.agentId with
  | none =>
    rintro task he
    cases he
    exact hr
  | some agentId =>
    simp only [execute, Prog.perform_bind]
    split_ifs
    · exact refused _
    · refine obeys_call (plain_allowed rfl) fun agent => ?_
      replace hr := hr.grew (Grew.one (e := ⟨.getAgent agentId, agent⟩) rfl)
      cases agent with
      | none => exact refused _
      | some agent =>
        cases hproject : req.projectId with
        | none =>
          apply obeys_bind (ensure_ready _ _ hr.clean)
          intro r h' hensured
          cases r with
          | error e => exact refused _
          | ok project =>
            rintro task he
            cases he
            exact hensured project rfl
        | some taskProject =>
          dsimp only
          split_ifs
          · exact refused _
          · rintro task he
            cases he
            exact hr

theorem submit_allowed (task : Task) (ha : a.isArchive = false) (hr : Ready task.projectId h) :
    Obeys (Allowed a) (fun _ _ => True) (submit b task) h := by
  apply obeys_bind (insertTask_allowed task ha hr)
  intro r h' _
  cases r <;> trivial

theorem pinned_allowed (req : Task) (ha : a.isArchive = false) (hr : Ready req.projectId h) :
    Obeys (Allowed a) (fun _ _ => True) (submitPinned b req) h := by
  apply obeys_bind (pin_ready req hr)
  intro r h' hpinned
  cases r with
  | error e => trivial
  | ok task => exact submit_allowed task ha (hpinned task rfl)

theorem dispatch_allowed (req : Task) (ha : a.isArchive = false) :
    Obeys (Allowed a) (fun _ _ => True) (handleDispatchTask b req) [] := by
  have hclean : Clean [] := by
    intro e he
    cases he
  unfold handleDispatchTask
  cases hproject : req.projectId with
  | none =>
    apply pinned_allowed req ha
    refine ⟨fun j hj => ?_, hclean⟩
    rw [hproject] at hj
    cases hj
  | some id =>
    apply obeys_bind (ensure_ready id _ hclean)
    intro r h' hensured
    cases r with
    | error e => trivial
    | ok project =>
      apply pinned_allowed req ha
      rw [hproject]
      exact hensured project rfl

theorem admitted_allowed (task : Task) (ha : a.isArchive = false) (hc : Clean h) :
    Obeys (Allowed a) (fun _ _ => True) (submitAdmitted b task) h := by
  unfold submitAdmitted
  cases hproject : task.projectId with
  | none =>
    apply submit_allowed task ha
    refine ⟨fun j hj => ?_, hc⟩
    rw [hproject] at hj
    cases hj
  | some id =>
    apply obeys_bind (ensure_ready id _ hc)
    intro r h' hensured
    cases r with
    | error e => trivial
    | ok project =>
      apply submit_allowed task ha
      rw [hproject]
      exact hensured project rfl

theorem ready_none (hc : Clean h) : Ready none h := by
  refine ⟨fun j hj => ?_, hc⟩
  cases hj

theorem submitTask_allowed (req : Task) (parentTaskId : Option TaskId)
    (ha : a.isArchive = false) :
    Obeys (Allowed a) (fun _ _ => True) (submitTaskApi b req parentTaskId) [] := by
  have hclean : Clean [] := by
    intro e he
    cases he
  have pin_plain : Uses (fun op => op.isPlain = true) (applyAgentPin req) :=
    pin_uses req (fun _ => rfl) fun _ => rfl
  cases parentTaskId with
  | none =>
    apply obeys_bind (ready_plain (ready_none hclean) pin_plain)
    intro r h' hr
    cases r with
    | error e => trivial
    | ok task => exact admitted_allowed task ha hr.clean
  | some parentId =>
    refine obeys_call (plain_allowed rfl) fun parent => ?_
    cases parent with
    | none => trivial
    | some parent =>
      apply obeys_bind (ready_plain (ready_none (hclean.cons rfl)) pin_plain)
      intro r h' hr
      cases r with
      | error e => trivial
      | ok task => exact admitted_allowed _ ha hr.clean

theorem placedBy_project (agent : Agent) (placement : Option (WorkerId × ℤ)) :
    (placedBy agent placement).projectId = agent.projectId := by
  cases placement <;> rfl

theorem createAgent_allowed (agent : Agent) (ha : a.isArchive = false) :
    Obeys (Allowed a) (fun _ _ => True) (handleCreateAgent b agent) [] := by
  have hclean : Clean [] := by
    intro e he
    cases he
  apply obeys_bind (ensure_ready _ _ hclean)
  intro r h' hensured
  cases r with
  | error e => trivial
  | ok project =>
    simp only [execute, Prog.perform_bind]
    refine obeys_call (plain_allowed rfl) fun placement => ?_
    have hr := (hensured project rfl).grew (Grew.one (e := ⟨.placeOnCreate, placement⟩) rfl)
    rw [← placedBy_project agent placement] at hr
    apply obeys_bind (insertAgent_allowed _ ha hr)
    intro r h' _
    cases r <;> trivial

theorem archiveDrained_allowed {fence : Option ControlFence} :
    Obeys (Allowed a) (fun _ _ => True) (archiveProjectIfDrained b id fence) h := by
  cases b with
  | pg => exact obeys_perform (plain_allowed rfl) fun _ => trivial
  | mem =>
    refine obeys_call (plain_allowed rfl) fun holds => ?_
    cases holds with
    | false => trivial
    | true =>
      refine obeys_call (plain_allowed rfl) fun draining => ?_
      cases draining with
      | false => trivial
      | true =>
        refine obeys_call (plain_allowed rfl) fun tasks => ?_
        cases tasks with
        | true => trivial
        | false =>
          refine obeys_call (plain_allowed rfl) fun agents => ?_
          cases agents with
          | true => trivial
          | false =>
            refine obeys_perform ⟨rfl, ?_, ?_⟩ fun _ => trivial
            · intro j hj
              cases hj
            · intro j hj
              cases hj
              exact ⟨_, rfl⟩

theorem finish_allowed {fence : Option ControlFence} :
    Obeys (Allowed a) (fun _ _ => True) (finishArchive b id fence) h := by
  apply obeys_bind archiveDrained_allowed
  intro r h' _
  cases r with
  | false =>
    have hu : Uses (fun op => op.isPlain = true) (whyClosed id) := whyClosed_uses rfl rfl rfl
    exact obeys_conseq (obeys_of_uses hu fun _ _ ho => plain_allowed ho) fun _ _ _ => trivial
  | true => exact obeys_call (plain_allowed rfl) fun _ => trivial

theorem update_plain {fence : Option ControlFence} :
    Uses (fun op => op.isPlain = true) (updateProjectStatus b id .draining fence) := by
  cases b with
  | pg => exact uses_perform rfl
  | mem =>
    refine uses_call (by rfl) fun holds => ?_
    cases holds with
    | false => exact uses_ret _
    | true => exact uses_perform rfl

theorem advance_allowed (project : Project) {fence : Option ControlFence} :
    Obeys (Allowed a) (fun _ _ => True) (advanceProjectArchive b project fence) h := by
  unfold advanceProjectArchive
  cases project.status with
  | active =>
    apply obeys_bind (obeys_of_uses update_plain fun _ _ ho => plain_allowed ho)
    intro r h' _
    cases r with
    | false => trivial
    | true => exact obeys_call (plain_allowed rfl) fun _ => finish_allowed
  | draining => exact finish_allowed
  | archived => trivial

theorem program_allowed (a : Activity) :
    Obeys (Allowed a) (fun _ _ => True) (program b a) [] := by
  cases a with
  | archiveProject id fence =>
    apply obeys_map
    refine obeys_call (plain_allowed rfl) fun project => ?_
    cases project with
    | none => trivial
    | some project => exact obeys_map (advance_allowed project)
  | dispatchTask req => exact obeys_map (dispatch_allowed req rfl)
  | submitTask req parent => exact obeys_map (submitTask_allowed req parent rfl)
  | createAgent agent => exact obeys_map (createAgent_allowed agent rfl)

end Conduct

section Idle

variable {ch : Choice} {w w' : World} {id : ProjectId} {op : Op} {s s' : StoreState}

/-- Nothing in the project that was not there before. -/
structure KeepsIdle (id : ProjectId) (s s' : StoreState) : Prop where
  tasks : s'.tasks.rows.any (activeIn id) = true → s.tasks.rows.any (activeIn id) = true
  agents : s'.agents.rows.any (liveIn id) = true → s.agents.rows.any (liveIn id) = true

theorem keeps_refl : KeepsIdle id s s := ⟨fun h => h, fun h => h⟩

theorem any_put {κ ρ : Type} [DecidableEq κ] {key : ρ → κ} {t : Keyed κ ρ key} {r : ρ}
    {p : ρ → Bool} (hr : p r = false) (h : (t.put r).rows.any p = true) : t.rows.any p = true := by
  obtain ⟨x, hx, hp⟩ := List.any_eq_true.mp h
  rcases List.mem_append.mp hx with hx | hx
  · exact List.any_eq_true.mpr ⟨x, List.mem_of_mem_filter hx, hp⟩
  · rw [List.mem_singleton.mp hx, hr] at hp
    cases hp

theorem keeps_others (h : keepsIdle s s' = true) : KeepsIdle id s s' := by
  simp only [keepsIdle, Bool.and_eq_true, List.all_eq_true, Bool.or_eq_true] at h
  constructor
  · intro ht
    obtain ⟨t, hm, hactive⟩ := List.any_eq_true.mp ht
    simp only [activeIn, Bool.and_eq_true, decide_eq_true_eq, Bool.not_eq_true'] at hactive
    rcases h.1 t hm with (hterm | hnone) | hbefore
    · rw [hactive.2] at hterm
      cases hterm
    · rw [hactive.1] at hnone
      cases hnone
    · obtain ⟨t₀, ht₀, hsame⟩ := (Option.any_eq_true ..).mp hbefore
      simp only [Bool.and_eq_true, decide_eq_true_eq, Bool.not_eq_true'] at hsame
      refine List.any_eq_true.mpr ⟨t₀, (Keyed.get_eq_some.mp ht₀).1, ?_⟩
      simp [activeIn, hsame, hactive.1]
  · intro ha
    obtain ⟨a, hm, hlive⟩ := List.any_eq_true.mp ha
    simp only [liveIn, Bool.and_eq_true, decide_eq_true_eq] at hlive
    rcases h.2 a hm with hstopped | hbefore
    · exact absurd (of_decide_eq_true hstopped) hlive.2
    · obtain ⟨a₀, ha₀, hsame⟩ := (Option.any_eq_true ..).mp hbefore
      simp only [Bool.and_eq_true, decide_eq_true_eq] at hsame
      refine List.any_eq_true.mpr ⟨a₀, (Keyed.get_eq_some.mp ha₀).1, ?_⟩
      simp [liveIn, hsame, hlive.1]

theorem keeps_task {row : Task} (hr : row.projectId ≠ some id) :
    KeepsIdle id s (Store.withTask s row) :=
  ⟨any_put (by simp [activeIn, hr]), fun h => h⟩

theorem keeps_agent {row : Agent} (hr : row.projectId ≠ id) :
    KeepsIdle id s { s with agents := s.agents.put row } :=
  ⟨fun h => h, any_put (by simp [liveIn, hr])⟩

theorem insertLocked_keeps {t : Task} {rank : TaskId → ℕ} (ht : t.projectId ≠ some id) :
    KeepsIdle id s (Store.MemStore.insertTaskIdempotent s rank t).2 := by
  rcases insertLocked_cases s rank t with ⟨-, -, he⟩ | ⟨r, -, he⟩ | ⟨-, he⟩
  · rw [he]
    exact keeps_task ht
  · rw [he]
    exact keeps_refl
  · rw [he]
    exact keeps_refl

theorem insertTaskRow_keeps {t : Task} {doNothing : Bool} (ht : t.projectId ≠ some id) :
    KeepsIdle id s (Store.PgStore.insertTaskRow s t doNothing).2 := by
  rcases insertTaskRow_cases s t doNothing with ⟨-, -, he⟩ | ⟨-, he⟩ | ⟨-, e, he⟩
  · rw [he]
    exact keeps_task ht
  · rw [he]
    exact keeps_refl
  · rw [he]
    exact keeps_refl

theorem createLocked_keeps {a : Agent} {cap : Option (Option ℕ)} (ha : a.projectId ≠ id) :
    KeepsIdle id s (Agents.MemStore.createLocked s a cap).2 := by
  unfold Agents.MemStore.createLocked
  split_ifs
  · exact keeps_refl
  · cases Agents.MemStore.checkPin s a.templatePin with
    | error e => exact keeps_refl
    | ok _ =>
      dsimp only
      split
      · split_ifs
        · exact keeps_agent ha
        · exact keeps_agent ha
      · exact keeps_agent ha

theorem insertAgent_keeps {a : Agent} {claimed : Option WorkerId} (ha : a.projectId ≠ id) :
    KeepsIdle id s (Agents.PgStore.insertAgent s a claimed).2 := by
  unfold Agents.PgStore.insertAgent
  dsimp only
  split_ifs
  all_goals first
    | exact keeps_refl
    | exact keeps_agent ha

/-- Only an insertion into the project puts something in it. -/
theorem exec_keeps (ho : op.isOwn = true) (hi : op.inserts ≠ some id) :
    KeepsIdle id w.store (op.exec ch w).2.store := by
  have guarded {j : ProjectId} {t : ProjectStatus} (c : Prop) [Decidable c] :
      KeepsIdle id w.store (if c then w.setStatus j t else (false, w)).2.store := by
    split_ifs
    · exact keeps_refl
    · exact keeps_refl
  cases op with
  | updateStatus j t fence => exact guarded _
  | archiveLocked j => exact guarded _
  | archiveDrained j fence => exact guarded _
  | task op =>
    cases op with
    | insertLocked t => exact insertLocked_keeps hi
    | insertTaskRow t doNothing => exact insertTaskRow_keeps hi
    | selectByKey createdBy key => exact keeps_refl
    | _ => cases ho
  | agent op =>
    have from_referenced {s' : StoreState} (h : KeepsIdle id w.referenced s') :
        KeepsIdle id w.store s' := ⟨h.tasks, h.agents⟩
    have hsame : KeepsIdle id w.store w.referenced := from_referenced keeps_refl
    have project {a : Agent} (h : some a.projectId ≠ some id) : a.projectId ≠ id :=
      fun he => h (congrArg some he)
    cases op with
    | createLocked a cap => exact from_referenced (createLocked_keeps (project hi))
    | insertAgent a claimed => exact from_referenced (insertAgent_keeps (project hi))
    | readCap v => exact hsame
    | selectPin pin => exact hsame
    | lockWorker v => exact hsame
    | countAgents v => exact hsame
    | _ => cases ho
  | _ => exact keeps_refl

end Idle

/-- The caller goes on to archive the project, going by the answer. -/
def Op.passed : (op : Op) → op.Resp → Option ProjectId
  | .isDraining id, r => if r then some id else none
  | .archiveDrained id _, r => if r then some id else none
  | _, _ => none

structure Start (c : ProjectConfig) : Prop where
  fresh : Fresh c
  idle : ∀ id, c.state.status id = some .archived →
    c.state.hasActiveTasks id = false ∧ c.state.hasLiveAgents id = false

section Runs

variable {b : Backend} {c₀ c c' c₁ c₂ : ProjectConfig} {x : ProjectAction} {id : ProjectId} {i : ℕ}
  {ch : Choice} {op : Op}

theorem allowed : (callers b).Disciplined (fun _ => Allowed) (fun _ _ _ _ => True) :=
  fun _ a => program_allowed a

theorem passed_opens {w : World} (h : op.passed (op.exec ch w).1 = some id) :
    op.opens w = some id ∧ w.status id = some .draining := by
  cases op with
  | isDraining j =>
    change (if w.isDraining j = true then some j else none) = some id at h
    split_ifs at h with hd
    cases h
    exact ⟨if_pos hd, of_decide_eq_true hd⟩
  | archiveDrained j fence =>
    change (if (if w.mayArchive j fence then w.setStatus j .archived else (false, w)).1 = true then
      some j else none) = some id at h
    by_cases hm : w.mayArchive j fence = true
    · rw [if_pos hm] at h
      split_ifs at h
      cases h
      refine ⟨if_pos hm, ?_⟩
      simp only [World.mayArchive, Bool.and_eq_true] at hm
      exact of_decide_eq_true hm.1.1.1
    · rw [if_neg hm] at h
      cases h
  | _ => cases h

/-- It was archived from the beginning, or a caller has gone on to archive it. -/
def Closing (c₀ c : ProjectConfig) (id : ProjectId) : Prop :=
  c₀.state.status id = some .archived ∨ ∃ k ∈ c.log, k.op.passed k.resp = some id

theorem Closing.step (h : Closing c₀ c id) (hs : (callers b).step c x = some c') :
    Closing c₀ c' id := by
  rcases h with h | ⟨k, hk, hp⟩
  · exact .inl h
  · exact .inr ⟨k, (step_log hs).subset hk, hp⟩

theorem inFlight_iff : inFlight c id i = true ↔ ∃ p a op k,
    c.threads[i]? = some ⟨p, a, .call op k⟩ ∧ a.isArchive = false ∧
      Admitted id (history c.log i) ∧ Clean (history c.log i) := by
  unfold inFlight
  constructor
  · intro h
    split at h
    · next p a op k hi =>
      simp only [Bool.and_eq_true, Bool.not_eq_true', List.any_eq_true, List.all_eq_true,
        Option.isNone_iff_eq_none] at h
      exact ⟨p, a, op, k, hi, h.1.1, h.1.2, h.2⟩
    · cases h
  · rintro ⟨p, a, op, k, hi, ha, hadm, hc⟩
    rw [hi]
    simp only [Bool.and_eq_true, Bool.not_eq_true', List.any_eq_true, List.all_eq_true,
      Option.isNone_iff_eq_none]
    exact ⟨⟨ha, hadm⟩, hc⟩

/-- Only a look at an active project puts a caller in flight. -/
theorem inFlight_step (h₀ : Fresh c₀) (h : (callers b).Reaches GateClear c₀ c)
    (hs : (callers b).step c x = some c') (hf : inFlight c' id i = true) :
    inFlight c id i = true ∨ c.state.status id = some .active := by
  obtain ⟨p, a, op', k, ht, ha, ⟨e, he, hadm⟩, hc⟩ := inFlight_iff.mp hf
  have kept (hthread : c.threads[i]? = c'.threads[i]?)
      (hlog : history c.log i = history c'.log i) : inFlight c id i = true := by
    apply inFlight_iff.mpr
    rw [hthread, hlog]
    exact ⟨p, a, op', k, ht, ha, ⟨e, he, hadm⟩, hc⟩
  cases x with
  | start q act =>
    obtain ⟨-, hts, hl⟩ := step_start hs
    rw [hl] at he
    rcases Nat.lt_or_ge i c.threads.length with hi | hi
    · refine .inl (kept ?_ (by rw [hl]))
      rw [hts, List.getElem?_append_left hi]
    · rw [history_of_within (within_of_reaches h₀ h) hi] at he
      cases he
  | env ev =>
    obtain ⟨-, hts, hl⟩ := step_env hs
    exact .inl (kept (by rw [hts]) (by rw [hl]))
  | run j ch =>
    obtain ⟨op, ⟨r⟩⟩ := step_run hs
    by_cases hij : j = i
    · subst hij
      obtain ⟨hafter, hhist⟩ := r.after
      rw [ht] at hafter
      have hact : a = r.act := congrArg Thread.act (Option.some.inj hafter)
      subst hact
      rw [hhist] at he hc
      rcases List.mem_cons.mp he with rfl | he
      · -- the step itself was the look
        have hexec := ran_exec r
        cases op with
        | getProject id' =>
          have hget : c.state.projects.get id' = r.resp := congrArg Prod.fst hexec
          cases hp : r.resp with
          | none =>
            rw [hp] at hadm
            cases hadm
          | some project =>
            rw [hp] at hadm hget
            simp only [admits, Bool.and_eq_true, decide_eq_true_eq] at hadm
            right
            rw [World.status, ← hadm.1, hget]
            cases hs : project.status with
            | active => simp [hs]
            | _ =>
              rw [hs] at hadm
              cases hadm.2
        | _ => cases hadm
      · left
        apply inFlight_iff.mpr
        exact ⟨_, _, _, _, r.was, ha, ⟨e, he, hadm⟩,
          fun y hy => hc y (List.mem_cons_of_mem _ hy)⟩
    · refine .inl (kept ?_ ?_)
      · have hspawned : (callers b).spawned op r.resp = [] := rfl
        rw [r.threads, hspawned, List.map_nil, List.append_nil, List.getElem?_set_ne hij]
      · rw [r.log, history_cons_ne _ hij]

/-- A step that lets its caller archive the project finds nobody in flight to it. -/
theorem nobody_in_flight (hx : GateClear c (.run i ch)) (r : (callers b).Ran c c' i ch op)
    (hp : op.passed r.resp = some id) (j : ℕ) : inFlight c id j = false := by
  have hopens : op.opens c.state = some id := by
    have hexec : op.passed (op.exec ch c.state).1 = some id := by rw [ran_exec r, hp]
    exact (passed_opens hexec).1
  simp only [GateClear, gateClear, r.next, Option.bind_some, hopens, List.all_eq_true,
    List.mem_range, Bool.not_eq_true'] at hx
  rcases Nat.lt_or_ge j c.threads.length with hj | hj
  · exact hx j hj
  · unfold inFlight
    rw [List.getElem?_eq_none hj]

/-- The project is no longer active, and nobody is on the way into it. -/
structure Shut (c : ProjectConfig) (id : ProjectId) : Prop where
  inactive : ∃ s, c.state.status id = some s ∧ s ≠ .active
  nobody : ∀ j, inFlight c id j = false

theorem Shut.step (h₀ : Fresh c₀) (h : (callers b).Reaches GateClear c₀ c)
    (hs : (callers b).step c x = some c') (hi : ∃ s, c.state.status id = some s ∧ s ≠ .active)
    (hn : ∀ j, inFlight c id j = false) : Shut c' id := by
  obtain ⟨s, hstatus, hne⟩ := hi
  constructor
  · rcases @step_moves b c c' x id hs with he | ⟨hnone, -⟩ | ⟨i, ch, op, r, t, rfl, ha⟩
    · exact ⟨s, he.trans hstatus, hne⟩
    · rw [hnone] at hstatus
      cases hstatus
    · have hlicensed : Licensed (history c.log i) op := r.licensed disciplined h₀ h
      exact ⟨t, applied_status r ha, applied_closes hlicensed ha⟩
  · intro j
    cases hj : inFlight c' id j with
    | false => rfl
    | true =>
      rcases inFlight_step h₀ h hs hj with hb | hactive
      · rw [hn j] at hb
        cases hb
      · rw [hactive] at hstatus
        cases hstatus
        exact absurd rfl hne

theorem closing_shut (h₀ : Start c₀) (h : (callers b).Reaches GateClear c₀ c) :
    Closing c₀ c id → Shut c id := by
  apply h.invariant (P := fun c => Closing c₀ c id → Shut c id)
  · rintro (ha | ⟨k, hk, -⟩)
    · refine ⟨⟨.archived, ha, ProjectStatus.noConfusion⟩, fun j => ?_⟩
      unfold inFlight
      rw [h₀.fresh.threads]
      rfl
    · rw [h₀.fresh.log] at hk
      cases hk
  · intro c x c' hr hx hs ih hc
    by_cases hbefore : Closing c₀ c id
    · exact Shut.step h₀.fresh hr hs (ih hbefore).inactive (ih hbefore).nobody
    · rcases hc with hc | ⟨k, hk, hp⟩
      · exact absurd (.inl hc) hbefore
      · cases x with
        | start p a =>
          rw [(step_start hs).2.2] at hk
          exact absurd (.inr ⟨k, hk, hp⟩) hbefore
        | env e =>
          rw [(step_env hs).2.2] at hk
          exact absurd (.inr ⟨k, hk, hp⟩) hbefore
        | run i ch =>
          obtain ⟨op, ⟨r⟩⟩ := step_run hs
          rw [r.log] at hk
          rcases List.mem_cons.mp hk with rfl | hk
          · have hexec : op.passed (op.exec ch c.state).1 = some id := by
              rw [ran_exec r]
              exact hp
            exact Shut.step h₀.fresh hr hs
              ⟨.draining, (passed_opens hexec).2, ProjectStatus.noConfusion⟩
              (nobody_in_flight hx r hp)
          · exact absurd (.inr ⟨k, hk, hp⟩) hbefore

theorem keeps_step (h₀ : Start c₀) (h : (callers b).Reaches GateClear c₀ c)
    (hc : Closing c₀ c id) (hs : (callers b).step c x = some c') :
    KeepsIdle id c.state.store c'.state.store := by
  cases x with
  | start p a =>
    obtain ⟨hacc, -, -⟩ := step_start hs
    simp only [callers, Option.ite_none_right_eq_some, Option.some.injEq] at hacc
    rw [← hacc.2]
    exact keeps_refl
  | env e =>
    obtain ⟨hdist, -, -⟩ := step_env hs
    cases e with
    | others s =>
      simp only [callers, disturb, Option.ite_none_right_eq_some, Option.some.injEq] at hdist
      rw [← hdist.2]
      exact keeps_others hdist.1
    | createProject p =>
      simp only [callers, disturb, Option.ite_none_right_eq_some, Option.some.injEq] at hdist
      rw [← hdist.2]
      exact keeps_refl
  | run i ch =>
    obtain ⟨op, ⟨r⟩⟩ := step_run hs
    have hallowed : Allowed r.act (history c.log i) op := r.licensed allowed h₀.fresh h
    have hins : op.inserts ≠ some id := by
      intro hi
      obtain ⟨ha, hadm, hclean⟩ := hallowed.insertion id hi
      have hflight : inFlight c id i = true :=
        inFlight_iff.mpr ⟨_, _, _, _, r.was, ha, hadm, hclean⟩
      rw [(closing_shut h₀ h hc).nobody i] at hflight
      cases hflight
    have hkeeps := @exec_keeps ch c.state id op hallowed.own hins
    rwa [ran_exec r] at hkeeps

theorem keeps_run (h₀ : Start c₀) (h₁ : (callers b).Reaches GateClear c₀ c₁)
    (hc : Closing c₀ c₁ id) (h₂ : (callers b).Reaches GateClear c₁ c₂) :
    KeepsIdle id c₁.state.store c₂.state.store ∧ Closing c₀ c₂ id := by
  induction h₂ with
  | refl => exact ⟨keeps_refl, hc⟩
  | tail x h hx hs ih =>
    obtain ⟨hk, hc⟩ := ih
    have hk' := keeps_step h₀ (h₁.trans h) hc hs
    exact ⟨⟨fun ht => hk.tasks (hk'.tasks ht), fun ha => hk.agents (hk'.agents ha)⟩, hc.step hs⟩

/-- The project has no pending or dispatched task and no agent that is not stopped. -/
def Idle (c : ProjectConfig) (id : ProjectId) : Prop :=
  c.state.hasActiveTasks id = false ∧ c.state.hasLiveAgents id = false

theorem no_tasks {w w' : World} (hk : KeepsIdle id w.store w'.store)
    (h : w.hasActiveTasks id = false) : w'.hasActiveTasks id = false := by
  apply Bool.eq_false_of_not_eq_true
  intro ht
  have hb : w.hasActiveTasks id = true := hk.tasks ht
  rw [h] at hb
  cases hb

theorem no_agents {w w' : World} (hk : KeepsIdle id w.store w'.store)
    (h : w.hasLiveAgents id = false) : w'.hasLiveAgents id = false := by
  apply Bool.eq_false_of_not_eq_true
  intro ha
  have hb : w.hasLiveAgents id = true := hk.agents ha
  rw [h] at hb
  cases hb

theorem Idle.kept (h : Idle c id) (hk : KeepsIdle id c.state.store c'.state.store) :
    Idle c' id := ⟨no_tasks hk h.1, no_agents hk h.2⟩

theorem applied_archived {h : History} {r : op.Resp} (hl : Licensed h op)
    (ha : op.applied r = some (id, .archived)) :
    op = .archiveLocked id ∨ ∃ fence, op = .archiveDrained id fence := by
  cases op with
  | statusLocked j t =>
    simp only [Op.applied, Option.ite_none_right_eq_some, Option.some.injEq, Prod.mk.injEq] at ha
    cases hl.symm.trans ha.2.2
  | updateStatus j t fence =>
    simp only [Op.applied, Option.ite_none_right_eq_some, Option.some.injEq, Prod.mk.injEq] at ha
    cases hl.symm.trans ha.2.2
  | archiveLocked j =>
    simp only [Op.applied, Option.ite_none_right_eq_some, Option.some.injEq, Prod.mk.injEq] at ha
    rw [ha.2.1]
    exact .inl rfl
  | archiveDrained j fence =>
    simp only [Op.applied, Option.ite_none_right_eq_some, Option.some.injEq, Prod.mk.injEq] at ha
    rw [ha.2.1]
    exact .inr ⟨fence, rfl⟩
  | _ => cases ha

/-- Behind its own look at the gate, what an archive has found idle is idle for good. -/
theorem idle_since (h₀ : Start c₀) (h : (callers b).Reaches GateClear c₀ c) {e : Entry Op Op.Resp}
    {h' : History} (hs : e :: h' <:+ history c.log i)
    (hg : (⟨.isDraining id, true⟩ : Entry Op Op.Resp) ∈ h') :
    ∃ c₁ c₂ ch, ∃ r : (callers b).Ran c₁ c₂ i ch e.op, r.resp = e.resp ∧ Closing c₀ c₁ id ∧
      KeepsIdle id c₁.state.store c.state.store := by
  obtain ⟨c₁, c₂, ch, r, hr, hh, h₁, h₂, h₃⟩ := h.at_history h₀.fresh hs
  rw [← hh] at hg
  obtain ⟨k, hk, -, hke⟩ := mem_history.mp hg
  have hc : Closing c₀ c₁ id := by
    refine .inr ⟨k, hk, ?_⟩
    change k.entry.op.passed k.entry.resp = some id
    rw [hke]
    rfl
  exact ⟨c₁, c₂, ch, r, hr, hc, (keeps_run h₀ h₁ hc (h₂.trans h₃)).1⟩

theorem archived_idle (h₀ : Start c₀) (h : (callers b).Reaches GateClear c₀ c) :
    c.state.status id = some .archived → Closing c₀ c id ∧ Idle c id := by
  apply h.invariant (P := fun c => c.state.status id = some .archived →
    Closing c₀ c id ∧ Idle c id)
  · intro ha
    exact ⟨.inl ha, h₀.idle id ha⟩
  · intro c x c' hr hx hs ih ha
    have later (hc : Closing c₀ c id) (hi : Idle c id) : Closing c₀ c' id ∧ Idle c' id :=
      ⟨hc.step hs, hi.kept (keeps_step h₀ hr hc hs)⟩
    rcases @step_moves b c c' x id hs with he | ⟨-, hactive⟩ | ⟨i, ch, op, r, t, rfl, happ⟩
    · obtain ⟨hc, hi⟩ := ih (he.symm.trans ha)
      exact later hc hi
    · rw [hactive] at ha
      cases ha
    · have hstatus := applied_status r happ
      rw [ha] at hstatus
      cases hstatus
      have hlicensed : Licensed (history c.log i) op := r.licensed disciplined h₀.fresh hr
      have hallowed : Allowed r.act (history c.log i) op := r.licensed allowed h₀.fresh hr
      rcases applied_archived hlicensed happ with rfl | ⟨fence, rfl⟩
      · obtain ⟨h', hh⟩ := hallowed.locked id rfl
        -- what the looks before the lock saw
        have hagents : (⟨.hasLiveAgents id, false⟩ : Entry Op Op.Resp) ::
            ⟨.hasActiveTasks id, false⟩ :: ⟨.isDraining id, true⟩ :: h' <:+ history c.log i := by
          rw [hh]
        have htasks := (List.suffix_cons _ _).trans hagents
        obtain ⟨c₁, c₂, ch₁, r₁, hr₁, hc, hk₁⟩ := idle_since h₀ hr hagents (.tail _ (.head _))
        obtain ⟨c₃, c₄, ch₃, r₃, hr₃, -, hk₃⟩ := idle_since h₀ hr htasks (.head _)
        have hlive : c₁.state.hasLiveAgents id = false := (congrArg Prod.fst (ran_exec r₁)).trans hr₁
        have hactive : c₃.state.hasActiveTasks id = false :=
          (congrArg Prod.fst (ran_exec r₃)).trans hr₃
        have hclosing : Closing c₀ c id := by
          have hmem : (⟨.isDraining id, true⟩ : Entry Op Op.Resp) ∈ history c.log i := by
            rw [hh]
            simp
          obtain ⟨k, hk, -, hke⟩ := mem_history.mp hmem
          refine .inr ⟨k, hk, ?_⟩
          change k.entry.op.passed k.entry.resp = some id
          rw [hke]
          rfl
        exact later hclosing ⟨no_tasks hk₃ hactive, no_agents hk₁ hlive⟩
      · have hresp : r.resp = true := by
          simp only [Op.applied, Option.ite_none_right_eq_some] at happ
          exact happ.1
        have hexec : (if c.state.mayArchive id fence then c.state.setStatus id .archived
            else (false, c.state)) = (r.resp, c'.state) := ran_exec r
        have hmay : c.state.mayArchive id fence = true := by
          by_contra hn
          rw [if_neg hn, hresp] at hexec
          cases congrArg Prod.fst hexec
        rw [if_pos hmay] at hexec
        have hstore : c'.state.store = c.state.store := (congrArg (·.2.store) hexec).symm
        simp only [World.mayArchive, Bool.and_eq_true, Bool.not_eq_true'] at hmay
        refine ⟨.inr ⟨_, by rw [r.log]; exact List.mem_cons_self, ?_⟩, ?_⟩
        · simp [Op.passed, hresp]
        · unfold Idle World.hasActiveTasks World.hasLiveAgents
          rw [hstore]
          exact ⟨hmay.1.1.2, hmay.1.2⟩

end Runs

/-- In every run in which nobody is in flight to a project when the gate of its archive opens, an
archived project has nothing active in it, then and ever after. -/
theorem archived_stays_idle {b : Backend} {c₀ c₁ c₂ : ProjectConfig} (h₀ : Start c₀)
    (h₁ : (callers b).Reaches GateClear c₀ c₁) (id : ProjectId)
    (ha : c₁.state.status id = some .archived) (h₂ : (callers b).Reaches GateClear c₁ c₂) :
    c₂.state.hasActiveTasks id = false ∧ c₂.state.hasLiveAgents id = false := by
  obtain ⟨hc, hi⟩ := archived_idle h₀ h₁ ha
  exact hi.kept (keeps_run h₀ h₁ hc h₂).1

section Examples

def newTask : Task :=
  { id := ⟨7⟩, prompt := "p", createdAt := 0, createdBy := "mcp", threadId := ⟨7⟩,
    projectId := some ⟨1⟩ }

theorem oneProject_start : Start oneProject where
  fresh := ⟨rfl, rfl⟩
  idle := by
    intro id _
    exact ⟨rfl, rfl⟩

/-- A submission is stored and ends, and the project is archived. -/
def archivedAfter : List ProjectAction :=
  [.start () (.dispatchTask newTask)] ++ runs 0 2 ++
    [.env (.others (Store.withTask StoreState.empty
      { newTask with status := .cancelled "not needed" 0 })),
      .start () (.archiveProject ⟨1⟩ none)] ++ runs 1 5

/-- The next submission is refused. -/
def submittedLate : List ProjectAction :=
  [.start () (.dispatchTask { newTask with id := ⟨8⟩ })] ++ runs 2 1

theorem late_submission_refused :
    ((callers .pg).after ((callers .pg).after oneProject archivedAfter)
      submittedLate).state.hasActiveTasks ⟨1⟩ = false := by
  have hfirst : (callers .pg).replayWhile gateClear oneProject archivedAfter =
      some ((callers .pg).after oneProject archivedAfter) := rfl
  have hthen : (callers .pg).replayWhile gateClear ((callers .pg).after oneProject archivedAfter)
      submittedLate = some ((callers .pg).after ((callers .pg).after oneProject archivedAfter)
        submittedLate) := rfl
  exact (archived_stays_idle oneProject_start (replayWhile_reaches hfirst) ⟨1⟩ rfl
    (replayWhile_reaches hthen)).1

/-- A submission has found the project active when its archive begins, and is through. -/
def overtaken : List ProjectAction :=
  [.start () (.dispatchTask newTask)] ++ runs 0 1 ++ [.start () (.archiveProject ⟨1⟩ none)] ++
    runs 1 5

/-- It inserts its task into the archived project. -/
theorem archived_gets_task : ∃ c c' : ProjectConfig,
    (callers .pg).Reaches always oneProject c ∧ (callers .pg).step c (.run 0 {}) = some c' ∧
      c.state.status ⟨1⟩ = some .archived ∧ c.state.hasActiveTasks ⟨1⟩ = false ∧
      c'.state.status ⟨1⟩ = some .archived ∧ c'.state.hasActiveTasks ⟨1⟩ = true :=
  ⟨(callers .pg).after oneProject overtaken, (callers .pg).after oneProject (overtaken ++ runs 0 1),
    after_reaches _, rfl, rfl, rfl, rfl, rfl⟩

end Examples

end FleetOrchestrator.Projects
