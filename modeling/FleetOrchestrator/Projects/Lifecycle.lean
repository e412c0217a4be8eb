import FleetOrchestrator.Interleaving.Discipline
import FleetOrchestrator.Interleaving.Log
import FleetOrchestrator.Projects.Archive

/-! How the status of a project moves while any number of callers archive it. -/

namespace FleetOrchestrator.Projects

open Core Tables Store Interleaving Machine

/-- The status that the step has written, going by its answer. -/
def Op.applied : (op : Op) → op.Resp → Option (ProjectId × ProjectStatus)
  | .statusLocked id t, r => if r then some (id, t) else none
  | .updateStatus id t _, r => if r then some (id, t) else none
  | .archiveLocked id, r => if r then some (id, .archived) else none
  | .archiveDrained id _, r => if r then some (id, .archived) else none
  | _, _ => none

abbrev Applied (id : ProjectId) (t : ProjectStatus) (e : Entry Op Op.Resp) : Prop :=
  e.op.applied e.resp = some (id, t)

section Steps

variable {ch : Choice} {w : World} {id : ProjectId}

theorem setStatus_applied {j : ProjectId} {t : ProjectStatus} :
    (w.setStatus j t).2.status id =
      if (w.setStatus j t).1 ∧ id = j then some t else w.status id := by
  rw [status_setStatus, setStatus_found]
  by_cases h : id = j
  · subst h
    cases hs : w.status id with
    | none => simp
    | some s => simp
  · simp [h]

/-- What the status is after a step, by what the step has written. -/
theorem exec_status (op : Op) :
    (op.exec ch w).2.status id =
      match op.applied (op.exec ch w).1 with
      | none => w.status id
      | some (j, t) => if id = j then some t else w.status id := by
  have written {j : ProjectId} {t : ProjectStatus} (c : Prop) [Decidable c] :
      (if c then w.setStatus j t else (false, w)).2.status id =
        match (if (if c then w.setStatus j t else (false, w)).1 then some (j, t) else none) with
        | none => w.status id
        | some (j, t) => if id = j then some t else w.status id := by
    by_cases hc : c
    · rw [if_pos hc, setStatus_applied]
      cases (w.setStatus j t).1 with
      | false => simp
      | true => simp
    · rw [if_neg hc]
      rfl
  cases op with
  | statusLocked j t => exact written True
  | updateStatus j t fence => exact written _
  | archiveLocked j => exact written _
  | archiveDrained j fence => exact written _
  | _ => rfl

/-- The step writes the status whatever it is. -/
def Op.overwrites : Op → World → Option ProjectId
  | .statusLocked id _, _ => some id
  | .updateStatus id _ fence, w => if w.leaseHolds fence then some id else none
  | _, _ => none

theorem exec_applied {op : Op} {t : ProjectStatus}
    (h : op.applied (op.exec ch w).1 = some (id, t)) :
    (op.overwrites w = some id ∧ (w.status id).isSome = true) ∨
      (t = .archived ∧ w.status id = some .draining) := by
  have found {j : ProjectId} {t' : ProjectStatus} (c : Prop) [Decidable c]
      (h : (if (if c then w.setStatus j t' else (false, w)).1 then some (j, t') else none) =
        some (id, t)) : c ∧ j = id ∧ t' = t ∧ (w.status j).isSome = true := by
    by_cases hc : c
    · rw [if_pos hc] at h
      split_ifs at h with hf
      cases h
      rw [setStatus_found] at hf
      exact ⟨hc, rfl, rfl, hf⟩
    · rw [if_neg hc] at h
      cases h
  cases op with
  | statusLocked j t' =>
    obtain ⟨-, rfl, -, hs⟩ := found True h
    exact .inl ⟨rfl, hs⟩
  | updateStatus j t' fence =>
    obtain ⟨hf, rfl, -, hs⟩ := found _ h
    exact .inl ⟨if_pos hf, hs⟩
  | archiveLocked j =>
    obtain ⟨hd, rfl, rfl, -⟩ := found _ h
    exact .inr ⟨rfl, of_decide_eq_true hd⟩
  | archiveDrained j fence =>
    obtain ⟨hd, rfl, rfl, -⟩ := found _ h
    simp only [World.mayArchive, Bool.and_eq_true] at hd
    exact .inr ⟨rfl, of_decide_eq_true hd.1.1.1⟩
  | _ => cases h

end Steps

section Conduct

/-- Only `Draining` is written without a look at the status, and a report follows its write. -/
def Licensed (h : History) : Op → Prop
  | .statusLocked _ t => t = .draining
  | .updateStatus _ t _ => t = .draining
  | .onTransition id t => ∃ e h', h = e :: h' ∧ Applied id t e
  | _ => True

/-- Every write is reported. -/
def Told (h : History) : Prop :=
  ∀ id t, (∃ e ∈ h, Applied id t e) → (⟨.onTransition id t, ()⟩ : Entry Op Op.Resp) ∈ h

def Op.isQuiet : Op → Bool
  | .statusLocked _ _ | .updateStatus _ _ _ | .archiveLocked _ | .archiveDrained _ _
  | .onTransition _ _ => false
  | _ => true

variable {h h' : History} {α : Type} {p : Call α} {b : Backend} {id : ProjectId}
  {fence : Option ControlFence}

theorem quiet_applied {e : Entry Op Op.Resp} (he : e.op.isQuiet = true) : e.op.applied e.resp = none := by
  obtain ⟨op, r⟩ := e
  cases op <;> first | rfl | cases he

theorem quiet_licensed {op : Op} (ho : op.isQuiet = true) : Licensed h op := by
  cases op <;> trivial

theorem told_grew (ht : Told h) (hg : Grew (fun op => op.isQuiet = true) h h') : Told h' := by
  obtain ⟨new, rfl, hn⟩ := hg
  rintro id t ⟨e, he, ha⟩
  rcases List.mem_append.mp he with he | he
  · rw [Applied, quiet_applied (hn e he)] at ha
    cases ha
  · exact List.mem_append_right _ (ht id t ⟨e, he, ha⟩)

/-- The program neither writes a status nor reports one. -/
abbrev Quiet (p : Call α) : Prop := Uses (fun op => op.isQuiet = true) p

theorem told_quiet (ht : Told h) (hu : Quiet p) :
    Obeys Licensed (fun _ h' => Told h') p h :=
  obeys_conseq (obeys_of_uses hu fun _ _ ho => quiet_licensed ho) fun _ _ hg => told_grew ht hg

/-- A call that writes one status at its end, and tells its caller. -/
def Writes (id : ProjectId) (t : ProjectStatus) (r : Bool) (h : History) : Prop :=
  if r then ∃ e h', h = e :: h' ∧ Applied id t e ∧ Told h' else Told h

theorem told_cons {e : Entry Op Op.Resp} (he : e.op.applied e.resp = none) (ht : Told h) :
    Told (e :: h) := by
  rintro id t ⟨e', he', ha⟩
  rcases List.mem_cons.mp he' with rfl | he'
  · rw [Applied, he] at ha
    cases ha
  · exact List.mem_cons_of_mem _ (ht id t ⟨e', he', ha⟩)

theorem told_report {e : Entry Op Op.Resp} {t : ProjectStatus} (ha : Applied id t e)
    (ht : Told h) : Told (⟨.onTransition id t, ()⟩ :: e :: h) := by
  rintro j s ⟨e', he', ha'⟩
  rcases List.mem_cons.mp he' with rfl | he'
  · cases ha'
  · rcases List.mem_cons.mp he' with rfl | he'
    · rw [Applied, ha] at ha'
      cases ha'
      exact List.mem_cons_self
    · exact List.mem_cons_of_mem _ (List.mem_cons_of_mem _ (ht j s ⟨e', he', ha'⟩))

theorem update_conduct (ht : Told h) :
    Obeys Licensed (Writes id .draining) (updateProjectStatus b id .draining fence) h := by
  cases b with
  | pg =>
    apply obeys_perform rfl
    intro r
    cases r with
    | false => exact told_cons rfl ht
    | true => exact ⟨_, _, rfl, rfl, ht⟩
  | mem =>
    apply obeys_call trivial
    intro holds
    have ht' : Told (⟨.readFence fence, holds⟩ :: h) := told_cons rfl ht
    cases holds with
    | false => exact ht'
    | true =>
      apply obeys_perform rfl
      intro r
      cases r with
      | false => exact told_cons rfl ht'
      | true => exact ⟨_, _, rfl, rfl, ht'⟩

theorem archive_conduct (ht : Told h) :
    Obeys Licensed (Writes id .archived) (archiveProjectIfDrained b id fence) h := by
  cases b with
  | pg =>
    apply obeys_perform trivial
    intro r
    cases r with
    | false => exact told_cons rfl ht
    | true => exact ⟨_, _, rfl, rfl, ht⟩
  | mem =>
    have refused {h : History} (ht : Told h) :
        Obeys Licensed (Writes id .archived) (.ret false : Call Bool) h := ht
    apply obeys_call trivial
    intro holds
    replace ht : Told (⟨.readFence fence, holds⟩ :: h) := told_cons rfl ht
    cases holds with
    | false => exact refused ht
    | true =>
      apply obeys_call trivial
      intro draining
      replace ht := told_cons (e := ⟨.isDraining id, draining⟩) rfl ht
      cases draining with
      | false => exact refused ht
      | true =>
        apply obeys_call trivial
        intro tasks
        replace ht := told_cons (e := ⟨.hasActiveTasks id, tasks⟩) rfl ht
        cases tasks with
        | true => exact refused ht
        | false =>
          apply obeys_call trivial
          intro agents
          replace ht := told_cons (e := ⟨.hasLiveAgents id, agents⟩) rfl ht
          cases agents with
          | true => exact refused ht
          | false =>
            apply obeys_perform trivial
            intro r
            cases r with
            | false => exact told_cons rfl ht
            | true => exact ⟨_, _, rfl, rfl, ht⟩

theorem whyClosed_uses {allowed : Op → Prop} (ht : allowed (.hasActiveTasks id))
    (ha : allowed (.hasLiveAgents id)) (hp : allowed (.getProject id)) :
    Uses allowed (whyClosed id) := by
  simp only [whyClosed, execute, Prog.perform_bind]
  refine uses_call ht fun tasks => ?_
  refine uses_call ha fun agents => ?_
  split_ifs
  · exact uses_ret _
  · refine uses_call hp fun current => ?_
    split_ifs <;> exact uses_ret _

theorem finish_conduct (ht : Told h) :
    Obeys Licensed (fun _ h' => Told h') (finishArchive b id fence) h := by
  apply obeys_bind (archive_conduct ht)
  intro r h' hw
  cases r with
  | false => exact told_quiet hw (whyClosed_uses rfl rfl rfl)
  | true =>
    obtain ⟨e, h'', rfl, ha, ht⟩ := hw
    exact obeys_call ⟨e, h'', rfl, ha⟩ fun _ => told_report ha ht

theorem advance_conduct (project : Project) (ht : Told h) :
    Obeys Licensed (fun _ h' => Told h') (advanceProjectArchive b project fence) h := by
  unfold advanceProjectArchive
  cases project.status with
  | active =>
    apply obeys_bind (update_conduct ht)
    intro r h' hw
    cases r with
    | false => exact hw
    | true =>
      obtain ⟨e, h'', rfl, ha, ht⟩ := hw
      exact obeys_call ⟨e, h'', rfl, ha⟩ fun _ => finish_conduct (told_report ha ht)
  | draining => exact finish_conduct ht
  | archived => exact ht

theorem told_nil : Told [] := by
  rintro id t ⟨e, he, -⟩
  cases he

theorem ensure_uses {allowed : Op → Prop} {what : String} (hp : ∀ id, allowed (.getProject id)) :
    Uses allowed (ensureProjectActive id what) := by
  simp only [ensureProjectActive, execute, Prog.perform_bind]
  refine uses_call (hp id) fun project => ?_
  cases project with
  | none => exact uses_ret _
  | some project =>
    dsimp only
    split_ifs <;> exact uses_ret _

theorem pin_uses {allowed : Op → Prop} (req : Task) (hp : ∀ id, allowed (.getProject id))
    (ha : ∀ id, allowed (.getAgent id)) : Uses allowed (applyAgentPin req) := by
  unfold applyAgentPin
  cases req.agentId with
  | none => exact uses_ret _
  | some agentId =>
    simp only [execute, Prog.perform_bind]
    split_ifs
    · exact uses_ret _
    · refine uses_call (ha agentId) fun agent => ?_
      cases agent with
      | none => exact uses_ret _
      | some agent =>
        cases req.projectId with
        | none =>
          apply uses_bind (ensure_uses hp)
          intro r
          cases r <;> exact uses_ret _
        | some taskProject =>
          dsimp only
          split_ifs <;> exact uses_ret _

theorem ensure_quiet {what : String} : Quiet (ensureProjectActive id what) :=
  ensure_uses fun _ => rfl

theorem pin_quiet (req : Task) : Quiet (applyAgentPin req) :=
  pin_uses req (fun _ => rfl) fun _ => rfl

theorem submit_quiet (task : Task) : Quiet (submit b task) := by
  apply uses_bind
  · exact uses_embed (uses_all fun _ => rfl)
  · intro r
    cases r <;> exact uses_ret _

theorem pinned_quiet (req : Task) : Quiet (submitPinned b req) := by
  apply uses_bind (pin_quiet req)
  intro r
  cases r with
  | error e => exact uses_ret _
  | ok task => exact submit_quiet task

theorem dispatch_quiet (req : Task) : Quiet (handleDispatchTask b req) := by
  unfold handleDispatchTask
  cases req.projectId with
  | none => exact pinned_quiet req
  | some id =>
    apply uses_bind ensure_quiet
    intro r
    cases r with
    | error e => exact uses_ret _
    | ok project => exact pinned_quiet req

theorem admitted_quiet (task : Task) : Quiet (submitAdmitted b task) := by
  unfold submitAdmitted
  cases task.projectId with
  | none => exact submit_quiet task
  | some id =>
    apply uses_bind ensure_quiet
    intro r
    cases r with
    | error e => exact uses_ret _
    | ok project => exact submit_quiet task

theorem submitTask_quiet (req : Task) (parentTaskId : Option TaskId) :
    Quiet (submitTaskApi b req parentTaskId) := by
  cases parentTaskId with
  | none =>
    apply uses_bind (pin_quiet req)
    intro r
    cases r with
    | error e => exact uses_ret _
    | ok task => exact admitted_quiet task
  | some parentId =>
    refine uses_call (by rfl) fun parent => ?_
    cases parent with
    | none => exact uses_ret _
    | some parent =>
      apply uses_bind (pin_quiet req)
      intro r
      cases r with
      | error e => exact uses_ret _
      | ok task => exact admitted_quiet _

theorem createAgent_quiet (agent : Agent) : Quiet (handleCreateAgent b agent) := by
  apply uses_bind ensure_quiet
  intro r
  cases r with
  | error e => exact uses_ret _
  | ok project =>
    simp only [execute, Prog.perform_bind]
    refine uses_call (by rfl) fun placement => ?_
    apply uses_bind
    · exact uses_embed (uses_all fun _ => rfl)
    · intro r
      cases r <;> exact uses_ret _

theorem program_conduct (a : Activity) :
    Obeys Licensed (fun _ h' => Told h') (program b a) [] := by
  cases a with
  | archiveProject id fence =>
    apply obeys_map
    apply obeys_call trivial
    intro project
    have ht : Told [⟨.getProject id, project⟩] := told_cons rfl told_nil
    cases project with
    | none => exact ht
    | some project => exact obeys_map (advance_conduct project ht)
  | dispatchTask req => exact told_quiet told_nil (uses_map (dispatch_quiet req))
  | submitTask req parent => exact told_quiet told_nil (uses_map (submitTask_quiet req parent))
  | createAgent agent => exact told_quiet told_nil (uses_map (createAgent_quiet agent))

end Conduct

def ProjectStatus.rank : ProjectStatus → ℕ
  | .active => 0
  | .draining => 1
  | .archived => 2

inductive Next : ProjectStatus → ProjectStatus → Prop
  | drain : Next .active .draining
  | archive : Next .draining .archived

theorem Next.rank {s t : ProjectStatus} (h : Next s t) : t.rank = s.rank + 1 := by
  cases h <;> rfl

/-- Whoever is about to write `Draining` finds the project still active. -/
def drainsActive (c : ProjectConfig) : ProjectAction → Bool
  | .run i _ =>
    match (c.next i).bind fun op => op.overwrites c.state with
    | some id => (c.state.status id).all fun s => s = .active
    | none => true
  | _ => true

abbrev DrainsActive (c : ProjectConfig) (x : ProjectAction) : Prop := drainsActive c x = true

section Runs

variable {b : Backend} {c₀ c c' : ProjectConfig} {x : ProjectAction} {id : ProjectId}
  {t : ProjectStatus} {i : ℕ} {ch : Choice} {op : Op}

theorem disciplined :
    (callers b).Disciplined (fun _ _ => Licensed) (fun _ _ _ h => Told h) :=
  fun _ a => program_conduct a

theorem ran_exec (r : (callers b).Ran c c' i ch op) :
    op.exec ch c.state = (r.resp, c'.state) :=
  Option.some.inj r.done

theorem overwrites_drains {h : History} {w : World} {r : op.Resp} (hl : Licensed h op)
    (ho : op.overwrites w = some id) (ha : op.applied r = some (id, t)) : t = .draining := by
  cases op with
  | statusLocked j t' =>
    simp only [Op.applied, Option.ite_none_right_eq_some, Option.some.injEq, Prod.mk.injEq] at ha
    exact ha.2.2.symm.trans hl
  | updateStatus j t' fence =>
    simp only [Op.applied, Option.ite_none_right_eq_some, Option.some.injEq, Prod.mk.injEq] at ha
    exact ha.2.2.symm.trans hl
  | _ => cases ho

theorem applied_closes {h : History} {r : op.Resp} (hl : Licensed h op)
    (ha : op.applied r = some (id, t)) : t ≠ .active := by
  cases op with
  | statusLocked j t' =>
    simp only [Op.applied, Option.ite_none_right_eq_some, Option.some.injEq, Prod.mk.injEq] at ha
    rw [← ha.2.2, hl]
    exact ProjectStatus.noConfusion
  | updateStatus j t' fence =>
    simp only [Op.applied, Option.ite_none_right_eq_some, Option.some.injEq, Prod.mk.injEq] at ha
    rw [← ha.2.2, hl]
    exact ProjectStatus.noConfusion
  | archiveLocked j =>
    simp only [Op.applied, Option.ite_none_right_eq_some, Option.some.injEq, Prod.mk.injEq] at ha
    rw [← ha.2.2]
    exact ProjectStatus.noConfusion
  | archiveDrained j fence =>
    simp only [Op.applied, Option.ite_none_right_eq_some, Option.some.injEq, Prod.mk.injEq] at ha
    rw [← ha.2.2]
    exact ProjectStatus.noConfusion
  | _ => cases ha

theorem applied_status (r : (callers b).Ran c c' i ch op)
    (ha : op.applied r.resp = some (id, t)) : c'.state.status id = some t := by
  have hs := @exec_status ch c.state id op
  rw [ran_exec r, ha] at hs
  simpa using hs

/-- What a step does to the status of one project, in any run. -/
theorem step_moves (hs : (callers b).step c x = some c') :
    c'.state.status id = c.state.status id ∨
      (c.state.status id = none ∧ c'.state.status id = some .active) ∨
      ∃ i ch op, ∃ r : (callers b).Ran c c' i ch op, ∃ t, x = .run i ch ∧
        op.applied r.resp = some (id, t) := by
  cases x with
  | start p a =>
    obtain ⟨hacc, -, -⟩ := step_start hs
    simp only [callers, Option.ite_none_right_eq_some, Option.some.injEq] at hacc
    rw [← hacc.2]
    exact .inl rfl
  | env e =>
    obtain ⟨hdist, -, -⟩ := step_env hs
    cases e with
    | others s =>
      simp only [callers, disturb, Option.ite_none_right_eq_some, Option.some.injEq] at hdist
      rw [← hdist.2]
      exact .inl rfl
    | createProject p =>
      simp only [callers, disturb, Option.ite_none_right_eq_some, Option.some.injEq,
        Bool.and_eq_true, decide_eq_true_eq, Bool.not_eq_true'] at hdist
      obtain ⟨⟨⟨hactive, hnew⟩, -⟩, hstate⟩ := hdist
      rw [← hstate]
      unfold World.status
      by_cases hid : id = p.id
      · subst hid
        have hnone : c.state.projects.get p.id = none := by
          rw [Keyed.contains_eq] at hnew
          simpa using hnew
        rw [Keyed.get_put_self, hnone]
        exact .inr (.inl ⟨rfl, congrArg some hactive⟩)
      · rw [Keyed.get_put_ne hid]
        exact .inl rfl
  | run i ch =>
    obtain ⟨op, ⟨r⟩⟩ := step_run hs
    have hstatus := @exec_status ch c.state id op
    rw [ran_exec r] at hstatus
    cases ha : op.applied r.resp with
    | none =>
      rw [ha] at hstatus
      exact .inl hstatus
    | some jt =>
      obtain ⟨j, t⟩ := jt
      by_cases hj : id = j
      · subst hj
        exact .inr (.inr ⟨i, ch, op, r, t, rfl, ha⟩)
      · rw [ha] at hstatus
        exact .inl (hstatus.trans (if_neg hj))

theorem ran_applied (h₀ : Fresh c₀) (h : (callers b).Reaches DrainsActive c₀ c)
    (r : (callers b).Ran c c' i ch op) (hx : DrainsActive c (.run i ch))
    (ha : op.applied r.resp = some (id, t)) :
    ∃ s, c.state.status id = some s ∧ Next s t ∧ c'.state.status id = some t := by
  have hafter := applied_status r ha
  have hlicensed : Licensed (history c.log i) op := r.licensed disciplined h₀ h
  have hexec : op.applied (op.exec ch c.state).1 = some (id, t) := by rw [ran_exec r, ha]
  rcases exec_applied hexec with ⟨ho, hsome⟩ | ⟨rfl, hd⟩
  · obtain rfl := overwrites_drains hlicensed ho ha
    obtain ⟨s, hs⟩ := Option.isSome_iff_exists.mp hsome
    simp only [DrainsActive, drainsActive, r.next, Option.bind_some, ho, hs, Option.all_some,
      decide_eq_true_eq] at hx
    subst hx
    exact ⟨.active, hs, .drain, hafter⟩
  · exact ⟨.draining, hd, .archive, hafter⟩

/-- What it does where `Draining` is only written to active projects. -/
theorem step_status (h₀ : Fresh c₀) (h : (callers b).Reaches DrainsActive c₀ c)
    (hx : DrainsActive c x) (hs : (callers b).step c x = some c') :
    c'.state.status id = c.state.status id ∨
      (c.state.status id = none ∧ c'.state.status id = some .active) ∨
      ∃ s t, c.state.status id = some s ∧ Next s t ∧ c'.state.status id = some t ∧
        ∃ k, c'.log = k :: c.log ∧ Applied id t k.entry := by
  rcases @step_moves b c c' x id hs with he | hnew | ⟨i, ch, op, r, t, rfl, ha⟩
  · exact .inl he
  · exact .inr (.inl hnew)
  · obtain ⟨s, hs, hn, hs'⟩ := ran_applied h₀ h r hx ha
    exact .inr (.inr ⟨s, t, hs, hn, hs', _, r.log, ha⟩)

/-- The status has come as far as `t`. -/
def Reached (c : ProjectConfig) (id : ProjectId) (t : ProjectStatus) : Prop :=
  ∃ s, c.state.status id = some s ∧ t.rank ≤ s.rank

theorem reached_step (h₀ : Fresh c₀) (h : (callers b).Reaches DrainsActive c₀ c)
    (hx : DrainsActive c x) (hs : (callers b).step c x = some c') (hr : Reached c id t) :
    Reached c' id t := by
  obtain ⟨s, hstatus, hle⟩ := hr
  rcases step_status h₀ h hx hs with he | ⟨hnone, -⟩ | ⟨s', t', hs', hn, ht', -⟩
  · exact ⟨s, he.trans hstatus, hle⟩
  · rw [hnone] at hstatus
    cases hstatus
  · rw [hs'] at hstatus
    cases hstatus
    have := hn.rank
    exact ⟨t', ht', by omega⟩

theorem reached_of_applied (h₀ : Fresh c₀) (h : (callers b).Reaches DrainsActive c₀ c) :
    ∀ k ∈ c.log, Applied id t k.entry → Reached c id t := by
  apply h.logged (P := fun c k => Applied id t k.entry → Reached c id t) h₀
  · intro c c' i ch op r hr hx _ ha
    obtain ⟨s, -, -, ht⟩ := ran_applied h₀ hr r hx ha
    exact ⟨t, ht, le_rfl⟩
  · intro c x c' k hr hx hs _ hp ha
    exact reached_step h₀ hr hx hs (hp ha)

theorem applied_once (h₀ : Fresh c₀) (h : (callers b).Reaches DrainsActive c₀ c) :
    Once (fun k => Applied id t k.entry) c.log := by
  apply h.invariant (P := fun c => Once (fun k => Applied id t k.entry) c.log)
  · rw [h₀.log]
    exact once_nil
  · intro c x c' hr hx hs ih
    cases x with
    | start p a => rwa [(step_start hs).2.2]
    | env e => rwa [(step_env hs).2.2]
    | run i ch =>
      obtain ⟨op, ⟨r⟩⟩ := step_run hs
      rw [r.log]
      apply ih.cons
      intro ha k hk hak
      obtain ⟨s, hstatus, hn, -⟩ := ran_applied h₀ hr r hx ha
      obtain ⟨s', hs', hle⟩ := reached_of_applied h₀ hr k hk hak
      rw [hstatus] at hs'
      cases hs'
      have := hn.rank
      omega

theorem report_follows (h₀ : Fresh c₀) (h : (callers b).Reaches DrainsActive c₀ c)
    {k : Interleaving.Call Op Op.Resp Unit} {l : List (Interleaving.Call Op Op.Resp Unit)}
    (hk : k :: l <:+ c.log) (hr : k.op = .onTransition id t) :
    ∃ e h', history l k.thread = e :: h' ∧ Applied id t e := by
  have hn : ¬ k :: l <:+ c₀.log := by
    rw [h₀.log]
    simp
  obtain ⟨c₁, c₂, ch, h₁, -, -, rfl, ⟨r, -, -⟩, -⟩ := h.step_of_log hk hn
  have hlicensed : Licensed (history c₁.log k.thread) k.op := r.licensed disciplined h₀ h₁
  rw [hr] at hlicensed
  exact hlicensed

theorem reported_once (h₀ : Fresh c₀) (h : (callers b).Reaches DrainsActive c₀ c) :
    Once (fun k => k.op = .onTransition id t) c.log := by
  apply (applied_once h₀ h).follows (fun op => op ≠ .onTransition id t)
  · intro k hk hne
    exact hne hk
  · intro k l hk hr
    obtain ⟨e, h', hh, ha⟩ := report_follows h₀ h hk hr
    refine ⟨h', e, ?_, ?_⟩
    · rw [hh]
      exact Grew.refl _
    · rintro m rfl
      exact ha

/-- The transition is made and reported by one call, the same one. -/
structure Accounted (id : ProjectId) (t : ProjectStatus) (c₀ c : ProjectConfig) : Prop where
  applied : Once (fun k => Applied id t k.entry) c.log
  reported : Once (fun k => k.op = .onTransition id t) c.log
  own : ∀ k ∈ c.log, k.op = .onTransition id t →
    ∃ k' ∈ c.log, k'.thread = k.thread ∧ Applied id t k'.entry
  told : ∀ k ∈ c.log, Applied id t k.entry → ∀ p a out,
    c.threads[k.thread]? = some ⟨p, a, .ret out⟩ →
      ∃ k' ∈ c.log, k'.thread = k.thread ∧ k'.op = .onTransition id t
  crossed : Reached c id t → Reached c₀ id t ∨ ∃ k ∈ c.log, Applied id t k.entry

theorem crossed (ht : t ≠ .active) (h₀ : Fresh c₀) (h : (callers b).Reaches DrainsActive c₀ c) :
    Reached c id t → Reached c₀ id t ∨ ∃ k ∈ c.log, Applied id t k.entry := by
  apply h.invariant (P := fun c => Reached c id t →
    Reached c₀ id t ∨ ∃ k ∈ c.log, Applied id t k.entry)
  · exact .inl
  · intro c x c' hr hx hs ih hreached
    have before (hb : Reached c id t) :
        Reached c₀ id t ∨ ∃ k ∈ c'.log, Applied id t k.entry := by
      rcases ih hb with hb | ⟨k, hk, ha⟩
      · exact .inl hb
      · exact .inr ⟨k, (step_log hs).subset hk, ha⟩
    obtain ⟨s, hstatus, hle⟩ := hreached
    rcases step_status h₀ hr hx hs with he | ⟨-, hactive⟩ | ⟨s', t', hs', hn, ht', k, hk, ha⟩
    · exact before ⟨s, he.symm.trans hstatus, hle⟩
    · rw [hactive] at hstatus
      cases hstatus
      cases t with
      | active => exact absurd rfl ht
      | draining => cases hle
      | archived => cases hle
    · rw [ht'] at hstatus
      cases hstatus
      by_cases hle' : t.rank ≤ s'.rank
      · exact before ⟨s', hs', hle'⟩
      · have := hn.rank
        have heq : t.rank = s.rank := by omega
        have hsame : t = s := by
          cases t <;> cases s <;> first | rfl | cases heq
        rw [hsame, hk]
        exact .inr ⟨k, List.mem_cons_self, ha⟩

theorem accounted (ht : t ≠ .active) (h₀ : Fresh c₀) (h : (callers b).Reaches DrainsActive c₀ c) :
    Accounted id t c₀ c where
  applied := applied_once h₀ h
  reported := reported_once h₀ h
  own := by
    intro k hk hr
    obtain ⟨l, hl⟩ := placed hk
    obtain ⟨e, h', hh, ha⟩ := report_follows h₀ h hl hr
    have he : e ∈ history l k.thread := by
      rw [hh]
      exact List.mem_cons_self
    obtain ⟨k', hk', hthread, rfl⟩ := mem_history.mp he
    exact ⟨k', hl.subset (List.mem_cons_of_mem _ hk'), hthread, ha⟩
  told := by
    intro k hk ha p a out hdone
    have htold : Told (history c.log k.thread) := returned disciplined h₀ h hdone
    have hmem := htold id t ⟨k.entry, mem_history.mpr ⟨k, hk, rfl, rfl⟩, ha⟩
    obtain ⟨k', hk', hthread, he⟩ := mem_history.mp hmem
    exact ⟨k', hk', hthread, congrArg Entry.op he⟩
  crossed := crossed ht h₀ h

end Runs

/-- In every run in which `Draining` is only written to active projects, projects go forward, and
each of the two transitions is made and reported by one call. -/
theorem archive_orderly {b : Backend} {c₀ c : ProjectConfig} (h₀ : Fresh c₀)
    (h : (callers b).Reaches DrainsActive c₀ c) (id : ProjectId) :
    (∀ x c', DrainsActive c x → (callers b).step c x = some c' → ∀ s,
      c.state.status id = some s → ∃ s', c'.state.status id = some s' ∧ (s' = s ∨ Next s s')) ∧
    ∀ t, t ≠ .active → Accounted id t c₀ c := by
  refine ⟨?_, fun t ht => accounted ht h₀ h⟩
  intro x c' hx hs s hstatus
  rcases step_status h₀ h hx hs with he | ⟨hnone, -⟩ | ⟨s', t, hs', hn, ht, -⟩
  · exact ⟨s, he.trans hstatus, .inl rfl⟩
  · rw [hnone] at hstatus
    cases hstatus
  · rw [hs'] at hstatus
    cases hstatus
    exact ⟨t, ht, .inr hn⟩

section Examples

def newProject : Project := { id := ⟨1⟩, name := "acme", createdAt := 0, updatedAt := 0 }

def oneProject : ProjectConfig :=
  ⟨⟨StoreState.empty, Keyed.empty.put newProject⟩, [], []⟩

def runs (i n : ℕ) : List ProjectAction := List.replicate n (.run i {})

/-- The second caller comes when the first has returned. -/
def archivedTwice : List ProjectAction :=
  [.start () (.archiveProject ⟨1⟩ none)] ++ runs 0 5 ++ [.start () (.archiveProject ⟨1⟩ none)] ++
    runs 1 1

theorem archived_in_order :
    Accounted ⟨1⟩ .draining oneProject ((callers .pg).after oneProject archivedTwice) ∧
      Accounted ⟨1⟩ .archived oneProject ((callers .pg).after oneProject archivedTwice) := by
  have hreach : (callers .pg).replayWhile drainsActive oneProject archivedTwice =
      some ((callers .pg).after oneProject archivedTwice) := rfl
  have horder := (archive_orderly ⟨rfl, rfl⟩ (replayWhile_reaches hreach) ⟨1⟩).2
  exact ⟨horder .draining (by decide), horder .archived (by decide)⟩

/-- Both callers have read the project while it was active, and the first is through. -/
def bothRead : List ProjectAction :=
  [.start () (.archiveProject ⟨1⟩ none), .start () (.archiveProject ⟨1⟩ none)] ++ runs 0 1 ++
    runs 1 1 ++ runs 0 4

/-- The second one takes the archived project back, and reports `Draining` once more. -/
theorem archived_drains_again : ∃ c c' c'' : ProjectConfig,
    (callers .pg).Reaches always oneProject c ∧ (callers .pg).step c (.run 1 {}) = some c' ∧
      c.state.status ⟨1⟩ = some .archived ∧ c'.state.status ⟨1⟩ = some .draining ∧
      (callers .pg).step c' (.run 1 {}) = some c'' ∧
      ¬ Once (fun k => k.op = .onTransition ⟨1⟩ .draining) c''.log := by
  refine ⟨(callers .pg).after oneProject bothRead,
    (callers .pg).after oneProject (bothRead ++ runs 1 1),
    (callers .pg).after oneProject (bothRead ++ runs 1 2), after_reaches _, rfl, rfl, rfl, rfl, ?_⟩
  intro h
  -- the first report is the third newest entry before the second caller's write
  refine h _ _ List.suffix_rfl rfl ⟨0, (), .onTransition ⟨1⟩ .draining, ()⟩ ?_ rfl
  exact .tail _ (.tail _ (.tail _ (.head _)))

end Examples

end FleetOrchestrator.Projects
