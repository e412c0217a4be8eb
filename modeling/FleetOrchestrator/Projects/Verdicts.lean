import FleetOrchestrator.Interleaving.Surroundings
import FleetOrchestrator.Projects.Archive

/-! The verdict of an archive call while the tasks, the agents and the lease of the project change
between any two of its statements. -/

namespace FleetOrchestrator.Projects

open Core Tables Store Interleaving

/-- A world with all the worlds that a call has lived through, the newest first. -/
structure Witnessed where
  world : World
  seen : List World

/-- The store goes through the states, and then the statement is carried out. -/
def witness (ch : Choice) (states : List StoreState) (op : Op) (σ : Witnessed) :
    op.Resp × Witnessed :=
  let before : World := { σ.world with store := states.getLast?.getD σ.world.store }
  let r := op.exec ch before
  let passed := states.map fun s => { σ.world with store := s }
  (r.1, ⟨r.2, r.2 :: before :: (passed ++ σ.seen)⟩)

/-- The `n`-th list of states is what the store goes through before the `n`-th statement. -/
def archiveAmid (b : Backend) (ch : Choice) (w : World) (project : Project)
    (fence : Option ControlFence) (env : ℕ → List StoreState) :
    ArchiveProgress × List World :=
  let r := (advanceProjectArchive b project fence).amid (witness ch) env ⟨w, [w]⟩
  (r.1, r.2.2.seen)

/-- What a verdict says of the worlds that the call has lived through. -/
def Truthful (project : Project) (fence : Option ControlFence) (seen : List World) :
    ArchiveProgress → Prop
  | .fenced => ∃ w ∈ seen, w.store.controlFenceHolds fence = false
  | .draining blockers => blockers.any = true ∧
      (blockers.activeTasks = true → ∃ w ∈ seen, w.hasActiveTasks project.id = true) ∧
      (blockers.liveAgents = true → ∃ w ∈ seen, w.hasLiveAgents project.id = true)
  | .archived => project.status = .archived ∨
      ∃ w ∈ seen, w.status project.id = some .archived

/-- The store that the `n`-th statement meets. A call on a project changes only the project. -/
def storeAt (s : StoreState) (env : ℕ → List StoreState) : ℕ → StoreState
  | 0 => (env 0).getLast?.getD s
  | n + 1 => storeAt ((env 0).getLast?.getD s) (fun m => env (m + 1)) n

def busy (s : StoreState) (id : ProjectId) : Bool := s.tasks.rows.any (activeIn id)

def manned (s : StoreState) (id : ProjectId) : Bool := s.agents.rows.any (liveIn id)

/-- Two reads, the first by the `n`-th statement, that find nothing. -/
def FindsNothing (id : ProjectId) (at_ : ℕ → StoreState) (n : ℕ) : Prop :=
  busy (at_ n) id = false ∧ manned (at_ (n + 1)) id = false

/-- What the gate is refused for is gone when the reads look. -/
def Vanishes (id : ProjectId) (at_ : ℕ → StoreState) : Backend → Prop
  | .pg => (busy (at_ 0) id = true ∨ manned (at_ 0) id = true) ∧ FindsNothing id at_ 1
  | .mem => (busy (at_ 2) id = true ∧ FindsNothing id at_ 3) ∨
      (busy (at_ 2) id = false ∧ manned (at_ 3) id = true ∧ FindsNothing id at_ 4)

/-- The gate at statement 0 is refused for no fence, and the reads do not see why. -/
def Overlooks (b : Backend) (id : ProjectId) (status : Option ProjectStatus)
    (at_ : ℕ → StoreState) : Prop :=
  match status with
  | some .draining => Vanishes id at_ b
  | some .archived => False
  | _ => FindsNothing id at_ (match b with | .mem => 2 | .pg => 1)

/-- The statements that make an active project a draining one. -/
def drainSteps : Backend → ℕ
  | .mem => 3
  | .pg => 2

/-- The project is not there, or not in the status that the caller read, or it loses the last of
what held it back between the refusal and the reads. -/
def Misreads (b : Backend) (w : World) (project : Project) (env : ℕ → List StoreState) : Prop :=
  match project.status with
  | .active => w.status project.id = none ∨
      Overlooks b project.id (some .draining) fun n => storeAt w.store env (n + drainSteps b)
  | .draining => Overlooks b project.id (w.status project.id) (storeAt w.store env)
  | .archived => False

section Runs

variable {ch : Choice} {σ : Witnessed} {env : ℕ → List StoreState} {id : ProjectId}
  {fence : Option ControlFence} {α : Type}

theorem amid_seen (p : Call α) : σ.seen ⊆ (p.amid (witness ch) env σ).2.2.seen := by
  induction p generalizing env σ with
  | ret a => exact List.Subset.refl _
  | call op k ih =>
    refine List.Subset.trans ?_ (ih _)
    intro w hw
    exact List.mem_cons_of_mem _ (List.mem_cons_of_mem _ (List.mem_append_right _ hw))

theorem archived_iff (o : Option Project) :
    (o.any fun p => p.status = .archived) = true ↔ o.map Project.status = some .archived := by
  cases o with
  | none => simp
  | some p => simp

/-- What the three reads make of the worlds that they meet. -/
theorem whyClosed_run : ((whyClosed id).amid (witness ch) env σ).1 =
    if busy (storeAt σ.world.store env 0) id || manned (storeAt σ.world.store env 1) id then
      .draining ⟨busy (storeAt σ.world.store env 0) id, manned (storeAt σ.world.store env 1) id⟩
    else if σ.world.status id = some .archived then .archived else .fenced := by
  simp only [whyClosed, execute, Prog.perform_bind, Prog.amid, witness, Op.exec]
  change (Prog.amid (witness ch) (if (busy (storeAt σ.world.store env 0) id ||
    manned (storeAt σ.world.store env 1) id) = true then _ else _) _ _).1 = _
  split
  · rfl
  · simp only [Prog.amid, archived_iff]
    change (Prog.amid (witness ch) (if σ.world.status id = some .archived then _ else _) _ _).1 = _
    split <;> rfl

theorem whyClosed_fenced : ((whyClosed id).amid (witness ch) env σ).1 = .fenced ↔
    FindsNothing id (storeAt σ.world.store env) 0 ∧ σ.world.status id ≠ some .archived := by
  rw [whyClosed_run, FindsNothing]
  split
  · next h =>
    constructor
    · nofun
    · rintro ⟨⟨ht, ha⟩, -⟩
      simp [ht, ha] at h
  · next h =>
    simp only [Bool.or_eq_true, not_or, Bool.not_eq_true] at h
    split
    · next hs => exact ⟨nofun, fun hn => absurd hs hn.2⟩
    · next hs => exact ⟨fun _ => ⟨h, hs⟩, fun _ => rfl⟩

/-- The world that a statement meets. -/
def met (σ : Witnessed) (env : ℕ → List StoreState) : World :=
  { σ.world with store := storeAt σ.world.store env 0 }

theorem met_seen {op : Op} {k : op.Resp → Call α} :
    met σ env ∈ ((Prog.call op k).amid (witness ch) env σ).2.2.seen :=
  amid_seen (k _) (List.mem_cons_of_mem _ List.mem_cons_self)

theorem second_seen {op : Op} {k : op.Resp → Call α}
    (h : ∀ r, ∃ (next : Op) (k' : next.Resp → Call α), k r = .call next k') :
    met (witness ch (env 0) op σ).2 (fun n => env (n + 1)) ∈
      ((Prog.call op k).amid (witness ch) env σ).2.2.seen := by
  obtain ⟨next, k', hk⟩ := h (witness ch (env 0) op σ).1
  rw [Prog.amid, hk]
  exact met_seen

theorem whyClosed_truthful {project : Project}
    (hne : ((whyClosed project.id).amid (witness ch) env σ).1 ≠ .fenced) :
    Truthful project fence ((whyClosed project.id).amid (witness ch) env σ).2.2.seen
      ((whyClosed project.id).amid (witness ch) env σ).1 := by
  have hfirst : met σ env ∈ ((whyClosed project.id).amid (witness ch) env σ).2.2.seen := met_seen
  have hsecond : met (witness ch (env 0) (.hasActiveTasks project.id) σ).2
      (fun n => env (n + 1)) ∈ ((whyClosed project.id).amid (witness ch) env σ).2.2.seen := by
    exact second_seen fun r => ⟨.hasLiveAgents project.id, _, rfl⟩
  rw [whyClosed_run] at hne ⊢
  split
  · next h => exact ⟨h, fun ht => ⟨_, hfirst, ht⟩, fun ha => ⟨_, hsecond, ha⟩⟩
  · split
    · next hs => exact .inr ⟨_, hfirst, hs⟩
    · next h hs =>
      rw [if_neg h, if_neg hs] at hne
      exact absurd rfl hne

theorem draining_archives {w : World} (h : w.status id = some .draining) :
    (w.setStatus id .archived).1 = true ∧
      (w.setStatus id .archived).2.status id = some .archived := by
  rw [setStatus_found, status_setStatus, if_pos rfl, h]
  exact ⟨rfl, rfl⟩

theorem exec_archiveDrained (w : World) : Op.exec ch (.archiveDrained id fence) w =
    if w.mayArchive id fence then (true, (w.setStatus id .archived).2) else (false, w) := by
  change (if w.mayArchive id fence then w.setStatus id .archived else (false, w)) = _
  by_cases h : w.mayArchive id fence = true
  · have hs : w.status id = some .draining := by
      simp only [World.mayArchive, World.isDraining, Bool.and_eq_true, decide_eq_true_eq] at h
      exact h.1.1.1
    rw [if_pos h, if_pos h, ← (draining_archives hs).1]
  · rw [if_neg h, if_neg h]

theorem exec_archiveLocked {w : World} (h : w.status id = some .draining) :
    (Op.exec ch (.archiveLocked id) w).1 = true ∧
      (Op.exec ch (.archiveLocked id) w).2.status id = some .archived := by
  have hexec : Op.exec ch (.archiveLocked id) w = w.setStatus id .archived :=
    if_pos (decide_eq_true h)
  rw [hexec]
  exact draining_archives h

theorem storeAt_shift {s : StoreState} {n k : ℕ} :
    storeAt (storeAt s env n) (fun m => env (m + (n + 1))) k = storeAt s env (k + (n + 1)) := by
  induction n generalizing s env with
  | zero => rfl
  | succ n ih => exact @ih (fun m => env (m + 1)) ((env 0).getLast?.getD s)

theorem finish_opened {b : Backend} {σ' : Witnessed} {env' : ℕ → List StoreState}
    (h : (archiveProjectIfDrained b id fence).amid (witness ch) env σ = (true, env', σ')) :
    (finishArchive b id fence).amid (witness ch) env σ =
      (.archived, fun n => env' (n + 1), (witness ch (env' 0) (.onTransition id .archived) σ').2) := by
  rw [finishArchive, Prog.amid_bind, h]
  rfl

theorem finish_refused {b : Backend} {σ' : Witnessed} {env' : ℕ → List StoreState}
    (h : (archiveProjectIfDrained b id fence).amid (witness ch) env σ = (false, env', σ')) :
    (finishArchive b id fence).amid (witness ch) env σ =
      (whyClosed id).amid (witness ch) env' σ' := by
  rw [finishArchive, Prog.amid_bind, h]
  rfl

/-- A gate that was refused by its `n`-th statement. -/
theorem refused_fenced {b : Backend} {n : ℕ} {σ' : Witnessed}
    (h : (archiveProjectIfDrained b id fence).amid (witness ch) env σ =
      (false, fun m => env (m + (n + 1)), σ'))
    (hw : σ'.world = { σ.world with store := storeAt σ.world.store env n }) :
    ((finishArchive b id fence).amid (witness ch) env σ).1 = .fenced ↔
      FindsNothing id (storeAt σ.world.store env) (n + 1) ∧
        σ.world.status id ≠ some .archived := by
  rw [finish_refused h, whyClosed_fenced, hw, FindsNothing, storeAt_shift, storeAt_shift,
    Nat.zero_add, FindsNothing, Nat.add_comm (0 + 1)]
  exact Iff.rfl

theorem overlooks_closed {b : Backend} {status : Option ProjectStatus} {at_ : ℕ → StoreState}
    (h : status ≠ some .draining) : Overlooks b id status at_ ↔
      FindsNothing id at_ (match b with | .mem => 2 | .pg => 1) ∧ status ≠ some .archived := by
  match status with
  | some .draining => exact absurd rfl h
  | some .archived => exact ⟨nofun, fun h => h.2 rfl⟩
  | some .active => exact ⟨fun h => ⟨h, nofun⟩, And.left⟩
  | none => exact ⟨fun h => ⟨h, nofun⟩, And.left⟩

theorem finish_pg (hf : (storeAt σ.world.store env 0).controlFenceHolds fence = true) :
    ((finishArchive .pg id fence).amid (witness ch) env σ).1 = .fenced ↔
      Overlooks .pg id (σ.world.status id) (storeAt σ.world.store env) := by
  have hlease : (met σ env).leaseHolds fence = true := (leaseHolds_eq fence).trans hf
  have hopen : (met σ env).mayArchive id fence = true ↔ σ.world.status id = some .draining ∧
      busy (storeAt σ.world.store env 0) id = false ∧
      manned (storeAt σ.world.store env 0) id = false := by
    simp only [World.mayArchive, hlease, World.isDraining, Bool.and_true, Bool.and_eq_true,
      decide_eq_true_eq, Bool.not_eq_true', and_assoc]
    exact Iff.rfl
  have hexec : Op.exec ch (.archiveDrained id fence) (met σ env) = _ := exec_archiveDrained _
  by_cases hmay : (met σ env).mayArchive id fence = true
  · obtain ⟨hs, ht, ha⟩ := hopen.mp hmay
    rw [if_pos hmay] at hexec
    have hgate : (archiveProjectIfDrained .pg id fence).amid (witness ch) env σ =
        (true, fun n => env (n + 1), (witness ch (env 0) (.archiveDrained id fence) σ).2) :=
      congrArg (fun r => (r, _)) (congrArg Prod.fst hexec)
    rw [finish_opened hgate, hs]
    constructor
    · intro hfenced
      cases hfenced
    · rintro ⟨hb | hm, -⟩
      · exact absurd hb (by simp [ht])
      · exact absurd hm (by simp [ha])
  · rw [if_neg hmay] at hexec
    have hgate : (archiveProjectIfDrained .pg id fence).amid (witness ch) env σ =
        (false, fun n => env (n + 1), (witness ch (env 0) (.archiveDrained id fence) σ).2) :=
      congrArg (fun r => (r, _)) (congrArg Prod.fst hexec)
    rw [refused_fenced (n := 0) hgate (congrArg Prod.snd hexec)]
    by_cases hs : σ.world.status id = some .draining
    · have hblocked : busy (storeAt σ.world.store env 0) id = true ∨
          manned (storeAt σ.world.store env 0) id = true := by
        by_contra hno
        simp only [not_or, Bool.not_eq_true] at hno
        exact hmay (hopen.mpr ⟨hs, hno⟩)
      rw [hs]
      exact ⟨fun h => ⟨hblocked, h.1⟩, fun h => ⟨h.2, fun hno => by cases hno⟩⟩
    · exact (overlooks_closed (b := .pg) hs).symm

theorem archiveIfDrained_mem : archiveProjectIfDrained .mem id fence =
    .call (.readFence fence) fun held =>
      if held then
        .call (.isDraining id) fun draining =>
          if draining then
            .call (.hasActiveTasks id) fun activeTasks =>
              if activeTasks then .ret false
              else
                .call (.hasLiveAgents id) fun liveAgents =>
                  if liveAgents then .ret false else .call (.archiveLocked id) .ret
          else .ret false
      else .ret false := by
  simp only [archiveProjectIfDrained, MemStore.archiveProjectIfDrained, execute,
    Prog.perform_bind, Prog.pure_eq]
  congr 1
  funext held
  cases held with
  | false => rfl
  | true =>
    simp only [Bool.not_true, Bool.false_eq_true, if_false, if_true]
    congr 1
    funext draining
    cases draining <;> rfl

theorem finish_mem (hf : (storeAt σ.world.store env 0).controlFenceHolds fence = true) :
    ((finishArchive .mem id fence).amid (witness ch) env σ).1 = .fenced ↔
      Overlooks .mem id (σ.world.status id) (storeAt σ.world.store env) := by
  let σ₁ := (witness ch (env 0) (.readFence fence) σ).2
  let σ₂ := (witness ch (env 1) (.isDraining id) σ₁).2
  let σ₃ := (witness ch (env 2) (.hasActiveTasks id) σ₂).2
  let σ₄ := (witness ch (env 3) (.hasLiveAgents id) σ₃).2
  let σ₅ := (witness ch (env 4) (.archiveLocked id) σ₄).2
  have h₀ : (witness ch (env 0) (.readFence fence) σ).1 = true := hf
  by_cases hs : σ.world.status id = some .draining
  · have h₁ : (witness ch (env 1) (.isDraining id) σ₁).1 = true := decide_eq_true hs
    cases ht : busy (storeAt σ.world.store env 2) id with
    | true =>
      have h₂ : (witness ch (env 2) (.hasActiveTasks id) σ₂).1 = true := ht
      have hgate : (archiveProjectIfDrained .mem id fence).amid (witness ch) env σ =
          (false, fun n => env (n + 3), σ₃) := by
        rw [archiveIfDrained_mem]
        simp only [Prog.amid, h₀, if_true, Nat.zero_add, σ₁, σ₂, σ₃] at *
        simp only [h₁, h₂, if_true, Prog.amid]
      rw [refused_fenced (n := 2) hgate rfl, hs]
      constructor
      · exact fun h => .inl ⟨ht, h.1⟩
      · rintro (h | h)
        · exact ⟨h.2, fun hno => by cases hno⟩
        · exact absurd (ht.symm.trans h.1) Bool.noConfusion
    | false =>
      have h₂ : (witness ch (env 2) (.hasActiveTasks id) σ₂).1 = false := ht
      cases ha : manned (storeAt σ.world.store env 3) id with
      | true =>
        have h₃ : (witness ch (env 3) (.hasLiveAgents id) σ₃).1 = true := ha
        have hgate : (archiveProjectIfDrained .mem id fence).amid (witness ch) env σ =
            (false, fun n => env (n + 4), σ₄) := by
          rw [archiveIfDrained_mem]
          simp only [Prog.amid, h₀, if_true, Nat.zero_add, σ₁, σ₂, σ₃, σ₄] at *
          simp only [h₁, h₂, h₃, if_true, if_false, Bool.false_eq_true, Prog.amid]
        rw [refused_fenced (n := 3) hgate rfl, hs]
        constructor
        · exact fun h => .inr ⟨ht, ha, h.1⟩
        · rintro (h | h)
          · exact absurd (ht.symm.trans h.1) Bool.noConfusion
          · exact ⟨h.2.2, fun hno => by cases hno⟩
      | false =>
        have h₃ : (witness ch (env 3) (.hasLiveAgents id) σ₃).1 = false := ha
        have h₄ : (witness ch (env 4) (.archiveLocked id) σ₄).1 = true :=
          (exec_archiveLocked (w := met σ₄ fun n => env (n + 4)) hs).1
        have hgate : (archiveProjectIfDrained .mem id fence).amid (witness ch) env σ =
            (true, fun n => env (n + 5), σ₅) := by
          rw [archiveIfDrained_mem]
          simp only [Prog.amid, h₀, if_true, Nat.zero_add, σ₁, σ₂, σ₃, σ₄, σ₅] at *
          simp only [h₁, h₂, h₃, h₄, if_true, if_false, Bool.false_eq_true, Prog.amid]
        rw [finish_opened hgate, hs]
        constructor
        · intro hfenced
          cases hfenced
        · rintro (h | h)
          · exact absurd (ht.symm.trans h.1) Bool.noConfusion
          · exact absurd (ha.symm.trans h.2.1) Bool.noConfusion
  · have h₁ : (witness ch (env 1) (.isDraining id) σ₁).1 = false := decide_eq_false hs
    have hgate : (archiveProjectIfDrained .mem id fence).amid (witness ch) env σ =
        (false, fun n => env (n + 2), σ₂) := by
      rw [archiveIfDrained_mem]
      simp only [Prog.amid, h₀, if_true, Nat.zero_add, σ₁, σ₂] at *
      simp only [h₁, if_false, Bool.false_eq_true, Prog.amid]
    rw [refused_fenced (n := 1) hgate rfl]
    exact (overlooks_closed (b := .mem) hs).symm

theorem update_mem : updateProjectStatus .mem id .draining fence =
    .call (.readFence fence) fun held =>
      if held then .call (.statusLocked id .draining) .ret else .ret false := by
  simp only [updateProjectStatus, MemStore.updateProjectStatus, execute, Prog.perform_bind,
    Prog.pure_eq]
  congr 1
  funext held
  cases held <;> rfl

theorem finish_fenced (b : Backend)
    (hf : (storeAt σ.world.store env 0).controlFenceHolds fence = true) :
    ((finishArchive b id fence).amid (witness ch) env σ).1 = .fenced ↔
      Overlooks b id (σ.world.status id) (storeAt σ.world.store env) := by
  cases b with
  | mem => exact finish_mem hf
  | pg => exact finish_pg hf

theorem finish_met (b : Backend) :
    met σ env ∈ ((finishArchive b id fence).amid (witness ch) env σ).2.2.seen := by
  cases b with
  | mem => exact met_seen
  | pg => exact met_seen

theorem setStatus_draining (w : World) (id : ProjectId) :
    (w.setStatus id .draining).1 = (w.status id).isSome ∧
      (w.setStatus id .draining).2.status id = (w.status id).map fun _ => .draining := by
  rw [setStatus_found, status_setStatus, if_pos rfl]
  exact ⟨rfl, rfl⟩

/-- The step to draining fails under a held fence for a missing project only. -/
theorem update_run (b : Backend)
    (hf : (storeAt σ.world.store env 0).controlFenceHolds fence = true) :
    ∃ (n : ℕ) (σ' : Witnessed), n + 2 = drainSteps b ∧
      (updateProjectStatus b id .draining fence).amid (witness ch) env σ =
        ((σ.world.status id).isSome, fun m => env (m + (n + 1)), σ') ∧
      σ'.world.store = storeAt σ.world.store env n ∧
      σ'.world.status id = (σ.world.status id).map fun _ => .draining := by
  cases b with
  | mem =>
    have h₀ : (witness ch (env 0) (.readFence fence) σ).1 = true := hf
    let σ₁ := (witness ch (env 0) (.readFence fence) σ).2
    obtain ⟨hr, hs⟩ := setStatus_draining (met σ₁ fun n => env (n + 1)) id
    refine ⟨1, (witness ch (env 1) (.statusLocked id .draining) σ₁).2, rfl, ?_, rfl, hs⟩
    rw [update_mem]
    simp only [Prog.amid, h₀, if_true, Nat.zero_add]
    exact congrArg (fun r => (r, _)) hr
  | pg =>
    have hexec : Op.exec ch (.updateStatus id .draining fence) (met σ env) =
        (met σ env).setStatus id .draining := if_pos ((leaseHolds_eq fence).trans hf)
    obtain ⟨hr, hs⟩ := setStatus_draining (met σ env) id
    refine ⟨0, (witness ch (env 0) (.updateStatus id .draining fence) σ).2, rfl, ?_, ?_, ?_⟩
    · exact congrArg (fun r => (r, _)) ((congrArg Prod.fst hexec).trans hr)
    · exact congrArg (fun r => World.store r.2) hexec
    · exact (congrArg (fun r => World.status r.2 id) hexec).trans hs

variable {b : Backend} {w : World} {project : Project}

theorem advance_active (ha : project.status = .active) :
    advanceProjectArchive b project fence =
      (updateProjectStatus b project.id .draining fence) >>= fun moved =>
        if moved then
          .call (.onTransition project.id .draining) fun _ => finishArchive b project.id fence
        else .ret .fenced := by
  rw [advanceProjectArchive, ha]
  refine congrArg (fun f => updateProjectStatus b project.id .draining fence >>= f) ?_
  funext moved
  cases moved <;> rfl

theorem advance_draining (hd : project.status = .draining) :
    advanceProjectArchive b project fence = finishArchive b project.id fence := by
  rw [advanceProjectArchive, hd]

theorem advance_archived (ha : project.status = .archived) :
    advanceProjectArchive b project fence = .ret .archived := by
  rw [advanceProjectArchive, ha]
  rfl

theorem advance_met (ha : project.status = .active) :
    met σ env ∈ ((advanceProjectArchive b project fence).amid (witness ch) env σ).2.2.seen := by
  rw [advance_active ha]
  cases b with
  | mem =>
    rw [update_mem]
    exact met_seen
  | pg => exact met_seen

/-- Under a fence that held throughout, a call says `Fenced` for want of a reason. -/
theorem archiveAmid_fenced
    (hheld : ∀ v ∈ (archiveAmid b ch w project fence env).2,
      v.store.controlFenceHolds fence = true) :
    (archiveAmid b ch w project fence env).1 = .fenced ↔ Misreads b w project env := by
  unfold archiveAmid Misreads at *
  cases hs : project.status with
  | archived =>
    rw [advance_archived hs]
    exact ⟨nofun, False.elim⟩
  | draining =>
    rw [advance_draining hs] at hheld ⊢
    exact finish_fenced b (hheld _ (finish_met b))
  | active =>
    have hf := hheld _ (advance_met hs)
    obtain ⟨n, σ', hn, hrun, hstore, hstatus⟩ :=
      @update_run ch ⟨w, [w]⟩ env project.id fence b hf
    rw [advance_active hs, Prog.amid_bind, hrun] at hheld ⊢
    cases hp : w.status project.id with
    | none => exact ⟨fun _ => .inl rfl, fun _ => rfl⟩
    | some status =>
      rw [show (⟨w, [w]⟩ : Witnessed).world.status project.id = some status from hp] at hheld
      let env' : ℕ → List StoreState := fun m => env (m + 1 + (n + 1))
      let σ'' := (witness ch (env (0 + (n + 1))) (.onTransition project.id .draining) σ').2
      have hstore' : σ''.world.store = storeAt w.store env (n + 1) := by
        have h := @storeAt_shift env w.store n 0
        rw [← hstore, Nat.zero_add] at h
        exact h
      have hat : storeAt σ''.world.store env' = fun m => storeAt w.store env (m + drainSteps b) := by
        have henv : env' = fun m => env (m + (n + 1 + 1)) := by
          funext m
          exact congrArg env (by omega)
        funext m
        rw [hstore', henv, ← hn]
        exact storeAt_shift
      have hstatus' : σ''.world.status project.id = some .draining := by
        refine hstatus.trans ?_
        rw [show (⟨w, [w]⟩ : Witnessed).world.status project.id = some status from hp]
        rfl
      have h : ((finishArchive b project.id fence).amid (witness ch) env' σ'').1 = .fenced ↔ _ :=
        finish_fenced b (hheld _ (finish_met b))
      rw [hstatus', hat] at h
      exact h.trans ⟨.inr, fun h => h.resolve_left nofun⟩

theorem closed_cases (env : ℕ → List StoreState) (σ : Witnessed) :
    (∃ env' σ', (Prog.call (Op.archiveLocked id) Prog.ret : Call Bool).amid (witness ch) env σ =
      (false, env', σ')) ∨
    ∃ env' σ', (Prog.call (Op.archiveLocked id) Prog.ret : Call Bool).amid (witness ch) env σ =
      (true, env', σ') ∧ σ'.world.status id = some .archived := by
  by_cases hs : (met σ env).status id = some .draining
  · obtain ⟨hr, hs'⟩ := @exec_archiveLocked ch id _ hs
    exact .inr ⟨_, _, congrArg (fun r => (r, _)) hr, hs'⟩
  · have hexec : Op.exec ch (.archiveLocked id) (met σ env) = (false, met σ env) :=
      if_neg fun h => hs (of_decide_eq_true h)
    exact .inl ⟨_, _, congrArg (fun r => (r, _)) (congrArg Prod.fst hexec)⟩

theorem gate_cases (b : Backend) :
    (∃ env' σ', (archiveProjectIfDrained b id fence).amid (witness ch) env σ =
      (false, env', σ')) ∨
    ∃ env' σ', (archiveProjectIfDrained b id fence).amid (witness ch) env σ =
      (true, env', σ') ∧ σ'.world.status id = some .archived := by
  cases b with
  | pg =>
    have hexec : Op.exec ch (.archiveDrained id fence) (met σ env) = _ := exec_archiveDrained _
    by_cases h : (met σ env).mayArchive id fence = true
    · rw [if_pos h] at hexec
      have hs : (met σ env).status id = some .draining := by
        simp only [World.mayArchive, World.isDraining, Bool.and_eq_true, decide_eq_true_eq] at h
        exact h.1.1.1
      refine .inr ⟨_, _, congrArg (fun r => (r, _)) (congrArg Prod.fst hexec), ?_⟩
      exact (congrArg (fun r => World.status r.2 id) hexec).trans (draining_archives hs).2
    · rw [if_neg h] at hexec
      exact .inl ⟨_, _, congrArg (fun r => (r, _)) (congrArg Prod.fst hexec)⟩
  | mem =>
    rw [archiveIfDrained_mem, Prog.amid]
    split
    · rw [Prog.amid]
      split
      · rw [Prog.amid]
        split
        · exact .inl ⟨_, _, rfl⟩
        · rw [Prog.amid]
          split
          · exact .inl ⟨_, _, rfl⟩
          · exact closed_cases _ _
      · exact .inl ⟨_, _, rfl⟩
    · exact .inl ⟨_, _, rfl⟩

theorem finish_truthful (b : Backend)
    (hne : ((finishArchive b project.id fence).amid (witness ch) env σ).1 ≠ .fenced) :
    Truthful project fence ((finishArchive b project.id fence).amid (witness ch) env σ).2.2.seen
      ((finishArchive b project.id fence).amid (witness ch) env σ).1 := by
  obtain ⟨env', σ', hgate⟩ | ⟨env', σ', hgate, hs⟩ :
      (∃ env' σ', (archiveProjectIfDrained b project.id fence).amid (witness ch) env σ =
        (false, env', σ')) ∨
      ∃ env' σ', (archiveProjectIfDrained b project.id fence).amid (witness ch) env σ =
        (true, env', σ') ∧ σ'.world.status project.id = some .archived := gate_cases b
  · rw [finish_refused hgate] at hne ⊢
    exact whyClosed_truthful hne
  · rw [finish_opened hgate]
    exact .inr ⟨_, List.mem_cons_of_mem _ List.mem_cons_self, hs⟩

theorem archiveAmid_truthful (hne : (archiveAmid b ch w project fence env).1 ≠ .fenced) :
    Truthful project fence (archiveAmid b ch w project fence env).2
      (archiveAmid b ch w project fence env).1 := by
  unfold archiveAmid at *
  cases hs : project.status with
  | archived =>
    rw [advance_archived hs]
    exact .inl hs
  | draining =>
    rw [advance_draining hs] at hne ⊢
    exact finish_truthful b hne
  | active =>
    rw [advance_active hs, Prog.amid_bind] at hne ⊢
    cases hmoved : ((updateProjectStatus b project.id .draining fence).amid (witness ch) env
        ⟨w, [w]⟩).1 with
    | false =>
      rw [hmoved] at hne
      exact absurd rfl hne
    | true =>
      rw [hmoved] at hne
      exact finish_truthful b hne

end Runs

/-- `Fenced` is the verdict under a fence that held when nothing else explains a refusal. -/
theorem verdict_iff (b : Backend) (ch : Choice) (w : World) (project : Project)
    (fence : Option ControlFence) (env : ℕ → List StoreState) :
    Truthful project fence (archiveAmid b ch w project fence env).2
        (archiveAmid b ch w project fence env).1 ↔
      ¬ ((∀ v ∈ (archiveAmid b ch w project fence env).2,
          v.store.controlFenceHolds fence = true) ∧ Misreads b w project env) := by
  constructor
  · rintro htrue ⟨hheld, hmis⟩
    rw [(archiveAmid_fenced hheld).mpr hmis] at htrue
    obtain ⟨v, hv, hno⟩ := htrue
    rw [hheld v hv] at hno
    cases hno
  · intro hno
    by_cases hne : (archiveAmid b ch w project fence env).1 = .fenced
    · rw [hne]
      by_contra hfalse
      have hheld : ∀ v ∈ (archiveAmid b ch w project fence env).2,
          v.store.controlFenceHolds fence = true := by
        intro v hv
        by_contra hlost
        exact hfalse ⟨v, hv, by simpa using hlost⟩
      exact hno ⟨hheld, (archiveAmid_fenced hheld).mp hne⟩
    · exact archiveAmid_truthful hne

def lastTask : Task where
  id := ⟨1⟩
  prompt := ""
  createdAt := 0
  createdBy := ""
  threadId := ⟨1⟩
  projectId := some ⟨1⟩

def drainingProject : Project :=
  { id := ⟨1⟩, name := "acme", status := .draining, createdAt := 0, updatedAt := 0 }

def storeWith (t : Task) : StoreState := { StoreState.empty with tasks := Keyed.empty.put t }

/-- The task ends right after the gate was refused for it. -/
def completedMeanwhile : ℕ → List StoreState
  | 1 => [storeWith { lastTask with status := .completed ⟨"", 0, 0, none, ⟨1⟩, 0⟩ }]
  | _ => []

theorem verdict_fenced_unfenced :
    let run := archiveAmid .pg {} ⟨storeWith lastTask, Keyed.empty.put drainingProject⟩
      drainingProject none completedMeanwhile
    run.1 = .fenced ∧ ¬ Truthful drainingProject none run.2 run.1 := by
  have hrun : (archiveAmid .pg {} ⟨storeWith lastTask, Keyed.empty.put drainingProject⟩
      drainingProject none completedMeanwhile).1 = .fenced := by decide
  refine ⟨hrun, ?_⟩
  rw [hrun]
  rintro ⟨v, -, hno⟩
  cases hno

end FleetOrchestrator.Projects
