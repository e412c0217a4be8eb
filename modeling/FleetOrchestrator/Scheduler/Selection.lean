import FleetOrchestrator.Interleaving.Program
import FleetOrchestrator.Scheduler.System
import FleetOrchestrator.Store.Listing

/-! Which worker a selection returns: one that may have the task, and one that has it where the
listing shows all the workers. -/

namespace FleetOrchestrator.Scheduler

open Core Tables Store Transport Interleaving Selector

/-- The outside while nothing fails: it answers every call in its own way. -/
structure Calm where
  choice : Op → Choice
  faultless : ∀ op, (choice op).fault = none

def Calm.exec (D : Deployment) (p : ℕ) (o : Calm) (op : Op) (w : World) :
    Option (Resp op × World) :=
  Scheduler.exec D (o.choice op) p op w

section Eligibility

variable (D : Deployment) (p : ℕ) (o : Calm) (w : World) (task : Task)

def load (v : Worker) : ℕ := countDispatchedTasksByWorker w.store v.id

def answersProbe (v : WorkerId) : Bool :=
  match (AcpTransport.probe v probeTimeout).byItself (o.exec D p) w with
  | some (.ok _, _) => true
  | _ => false

def awake (v : Worker) : Bool := v.livenessMode = .periodic || answersProbe D p o w v.id

/-- A worker that may have the task. -/
structure Eligible (v : Worker) : Prop where
  stored : v ∈ w.store.workers.rows
  online : v.status = .online
  labels : ∀ l ∈ task.requiredLabels, (v.label l).isSome = true
  model : ∀ m, task.model = some m → v.label "model" = some m ∧
    hasWorkerCredential w.store v.name m = true
  circuit : (w.process p).breakerOf v.id ≠ .open
  capacity : load w v < v.maxConcurrent
  answers : v.livenessMode = .onDemand → answersProbe D p o w v.id = true

/-- The worker is the one that the task names, if it names one: by its agent, or else by a hint. -/
def Named (v : Worker) : Prop :=
  match task.agentId, task.serverHint with
  | some agentId, _ => ∃ agent, w.store.agents.get agentId = some agent ∧
      agent.workerId = some v.id
  | none, some hint => v.name = hint
  | none, none => True

def Precedes (v u : Worker) : Prop :=
  load w v < load w u ∨ load w v = load w u ∧ v.name ≤ u.name

def Sound (r : Except SelectionError WorkerId) : Prop :=
  ∀ id, r = .ok id → ∃ v, v.id = id ∧ Eligible D p o w task v ∧ Named w task v

def Complete (r : Except SelectionError WorkerId) : Prop :=
  (∃ v, Eligible D p o w task v ∧ Named w task v) → ∃ id, r = .ok id

def Least (r : Except SelectionError WorkerId) : Prop :=
  task.agentId = none → task.serverHint = none → ∀ id, r = .ok id →
    ∃ v, v.id = id ∧ Eligible D p o w task v ∧ ∀ u, Eligible D p o w task u → Precedes w v u

/-- The task's agent takes tasks, and a hint names one worker. -/
structure Addressed : Prop where
  agent : ∀ agentId agent, task.agentId = some agentId →
    w.store.agents.get agentId = some agent → agentDispatchable agent = .ok ()
  hint : ∀ hint, task.serverHint = some hint → ∀ u ∈ w.store.workers.rows,
    ∀ v ∈ w.store.workers.rows, u.name = hint → v.name = hint → u = v

/-- What the filters before the choice ask of a worker that is online. -/
def passes (v : Worker) : Bool :=
  v.matchesLabels task.requiredLabels &&
    (task.model.all fun m => fitsModel m v && hasWorkerCredential w.store v.name m) &&
    !((w.process p).breakerOf v.id).isOpen

end Eligibility

section Calls

variable {D : Deployment} {p : ℕ} {o : Calm} {w : World}

theorem World.setProcess_refl (w : World) (p : ℕ) : w.setProcess p (w.process p) = w := by
  unfold World.setProcess
  congr
  funext n
  by_cases hn : n = p
  · rw [if_pos hn, hn]
  · rw [if_neg hn]

theorem calm_store (op : StoreOp) : o.exec D p (.store op) w =
    some ((D.backend.perform (o.choice (.store op)).order w.store op).1,
      { w with store := (D.backend.perform (o.choice (.store op)).order w.store op).2 }) := by
  simp only [Calm.exec, exec, o.faultless, Backend.answer]

/-- A look at the connections leaves everything as it is. -/
theorem calm_acp {op : AcpOp} {a : op.Answer}
    (hh : hostEffect (o.choice (.acp op)).acp w op = some w)
    (ha : (w.process p).transport.perform (o.choice (.acp op)).acp w.host op =
      some (a, (w.process p).transport)) : o.exec D p (.acp op) w = some (a, w) := by
  have hsame : setTransport (w.process p) (w.process p).transport = w.process p := rfl
  simp only [Calm.exec, exec, hh, ha, Option.bind_some, Option.map_some, hsame,
    World.setProcess_refl]

theorem calm_breaker (v : WorkerId) : o.exec D p (.process (.breakerStateOf v)) w =
    some ((w.process p).breakerOf v, w) := by
  simp only [Calm.exec, exec, Process.perform, World.setProcess_refl]

theorem probe_ends (v : WorkerId) (t : ℕ) :
    Ends (o.exec D p) (AcpTransport.probe v t) w fun _ w' => w' = w := by
  refine ends_step (calm_acp rfl rfl) ?_
  split
  · exact ends_ret rfl
  · refine ends_step (calm_acp rfl rfl) ?_
    split
    · exact ends_ret rfl
    · exact ends_ret rfl
    · refine ends_step (calm_acp rfl rfl) ?_
      split
      · exact ends_ret rfl
      · refine ends_step (calm_acp rfl rfl) ?_
        split
        · exact ends_ret rfl
        · refine ends_step (calm_acp rfl rfl) ?_
          split <;> exact ends_ret rfl
        · exact ends_ret rfl

/-- A worker that does not answer leaves no trace. -/
theorem responds_ends (v : Worker) :
    Ends (o.exec D p) (responds v) w fun r w' => r = awake D p o w v ∧ (r = false → w' = w) := by
  unfold responds awake
  cases v.livenessMode with
  | periodic => exact ends_ret ⟨rfl, nofun⟩
  | onDemand =>
    obtain ⟨⟨outcome, w'⟩, hr, hw⟩ := @probe_ends D p o w v.id probeTimeout
    obtain rfl : w' = w := hw
    cases outcome with
    | ok answered =>
      have hanswer : answersProbe D p o w' v.id = true := by
        rw [answersProbe, hr]
      rw [hanswer]
      apply ends_after hr
      exact ends_step (calm_store _) (ends_ret ⟨rfl, nofun⟩)
    | error e =>
      have hanswer : answersProbe D p o w' v.id = false := by
        rw [answersProbe, hr]
      rw [hanswer]
      apply ends_after hr
      exact ends_ret ⟨rfl, fun _ => rfl⟩

theorem ifResponds_ends (v : Worker) (e : SelectionError) :
    Ends (o.exec D p) (ifResponds v e) w fun r _ =>
      r = if awake D p o w v then .ok v.id else .error e := by
  apply ends_bind (responds_ends v)
  rintro up w' ⟨rfl, -⟩
  cases awake D p o w v <;> exact ends_ret rfl

theorem firstResponding_ends (ws : List Worker) :
    Ends (o.exec D p) (firstResponding ws) w fun r _ =>
      r = (ws.find? (awake D p o w)).elim (.error .allUnprobed) fun v => .ok v.id := by
  induction ws with
  | nil => exact ends_ret rfl
  | cons v ws ih =>
    apply ends_bind (responds_ends v)
    rintro up w' ⟨rfl, hsame⟩
    rw [List.find?_cons]
    cases hup : awake D p o w v with
    | true => exact ends_ret rfl
    | false =>
      obtain rfl : w' = w := hsame hup
      exact ih

theorem withCredential_ends (m : String) (ws : List Worker) :
    Ends (o.exec D p) (withCredential m ws) w fun r w' =>
      w' = w ∧ r = ws.filter fun v => hasWorkerCredential w.store v.name m := by
  induction ws with
  | nil => exact ends_ret ⟨rfl, rfl⟩
  | cons v ws ih =>
    apply ends_step (calm_store _)
    apply ends_bind ih
    rintro rest w' ⟨rfl, rfl⟩
    simp only [Backend.perform, List.filter_cons]
    cases hasWorkerCredential w'.store v.name m <;> exact ends_ret ⟨rfl, rfl⟩

theorem circuitClosed_ends (ws : List Worker) :
    Ends (o.exec D p) (circuitClosed ws) w fun r w' =>
      w' = w ∧ r = ws.filter fun v => !((w.process p).breakerOf v.id).isOpen := by
  induction ws with
  | nil => exact ends_ret ⟨rfl, rfl⟩
  | cons v ws ih =>
    apply ends_step (calm_breaker v.id)
    apply ends_bind ih
    rintro rest w' ⟨rfl, rfl⟩
    rw [List.filter_cons]
    cases ((w'.process p).breakerOf v.id).isOpen <;> exact ends_ret ⟨rfl, rfl⟩

end Calls

section Choice

variable {D : Deployment} {p : ℕ} {o : Calm} {w : World} {task : Task} {candidates : List Worker}
  {u v : Worker}

/-- The candidate has room and is up. -/
def ready (D : Deployment) (p : ℕ) (o : Calm) (w : World) (v : Worker) : Prop :=
  load w v < v.maxConcurrent ∧ awake D p o w v = true

/-- What the choice among the candidates owes. -/
structure Chosen (D : Deployment) (p : ℕ) (o : Calm) (w : World) (task : Task)
    (candidates : List Worker) (r : Except SelectionError WorkerId) : Prop where
  sound : ∀ id, r = .ok id → ∃ v ∈ candidates, v.id = id ∧ ready D p o w v ∧ Named w task v
  complete : Addressed w task → ∀ v ∈ candidates, ready D p o w v → Named w task v →
    ∃ id, r = .ok id
  least : task.agentId = none → task.serverHint = none → ∀ id, r = .ok id →
    ∃ v ∈ candidates, v.id = id ∧ ready D p o w v ∧
      ∀ u ∈ candidates, ready D p o w u → Precedes w v u

theorem chosen_error {e : SelectionError} (h : Addressed w task → ∀ v ∈ candidates,
    ready D p o w v → ¬ Named w task v) : Chosen D p o w task candidates (.error e) :=
  ⟨nofun, fun ha v hv hr hn => (h ha v hv hr hn).elim, fun _ _ => nofun⟩

def free (w : World) (candidates : List Worker) : List Worker :=
  candidates.filter fun v => countDispatchedTasksByWorker w.store v.id < v.maxConcurrent

theorem mem_free : v ∈ free w candidates ↔ v ∈ candidates ∧ load w v < v.maxConcurrent := by
  simp [free, load]

/-- A worker picked by name or placement, and asked whether it is up. -/
theorem chosen_named {r : Except SelectionError WorkerId} {e : SelectionError}
    (hu : u ∈ free w candidates) (hn : Named w task u)
    (hnamed : ¬ (task.agentId = none ∧ task.serverHint = none))
    (huniq : Addressed w task → ∀ v ∈ candidates, Named w task v → u = v)
    (hr : r = if awake D p o w u then .ok u.id else .error e) :
    Chosen D p o w task candidates r := by
  obtain ⟨hmem, hroom⟩ := mem_free.mp hu
  cases hup : awake D p o w u with
  | true =>
    rw [if_pos hup] at hr
    subst hr
    refine ⟨?_, fun _ _ _ _ _ => ⟨u.id, rfl⟩, fun ha hh => absurd ⟨ha, hh⟩ hnamed⟩
    intro id hid
    cases hid
    exact ⟨u, hmem, rfl, ⟨hroom, hup⟩, hn⟩
  | false =>
    rw [hup] at hr
    subst hr
    apply chosen_error
    intro ha v hv hready hnv
    rw [← huniq ha v hv hnv, ready, hup] at hready
    exact Bool.false_ne_true hready.2

theorem selectAgent_ends {agentId : AgentId} (atCapacity : List Worker)
    (hC : ∀ v ∈ candidates, v ∈ w.store.workers.rows) (ht : task.agentId = some agentId) :
    Ends (o.exec D p) (selectAgent (free w candidates) atCapacity agentId) w fun r _ =>
      Chosen D p o w task candidates r := by
  have hnamed (v : Worker) : Named w task v ↔ ∃ agent, w.store.agents.get agentId = some agent ∧
      agent.workerId = some v.id := by
    simp only [Named, ht]
  apply ends_step (calm_store _)
  simp only [Backend.perform]
  cases hget : w.store.agents.get agentId with
  | none =>
    apply ends_ret
    apply chosen_error
    intro _ v _ _ hn
    obtain ⟨agent, ha, -⟩ := (hnamed v).mp hn
    rw [hget] at ha
    cases ha
  | some agent =>
    have hplaced (v : Worker) : Named w task v ↔ agent.workerId = some v.id := by
      rw [hnamed, hget]
      constructor
      · rintro ⟨a, ha, hv⟩
        cases ha
        exact hv
      · exact fun hv => ⟨agent, rfl, hv⟩
    cases hd : agentDispatchable agent with
    | error e =>
      simp only [hd]
      apply ends_ret
      apply chosen_error
      intro ha _ _ _ _
      rw [ha.agent agentId agent ht hget] at hd
      cases hd
    | ok _ =>
      cases hw : agent.workerId with
      | none =>
        simp only [hd, hw]
        apply ends_ret
        apply chosen_error
        intro _ v _ _ hn
        rw [hplaced, hw] at hn
        cases hn
      | some workerId =>
        simp only [hd, hw]
        have hid (v : Worker) : Named w task v ↔ v.id = workerId := by
          rw [hplaced, hw, Option.some_inj]
          exact eq_comm
        cases hf : (free w candidates).find? fun v => v.id = workerId with
        | some u =>
          have hu : u ∈ free w candidates := List.mem_of_find?_eq_some hf
          have huid : u.id = workerId := by simpa using List.find?_some hf
          apply ends_mono (ifResponds_ends u _)
          intro r _ hr
          apply chosen_named hu ((hid u).mpr huid) (by simp [ht]) ?_ hr
          intro _ v hv hn
          have hsame : u.id = v.id := huid.trans ((hid v).mp hn).symm
          have hgu := Keyed.get_of_mem (hC u (mem_free.mp hu).1)
          have hgv := Keyed.get_of_mem (hC v hv)
          rw [hsame, hgv] at hgu
          exact (Option.some.inj hgu).symm
        | none =>
          have hnone : ∀ v ∈ candidates, ready D p o w v → ¬ Named w task v := by
            intro v hv hready hn
            have := List.find?_eq_none.mp hf v (mem_free.mpr ⟨hv, hready.1⟩)
            simp [(hid v).mp hn] at this
          by_cases hcap : (atCapacity.any fun v => v.id = workerId) = true
          · simp only [hcap]
            exact ends_ret (chosen_error fun _ => hnone)
          · simp only [hcap]
            exact ends_ret (chosen_error fun _ => hnone)

theorem selectHinted_ends {hint : String} (atCapacity : List Worker)
    (hC : ∀ v ∈ candidates, v ∈ w.store.workers.rows) (ha : task.agentId = none)
    (ht : task.serverHint = some hint) :
    Ends (o.exec D p) (selectHinted (free w candidates) atCapacity hint) w fun r _ =>
      Chosen D p o w task candidates r := by
  have hnamed (v : Worker) : Named w task v ↔ v.name = hint := by
    simp only [Named, ha, ht]
  unfold selectHinted
  cases hf : (free w candidates).find? fun v => v.name = hint with
  | some u =>
    have hu : u ∈ free w candidates := List.mem_of_find?_eq_some hf
    have hname : u.name = hint := by simpa using List.find?_some hf
    apply ends_mono (ifResponds_ends u _)
    intro r _ hr
    apply chosen_named hu ((hnamed u).mpr hname) (by simp [ht]) ?_ hr
    intro haddr v hv hn
    exact haddr.hint hint ht u (hC u (mem_free.mp hu).1) v (hC v hv) hname ((hnamed v).mp hn)
  | none =>
    have hnone : ∀ v ∈ candidates, ready D p o w v → ¬ Named w task v := by
      intro v hv hready hn
      have := List.find?_eq_none.mp hf v (mem_free.mpr ⟨hv, hready.1⟩)
      simp [(hnamed v).mp hn] at this
    dsimp only
    split
    · exact ends_ret (chosen_error fun _ => hnone)
    · apply ends_step (calm_store _)
      split <;> exact ends_ret (chosen_error fun _ => hnone)

instance : DecidableRel (Precedes w) := fun _ _ => inferInstanceAs (Decidable (_ ∨ _))

theorem pairwise_byLoad (l : List Worker) :
    (byLoad (countDispatchedTasksByWorker w.store) l).Pairwise (Precedes w) := by
  have : IsTrans Worker (Precedes w) := by
    refine ⟨fun a b c hab hbc => ?_⟩
    unfold Precedes at *
    rcases hab with hab | ⟨hab, hab'⟩
    · rcases hbc with hbc | ⟨hbc, -⟩
      · exact .inl (hab.trans hbc)
      · exact .inl (hbc ▸ hab)
    · rcases hbc with hbc | ⟨hbc, hbc'⟩
      · exact .inl (hab ▸ hbc)
      · exact .inr ⟨hab.trans hbc, Std.le_trans hab' hbc'⟩
  have : Std.Total (Precedes w) := by
    refine ⟨fun a b => ?_⟩
    unfold Precedes
    rcases lt_trichotomy (load w a) (load w b) with h | h | h
    · exact .inl (.inl h)
    · rcases Std.le_total (a := a.name) (b := b.name) with hn | hn
      · exact .inl (.inr ⟨h, hn⟩)
      · exact .inr (.inr ⟨h.symm, hn⟩)
    · exact .inr (.inl h)
  exact List.pairwise_insertionSort (Precedes w) l

theorem firstResponding_chosen (ha : task.agentId = none) (ht : task.serverHint = none) :
    Ends (o.exec D p)
      (firstResponding (byLoad (countDispatchedTasksByWorker w.store) (free w candidates))) w
      fun r _ => Chosen D p o w task candidates r := by
  have hnamed (v : Worker) : Named w task v := by
    simp only [Named, ha, ht]
  have hmem (v : Worker) : v ∈ byLoad (countDispatchedTasksByWorker w.store) (free w candidates) ↔
      v ∈ candidates ∧ load w v < v.maxConcurrent := by
    rw [byLoad, List.mem_insertionSort, mem_free]
  have hsorted := pairwise_byLoad (w := w) (free w candidates)
  apply ends_mono (firstResponding_ends _)
  rintro r w' rfl
  cases hf : (byLoad (countDispatchedTasksByWorker w.store) (free w candidates)).find?
      (awake D p o w) with
  | none =>
    apply chosen_error
    intro _ v hv hready _
    exact List.find?_eq_none.mp hf v ((hmem v).mpr ⟨hv, hready.1⟩) hready.2
  | some v =>
    obtain ⟨hup, before, after, hl, hbefore⟩ := List.find?_eq_some_iff_append.mp hf
    have hv : v ∈ byLoad (countDispatchedTasksByWorker w.store) (free w candidates) :=
      List.mem_of_find?_eq_some hf
    obtain ⟨hc, hroom⟩ := (hmem v).mp hv
    refine ⟨?_, fun _ _ _ _ _ => ⟨v.id, rfl⟩, ?_⟩
    · intro id hid
      cases hid
      exact ⟨v, hc, rfl, ⟨hroom, hup⟩, hnamed v⟩
    · intro _ _ id hid
      cases hid
      refine ⟨v, hc, rfl, ⟨hroom, hup⟩, fun u hu hready => ?_⟩
      have hul := (hmem u).mpr ⟨hu, hready.1⟩
      rw [hl] at hul hsorted
      rcases List.mem_append.mp hul with hb | hb
      · have hasleep := hbefore u hb
        rw [hready.2] at hasleep
        cases hasleep
      · rcases List.mem_cons.mp hb with rfl | hb
        · exact .inr ⟨rfl, Std.le_refl _⟩
        · exact (List.pairwise_cons.mp (List.pairwise_append.mp hsorted).2.1).1 u hb

theorem choose_ends (hC : ∀ v ∈ candidates, v ∈ w.store.workers.rows) :
    Ends (o.exec D p) (choose task candidates (countDispatchedTasksByWorker w.store)) w fun r _ =>
      Chosen D p o w task candidates r := by
  unfold choose
  cases ha : task.agentId with
  | some agentId => exact selectAgent_ends _ hC ha
  | none =>
    cases ht : task.serverHint with
    | some hint => exact selectHinted_ends _ hC ha ht
    | none =>
      have hnone (hf : free w candidates = []) (e : SelectionError) :
          Chosen D p o w task candidates (.error e) := by
        apply chosen_error
        intro _ v hv hready _
        have := mem_free.mpr ⟨hv, hready.1⟩
        rw [hf] at this
        cases this
      change Ends _ (if (free w candidates).isEmpty && _ then _ else if (free w candidates).isEmpty
        then _ else firstResponding (byLoad _ (free w candidates))) _ _
      by_cases hf : free w candidates = []
      · simp only [hf, List.isEmpty_nil, Bool.true_and, if_true]
        split <;> exact ends_ret (hnone hf _)
      · have hempty : (free w candidates).isEmpty = false := by simpa using hf
        simp only [hempty, Bool.false_and, Bool.false_eq_true, if_false]
        exact firstResponding_chosen ha ht

/-- Nothing to choose from. -/
theorem chosen_none {e : SelectionError} (h : candidates = []) :
    Chosen D p o w task candidates (.error e) := by
  apply chosen_error
  intro _ v hv
  rw [h] at hv
  cases hv

theorem selectAmong_ends (hC : ∀ v ∈ candidates, v ∈ w.store.workers.rows) :
    Ends (o.exec D p) (selectAmong task candidates) w fun r _ => Chosen D p o w task
      (candidates.filter fun v => !((w.process p).breakerOf v.id).isOpen) r := by
  apply ends_bind (circuitClosed_ends candidates)
  rintro closed w' ⟨rfl, rfl⟩
  apply ends_step (calm_store _)
  apply choose_ends
  exact fun v hv => hC v (List.mem_of_mem_filter hv)

def listed (o : Calm) (w : World) : List Worker :=
  listWorkers w.store
    (o.choice (.store (.listWorkers { status := some .online }))).order.workers
    { status := some .online }

theorem of_mem_listed (h : v ∈ listed o w) : v ∈ w.store.workers.rows ∧ v.status = .online :=
  of_mem_listWorkers h

/-- The filter for the model, where the task names one. -/
def suits (w : World) (task : Task) (v : Worker) : Bool :=
  task.model.all fun m => fitsModel m v && hasWorkerCredential w.store v.name m

theorem filter_passes (online : List Worker) : online.filter (passes p w task) =
    ((online.filter fun v => v.matchesLabels task.requiredLabels).filter (suits w task)).filter
      fun v => !((w.process p).breakerOf v.id).isOpen := by
  rw [List.filter_filter, List.filter_filter]
  apply List.filter_congr
  intro v _
  simp only [passes, suits, Bool.and_comm, Bool.and_left_comm]

theorem select_ends (task : Task) : Ends (o.exec D p) (select task) w fun r _ =>
    Chosen D p o w task ((listed o w).filter (passes p w task)) r := by
  have hrow : ∀ v ∈ listed o w, v ∈ w.store.workers.rows := fun v hv => (of_mem_listed hv).1
  have hlisted : listWorkers w.store
    (o.choice (.store (.listWorkers { status := some .online }))).order.workers
    { status := some .online } = listed o w := rfl
  rw [filter_passes]
  apply ends_step (calm_store _)
  simp only [Backend.perform, hlisted]
  generalize listed o w = online at hrow
  split
  · next hnone => exact ends_ret (chosen_none (by simp [List.isEmpty_iff.mp hnone]))
  · replace hrow : ∀ v ∈ online.filter fun v => v.matchesLabels task.requiredLabels,
        v ∈ w.store.workers.rows := fun v hv => hrow v (List.mem_of_mem_filter hv)
    generalize online.filter (fun v => v.matchesLabels task.requiredLabels) = labelled at hrow
    split
    · next hnone => exact ends_ret (chosen_none (by simp [List.isEmpty_iff.mp hnone]))
    · cases hm : task.model with
      | none =>
        have hsuits : labelled.filter (suits w task) = labelled := by
          simp [suits, hm]
        rw [hsuits]
        exact selectAmong_ends hrow
      | some m =>
        have hsuits : labelled.filter (suits w task) = (labelled.filter (fitsModel m)).filter
            fun v => hasWorkerCredential w.store v.name m := by
          rw [List.filter_filter]
          apply List.filter_congr
          intro v _
          simp only [suits, hm, Option.all_some, Bool.and_comm]
        rw [hsuits]
        simp only
        split
        · next hnone => exact ends_ret (chosen_none (by simp [List.isEmpty_iff.mp hnone]))
        · apply ends_bind (withCredential_ends m _)
          rintro held w' ⟨rfl, rfl⟩
          split
          · next hnone => exact ends_ret (chosen_none (by simp [List.isEmpty_iff.mp hnone]))
          · apply selectAmong_ends
            exact fun v hv => hrow v (List.mem_of_mem_filter (List.mem_of_mem_filter hv))

theorem eligible_iff : Eligible D p o w task v ↔
    (v ∈ w.store.workers.rows ∧ v.status = .online) ∧ passes p w task v = true ∧
      ready D p o w v := by
  have hopen : (w.process p).breakerOf v.id ≠ .open ↔
      ((w.process p).breakerOf v.id).isOpen = false := by
    cases (w.process p).breakerOf v.id <;> simp [BreakerState.isOpen]
  have hawake : awake D p o w v = true ↔
      (v.livenessMode = .onDemand → answersProbe D p o w v.id = true) := by
    unfold awake
    cases v.livenessMode <;> simp
  simp only [ready, hawake, passes, Worker.matchesLabels, Bool.and_eq_true, List.all_eq_true,
    Option.all_eq_true, Bool.not_eq_true', ← hopen, fitsModel, decide_eq_true_eq]
  constructor
  · rintro ⟨hs, ho, hl, hm, hc, hroom, hup⟩
    exact ⟨⟨hs, ho⟩, ⟨⟨hl, hm⟩, hc⟩, hroom, hup⟩
  · rintro ⟨⟨hs, ho⟩, ⟨⟨hl, hm⟩, hc⟩, hroom, hup⟩
    exact ⟨hs, ho, hl, hm, hc, hroom, hup⟩

/-- Alone with the store, a selection comes to its end. It returns only a worker that may have the
task and is the one that the task names. As long as the listing shows all workers that are online,
it returns such a worker if there is one, provided that the agent named takes tasks and the hint
names one worker, and the first of all of them where the task names none. -/
theorem selection_meets (D : Deployment) (p : ℕ) (o : Calm) (w : World) (task : Task) :
    Ends (o.exec D p) (select task) w fun r _ => Sound D p o w task r ∧
      (withStatus w.store .online ≤ 100 →
        (Addressed w task → Complete D p o w task r) ∧ Least D p o w task r) := by
  have hcand (v : Worker) (h : v ∈ (listed o w).filter (passes p w task))
      (hready : ready D p o w v) : Eligible D p o w task v := by
    obtain ⟨hl, hp⟩ := List.mem_filter.mp h
    exact eligible_iff.mpr ⟨of_mem_listed hl, hp, hready⟩
  apply ends_mono (select_ends task)
  intro r _ hr
  refine ⟨fun id hid => ?_, fun hfit => ?_⟩
  · obtain ⟨v, hv, he, hready, hn⟩ := hr.sound id hid
    exact ⟨v, he, hcand v hv hready, hn⟩
  · have hall (v : Worker) (h : Eligible D p o w task v) :
        v ∈ (listed o w).filter (passes p w task) ∧ ready D p o w v := by
      obtain ⟨hrow, hp, hready⟩ := eligible_iff.mp h
      exact ⟨List.mem_filter.mpr ⟨(mem_listWorkers hfit).mpr hrow, hp⟩, hready⟩
    constructor
    · rintro ha ⟨v, hv, hn⟩
      obtain ⟨hmem, hready⟩ := hall v hv
      exact hr.complete ha v hmem hready hn
    · intro ha ht id hid
      obtain ⟨v, hv, he, hready, hfirst⟩ := hr.least ha ht id hid
      refine ⟨v, he, hcand v hv hready, fun u hu => ?_⟩
      obtain ⟨hmem, hready⟩ := hall u hu
      exact hfirst u hmem hready

end Choice

namespace Selection

def calm : Calm := ⟨fun _ => {}, fun _ => rfl⟩

/-- An agent that was stopped on a worker that is up. -/
def stopped : Agent :=
  { id := ⟨5⟩, projectId := ⟨0⟩, name := "builder", workerId := some ⟨0⟩, createdAt := 0,
    updatedAt := 0 }

def agents : AgentTable := ⟨[stopped], List.nodup_singleton _⟩

def oneWorker : World :=
  { initial.state with store := { initial.state.store with workers := soloWorkers, agents } }

def forAgent : Task := { soloTask 1 [] with agentId := some ⟨5⟩ }

theorem eligible_solo {task : Task} (hl : task.requiredLabels = []) (hm : task.model = none) :
    Eligible Scheduler.solo 0 calm oneWorker task
      { id := ⟨0⟩, name := "worker", registeredAt := 0, incarnationStartedAt := 0 } where
  stored := List.mem_singleton.mpr rfl
  online := rfl
  labels := by simp [hl]
  model := by simp [hm]
  circuit := nofun
  capacity := by decide
  answers := nofun

/-- The worker of a stopped agent may have the task, and the selection refuses all the same. -/
theorem stopped_agent_refused : ¬ ∀ (D : Deployment) (p : ℕ) (o : Calm) (w : World) (task : Task),
    Ends (o.exec D p) (select task) w fun r _ => Sound D p o w task r ∧
      Complete D p o w task r ∧ Least D p o w task r := by
  intro h
  have hrun : ((select forAgent).byItself (calm.exec Scheduler.solo 0) oneWorker).map Prod.fst =
      some (.error (.agentNotRunning "builder")) := rfl
  obtain ⟨_, -, hcomplete, -⟩ := (h Scheduler.solo 0 calm oneWorker forAgent).sound hrun
  obtain ⟨id, hid⟩ := hcomplete ⟨_, eligible_solo rfl rfl, stopped, rfl, rfl⟩
  cases hid

/-- Where the task names nobody, the worker is found. -/
theorem worker_found :
    Ends (calm.exec Scheduler.solo 0) (select (soloTask 1 [])) oneWorker fun r _ => r = .ok ⟨0⟩ := by
  apply ends_mono (selection_meets Scheduler.solo 0 calm oneWorker (soloTask 1 []))
  rintro r _ ⟨hsound, hlisted⟩
  have haddressed : Addressed oneWorker (soloTask 1 []) := by
    constructor
    · intro agentId agent h
      cases h
    · intro hint h
      cases h
  have hfit : withStatus oneWorker.store .online ≤ 100 := by decide
  obtain ⟨id, hid⟩ := (hlisted hfit).1 haddressed ⟨_, eligible_solo rfl rfl, trivial⟩
  obtain ⟨v, hv, he, -⟩ := hsound id hid
  rw [hid, ← hv, List.mem_singleton.mp he.stored]

end Selection

end FleetOrchestrator.Scheduler
