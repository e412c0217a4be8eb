import FleetOrchestrator.Interleaving.Surroundings
import FleetOrchestrator.Scheduler.QuietParts
import FleetOrchestrator.Scheduler.Sweeps

/-! Which tasks a sweep fails because their worker has restarted since they were dispatched. -/

namespace FleetOrchestrator.Scheduler

open Core Tables Store Transport Interleaving Reconciler

section Sweeping

variable (b : Backend) (o : RowOrder) (fence : Option ControlFence)

/-- The store answers for itself; of everything else the surroundings decide what it answers. -/
def sweepExec (answers : (op : Op) → Resp op) : (op : Op) → StoreState → Resp op × StoreState
  | .store op, s => b.perform o s op
  | .process .controlFence, s => (fence, s)
  | op, s => (answers op, s)

/-- The store after the second half of a sweep. -/
def swept (env : ℕ → (op : Op) → Resp op) (cfg : ProcessConfig) (summary : ReconcileSummary)
    (s : StoreState) : StoreState :=
  ((reapStaleDispatched cfg summary).amid (sweepExec b o fence) env s).2.2

end Sweeping

/-- The listing comes first, and then the clock is read. -/
def sweepTime (env : ℕ → (op : Op) → Resp op) : ℤ := env 1 (.process .utcNow)

def restartFailure (w : WorkerId) (restartedAt dispatchedAt : ℤ) : TaskFailure :=
  ⟨"assigned worker " ++ toString w ++ " restarted at " ++ toString restartedAt ++
      " after this task was dispatched at " ++ toString dispatchedAt ++
      " — the process running it is gone",
    .workerUnavailable, some w, 0⟩

def IsRestart (f : TaskFailure) : Prop := ∃ w r d, f = restartFailure w r d

/-- The task has been failed since, and for a restart of its worker. -/
def FailedByRestart (s : StoreState) (t : Task) : Prop :=
  ∃ t' f, s.tasks.get t.id = some t' ∧ t'.status = .failed f ∧ IsRestart f ∧ t.status ≠ t'.status

/-- The worker is there, and the task was dispatched before it was started. -/
def Outlived (workers : WorkerTable) (t : Task) : Prop :=
  ∃ w startedAt row, t.status = .dispatched w startedAt ∧ workers.get w = some row ∧
    t.dispatchedAt.getD startedAt < row.incarnationStartedAt

/-- It was handed over long enough ago to be looked at. -/
def PastGrace (cfg : ReconcileConfig) (now : ℤ) (t : Task) : Prop :=
  ∃ w startedAt, t.status = .dispatched w startedAt ∧
    fromStd cfg.dispatchedWorkerCheckAfter (secs 30) ≤ now - startedAt

/-- The one row is changed like this, and nothing that a judgement depends on. -/
structure Rewrites (s s' : StoreState) (id : TaskId) (f : Task → Task) : Prop where
  workers : s'.workers = s.workers
  leases : s'.controlLeases = s.controlLeases
  row : s'.tasks.get id = (s.tasks.get id).map f
  others : ∀ i, i ≠ id → s'.tasks.get i = s.tasks.get i

/-- What a judgement does to the row if the store accepts the fence. -/
def buried (s : StoreState) (fence : Option ControlFence) (failure : TaskFailure)
    (t : Task) : Task :=
  if s.controlFenceHolds fence ∧ t.phase = .dispatched then { t with status := .failed failure }
  else t

section Judgements

variable {b : Backend} {o : RowOrder} {fence : Option ControlFence}
  {env : ℕ → (op : Op) → Resp op} {s s' s₁ : StoreState} {id : TaskId} {cfg : ProcessConfig}
  {now : ℤ} {t : Task}

theorem rewrites_same (s : StoreState) (id : TaskId) : Rewrites s s id fun t => t where
  workers := rfl
  leases := rfl
  row := by simp
  others _ _ := rfl

/-- The tables that do not matter here may change as well. -/
theorem Rewrites.kept {f : Task → Task} (h : Rewrites s s₁ id f) (ht : s'.tasks = s₁.tasks)
    (hw : s'.workers = s₁.workers) (hl : s'.controlLeases = s₁.controlLeases) :
    Rewrites s s' id f where
  workers := hw.trans h.workers
  leases := hl.trans h.leases
  row := by rw [ht, h.row]
  others i hi := by rw [ht, h.others i hi]

theorem fence_kept (h : s'.controlLeases = s.controlLeases) :
    s'.controlFenceHolds fence = s.controlFenceHolds fence := by
  cases fence with
  | none => rfl
  | some f =>
    have held : s'.heldEpoch f.clusterId = s.heldEpoch f.clusterId := by
      rw [StoreState.heldEpoch, StoreState.heldEpoch, h]
    rw [Bool.eq_iff_iff, fenceHolds_some, fenceHolds_some, held]

theorem cas_buries (failure : TaskFailure) :
    Rewrites s (b.compareAndSetTaskStatus s id [.dispatched] (.failed failure) fence
      .controlDecision).2 id (buried s fence failure) := by
  rw [backend_cas]
  have hc := memStore_meets_contract s id [.dispatched] (.failed failure) fence .controlDecision
  have hrest := hc.rest
  refine ⟨?_, ?_, ?_, hc.others⟩
  · rw [hrest]
  · rw [hrest]
  by_cases ha : (MemStore.compareAndSetTaskStatus s id [.dispatched] (.failed failure) fence
      .controlDecision).1 = .ok .applied
  · obtain ⟨hf, t, ht, -, hp⟩ := hc.applied.mp ha
    have hphase : t.phase = .dispatched := List.mem_singleton.mp hp
    have hburied : buried s fence failure t = { t with status := .failed failure } :=
      if_pos ⟨hf, hphase⟩
    rw [hc.written ha t ht, ht, Option.map_some, hburied]
    rfl
  · rw [hc.unchanged ha]
    cases ht : s.tasks.get id with
    | none => rfl
    | some t =>
      have hn : ¬ (s.controlFenceHolds fence ∧ t.phase = .dispatched) := by
        rintro ⟨hf, hp⟩
        apply ha
        refine hc.applied.mpr ⟨hf, t, ht, ?_, List.mem_singleton.mpr hp⟩
        rintro under ⟨horigin, -⟩
        cases horigin
      rw [Option.map_some, buried, if_neg hn]

theorem markFailed_buries (failure : TaskFailure) :
    Rewrites s ((Dispatcher.markFailed id [.dispatched] failure .controlDecision).amid
      (sweepExec b o fence) env s).2.2 id (buried s fence failure) := by
  have hcas := @cas_buries b fence s id failure
  unfold Dispatcher.markFailed
  simp only [call, Prog.amid_bind, Prog.perform, Prog.amid, sweepExec, Backend.perform]
  split
  · exact hcas.kept rfl rfl rfl
  all_goals exact hcas

/-- Whatever the judgement counts, it does that to the row. -/
theorem reap_buries (failure : TaskFailure) (found failed : ReconcileSummary → ReconcileSummary)
    (w : Sweep) :
    Rewrites s ((reap id failure found failed w).amid (sweepExec b o fence) env s).2.2 id
      (buried s fence failure) := by
  unfold reap
  rw [Prog.amid_bind]
  split
  all_goals exact markFailed_buries failure

/-- A judgement that says restart exactly where the rule holds. -/
def Verdict (s s' : StoreState) (fence : Option ControlFence) (t : Task) (rule : Prop) : Prop :=
  ∃ verdict : Option TaskFailure,
    Rewrites s s' t.id (verdict.elim (fun t => t) (buried s fence)) ∧
      ((∃ f, verdict = some f ∧ IsRestart f) ↔ rule)

theorem verdict_none {rule : Prop} (h : ¬ rule) : Verdict s s fence t rule := by
  refine ⟨none, rewrites_same s t.id, ?_⟩
  constructor
  · rintro ⟨f, hf, -⟩
    cases hf
  · exact fun hr => absurd hr h

theorem verdict_reap {rule : Prop} (failure : TaskFailure)
    (found failed : ReconcileSummary → ReconcileSummary) (w : Sweep)
    (h : IsRestart failure ↔ rule) :
    Verdict s ((reap t.id failure found failed w).amid (sweepExec b o fence) env s).2.2 fence t
      rule := by
  refine ⟨some failure, reap_buries failure found failed w, ?_⟩
  rw [← h]
  constructor
  · rintro ⟨f, hf, hr⟩
    cases hf
    exact hr
  · exact fun hr => ⟨failure, rfl, hr⟩

theorem heads_agree {x y u v : String} (h : x ++ u = y ++ v) (hx : 2 ≤ x.toList.length)
    (hy : 2 ≤ y.toList.length) : x.toList.take 2 = y.toList.take 2 := by
  have hl := congrArg (fun z => z.toList.take 2) h
  simp only [String.toList_append] at hl
  rwa [List.take_append_of_le_length hx, List.take_append_of_le_length hy] at hl

theorem restart_head : " restarted at ".toList.take 2 = [' ', 'r'] := by decide +kernel

theorem restart_length : 2 ≤ " restarted at ".toList.length := by decide +kernel

theorem regrouped {a b c d e f g : String} :
    a ++ b ++ c ++ d ++ e ++ f ++ g = a ++ b ++ (c ++ (d ++ (e ++ (f ++ g)))) := by
  simp only [String.append_assoc]

theorem restart_error (w : WorkerId) (r d : ℤ) :
    (restartFailure w r d).error = "assigned worker " ++ toString w ++ (" restarted at " ++
      (toString r ++ (" after this task was dispatched at " ++ (toString d ++
        " — the process running it is gone")))) := regrouped

/-- What is said of the worker tells a restart from the other reasons. -/
theorem not_restart {f : TaskFailure} {w : WorkerId} {reason rest : String}
    (hf : f.error = "assigned worker " ++ toString w ++ (reason ++ rest))
    (hw : f.workerId = some w) (hlen : 2 ≤ reason.toList.length)
    (hreason : reason.toList.take 2 ≠ [' ', 'r']) : ¬ IsRestart f := by
  rintro ⟨w', r, d, hr⟩
  have hworker : some w' = some w := by
    rw [← hw, hr]
    rfl
  obtain rfl : w' = w := Option.some.inj hworker
  have htext := hf
  rw [congrArg TaskFailure.error hr, restart_error, String.append_right_inj] at htext
  have hheads := heads_agree htext restart_length hlen
  rw [restart_head] at hheads
  exact hreason hheads.symm

theorem orphan_not_restart (w : WorkerId) :
    ¬ IsRestart ⟨"assigned worker " ++ toString w ++
      " no longer registered (row deleted or rejoined under a new name)",
      .workerUnavailable, some w, 0⟩ := by
  have herror : "assigned worker " ++ toString w ++
      " no longer registered (row deleted or rejoined under a new name)" =
      "assigned worker " ++ toString w ++
        (" no longer registered (row deleted or rejoined under a new name)" ++ "") := by
    rw [String.append_empty]
  exact not_restart herror rfl (by decide +kernel) (by decide +kernel)

theorem offline_not_restart (w : WorkerId) (since : String) :
    ¬ IsRestart ⟨"assigned worker " ++ toString w ++ " has been offline for " ++ since ++
      " (no heartbeat) — assuming the task is lost", .workerUnavailable, some w, 0⟩ := by
  have herror : "assigned worker " ++ toString w ++ " has been offline for " ++ since ++
      " (no heartbeat) — assuming the task is lost" = "assigned worker " ++ toString w ++
        (" has been offline for " ++ (since ++ " (no heartbeat) — assuming the task is lost")) := by
    rw [String.append_assoc, String.append_assoc]
  exact not_restart herror rfl (by decide +kernel) (by decide +kernel)

theorem vanished_not_restart (w : WorkerId) (sessionId : SessionId) :
    ¬ IsRestart (Dispatcher.vanishedSessionFailure w sessionId) := by
  rintro ⟨w', r, d, h⟩
  have hkind := congrArg TaskFailure.kind h
  cases hkind

/-- Asking a worker for its sessions changes nothing in the store. -/
theorem inventory_still (w : WorkerId) (sw : Sweep) :
    ((inventoryOf cfg w sw).amid (sweepExec b o fence) env s).2.2 = s := by
  unfold inventoryOf
  cases sw.inventories.lookup w with
  | some cached => rfl
  | none =>
    have elsewhere : ∀ e op (s : StoreState), (∃ a, op = .acp a) →
        (sweepExec b o fence e op s).2 = s := by
      rintro e op s ⟨a, rfl⟩
      rfl
    have hasked := Prog.amid_along (R := fun s s' => s' = s) (fun s => rfl)
      (fun s t u h h' => h'.trans h) elsewhere
      (listSessions_uses w cfg.reconcile.sessionListTimeoutSecs fun a _ => ⟨a, rfl⟩) env s
    dsimp only
    rw [Prog.amid_bind]
    split
    all_goals exact hasked

theorem verdict_vanished {rule : Prop} (h : ¬ rule) (w : WorkerId) (sw : Sweep) :
    Verdict s ((Reconciler.reapVanished cfg t w sw).amid (sweepExec b o fence) env s).2.2 fence t
      rule := by
  unfold Reconciler.reapVanished
  cases t.acpSessionId with
  | none => exact verdict_none h
  | some sessionId =>
    dsimp only
    rw [Prog.amid_bind]
    rw [inventory_still]
    obtain ⟨inventory, sw'⟩ := ((inventoryOf cfg w sw).amid (sweepExec b o fence) env s).1
    cases inventory with
    | undeclared => exact verdict_none h
    | refused _ => exact verdict_none h
    | reported live =>
      dsimp only
      split
      · exact verdict_none h
      · apply verdict_reap
        exact iff_of_false (vanished_not_restart w sessionId) h

theorem verdict_onWorker {w : WorkerId} {startedAt : ℤ} (ht : t.status = .dispatched w startedAt)
    (sw : Sweep) :
    Verdict s ((judgeOnWorker cfg now t w startedAt sw (.ok (s.workers.get w))).amid
      (sweepExec b o fence) env s).2.2 fence t (Outlived s.workers t) := by
  have houtlived : Outlived s.workers t ↔ ∃ row, s.workers.get w = some row ∧
      t.dispatchedAt.getD startedAt < row.incarnationStartedAt := by
    constructor
    · rintro ⟨w', startedAt', row, hs, hrow⟩
      rw [ht] at hs
      cases hs
      exact ⟨row, hrow⟩
    · rintro ⟨row, hrow⟩
      exact ⟨w, startedAt, row, ht, hrow⟩
  unfold judgeOnWorker
  cases hw : s.workers.get w with
  | none =>
    apply verdict_reap
    rw [houtlived, hw]
    apply iff_of_false (orphan_not_restart w)
    rintro ⟨row, hrow, -⟩
    cases hrow
  | some row =>
    dsimp only
    by_cases hbefore : t.dispatchedAt.getD startedAt < row.incarnationStartedAt
    · rw [if_pos hbefore]
      apply verdict_reap
      exact iff_of_true ⟨w, _, _, rfl⟩ (houtlived.mpr ⟨row, hw, hbefore⟩)
    · have hnot : ¬ Outlived s.workers t := by
        rw [houtlived, hw]
        rintro ⟨row', hrow, hlt⟩
        cases hrow
        exact hbefore hlt
      rw [if_neg hbefore]
      split
      · unfold reapOffline
        split
        · apply verdict_reap
          exact iff_of_false (offline_not_restart w _) hnot
        · exact verdict_none hnot
      · exact verdict_vanished hnot w sw

theorem verdict_dispatched (sw : Sweep) :
    Verdict s ((judgeDispatched cfg now t sw).amid (sweepExec b o fence) env s).2.2 fence t
      (PastGrace cfg.reconcile now t ∧ Outlived s.workers t) := by
  unfold judgeDispatched
  split
  · next w startedAt ht =>
    have hgrace : PastGrace cfg.reconcile now t ↔
        ¬ now - startedAt < fromStd cfg.reconcile.dispatchedWorkerCheckAfter (secs 30) := by
      rw [not_lt]
      constructor
      · rintro ⟨w', startedAt', hs, hle⟩
        rw [ht] at hs
        cases hs
        exact hle
      · exact fun hle => ⟨w, startedAt, ht, hle⟩
    by_cases hyoung : now - startedAt < fromStd cfg.reconcile.dispatchedWorkerCheckAfter (secs 30)
    · rw [if_pos hyoung]
      exact verdict_none fun h => hgrace.mp h.1 hyoung
    · rw [if_neg hyoung, and_iff_right (hgrace.mpr hyoung)]
      exact verdict_onWorker ht sw
  · next hn =>
    apply verdict_none
    rintro ⟨⟨w, startedAt, ht, -⟩, -⟩
    exact hn w startedAt ht

theorem not_failedByRestart (h : s.tasks.get t.id = some t) : ¬ FailedByRestart s t := by
  rintro ⟨t', f, ht', -, -, hne⟩
  rw [h] at ht'
  cases ht'
  exact hne rfl

theorem failedByRestart_congr (h : s'.tasks.get t.id = s.tasks.get t.id) :
    FailedByRestart s' t ↔ FailedByRestart s t := by
  unfold FailedByRestart
  rw [h]

/-- The rule decides if the store accepts the fence. -/
theorem Verdict.fails {rule : Prop} (h : Verdict s s' fence t rule)
    (hg : s.tasks.get t.id = some t) (hd : rule → t.phase = .dispatched) :
    FailedByRestart s' t ↔ s.controlFenceHolds fence ∧ rule := by
  obtain ⟨verdict, hw, hrule⟩ := h
  have hrow := hw.row
  rw [hg] at hrow
  cases verdict with
  | none =>
    apply iff_of_false (not_failedByRestart hrow)
    rintro ⟨-, hr⟩
    obtain ⟨f, hf, -⟩ := hrule.mpr hr
    cases hf
  | some f =>
    have hf : IsRestart f ↔ rule := by
      rw [← hrule]
      exact ⟨fun hr => ⟨f, rfl, hr⟩, fun ⟨g, hg, hr⟩ => Option.some.inj hg ▸ hr⟩
    simp only [Option.map_some, Option.elim_some] at hrow
    by_cases hb : s.controlFenceHolds fence ∧ t.phase = .dispatched
    · rw [buried, if_pos hb] at hrow
      rw [and_iff_right hb.1, ← hf]
      constructor
      · rintro ⟨t', g, ht', hstatus, hr, -⟩
        rw [hrow] at ht'
        cases ht'
        cases hstatus
        exact hr
      · intro hr
        refine ⟨_, f, hrow, rfl, hr, ?_⟩
        intro hs
        have hphase := hb.2
        rw [Task.phase, hs] at hphase
        cases hphase
    · rw [buried, if_neg hb] at hrow
      exact iff_of_false (not_failedByRestart hrow) fun h => hb ⟨h.1, hd h.2⟩

theorem Outlived.dispatched {workers : WorkerTable} (h : Outlived workers t) :
    t.phase = .dispatched := by
  obtain ⟨w, startedAt, row, hs, -⟩ := h
  rw [Task.phase, hs]
  rfl

/-- Every task of the list is judged as the store was at first. -/
theorem judgeEach_judges {tasks : List Task} (hids : (tasks.map Task.id).Nodup)
    (hrows : ∀ t ∈ tasks, s.tasks.get t.id = some t) (sw : Sweep)
    (env : ℕ → (op : Op) → Resp op) :
    ∃ s', ((judgeEach cfg now tasks sw).amid (sweepExec b o fence) env s).2.2 = s' ∧
      (∀ i, i ∉ tasks.map Task.id → s'.tasks.get i = s.tasks.get i) ∧
      ∀ t ∈ tasks, FailedByRestart s' t ↔
        s.controlFenceHolds fence ∧ PastGrace cfg.reconcile now t ∧ Outlived s.workers t := by
  induction tasks generalizing s sw env with
  | nil => exact ⟨s, rfl, fun _ _ => rfl, by simp⟩
  | cons task tasks ih =>
    obtain ⟨hnew, hids⟩ := List.nodup_cons.mp hids
    have hverdict := @verdict_dispatched b o fence env s cfg now task sw
    unfold judgeEach
    rw [Prog.amid_bind]
    set s₁ := ((judgeDispatched cfg now task sw).amid (sweepExec b o fence) env s).2.2
    obtain ⟨verdict, hw, -⟩ := id hverdict
    have hother : ∀ t ∈ tasks, t.id ≠ task.id :=
      fun t ht he => hnew (he ▸ List.mem_map_of_mem ht)
    have hrows₁ : ∀ t ∈ tasks, s₁.tasks.get t.id = some t := by
      intro t ht
      rw [hw.others t.id (hother t ht)]
      exact hrows t (List.mem_cons_of_mem _ ht)
    obtain ⟨s', hs', hrest, hjudged⟩ := ih hids hrows₁ _ _
    refine ⟨s', hs', ?_, ?_⟩
    · intro i hi
      rw [List.map_cons, List.mem_cons, not_or] at hi
      rw [hrest i hi.2, hw.others i hi.1]
    · intro t ht
      rcases List.mem_cons.mp ht with rfl | ht
      · rw [failedByRestart_congr (hrest _ hnew)]
        exact hverdict.fails (hrows _ List.mem_cons_self) fun h => h.2.dispatched
      · rw [hjudged t ht, fence_kept hw.leases, hw.workers]

theorem dispatched_asked {rank : TaskId → ℕ} (ht : t ∈ s.tasks.rows) (hd : t.phase = .dispatched) :
    t ∈ asked s rank Scan.dispatched.filter := by
  refine mem_asked.mpr ⟨ht, ?_⟩
  simp [Scan.filter, createdByMatches, workerMatches, statusMatches, TaskStatusFilter.admits, hd]

/-- A sweep fails a task for a restart exactly if it lists it, the store accepts its fence, and the
worker has outlived the task. -/
theorem failedByRestart_iff (summary : ReconcileSummary) (ht : t ∈ s.tasks.rows) :
    FailedByRestart (swept b o fence env cfg summary s) t ↔
      (s.controlFenceHolds fence ∧
        (b.scanned s o.tasks Scan.dispatched.filter).idxOf t < maxPendingScan) ∧
      PastGrace cfg.reconcile (sweepTime env) t ∧ Outlived s.workers t := by
  have hget : s.tasks.get t.id = some t := Keyed.get_of_mem ht
  have hlisted : ∀ u ∈ b.listTasks s o.tasks Scan.dispatched.filter, s.tasks.get u.id = some u :=
    fun u hu => (mem_listTasks hu).1
  obtain ⟨s', hs', hrest, hjudged⟩ := @judgeEach_judges b o fence s cfg (sweepTime env) _
    (listed_once b) hlisted { summary } fun n => env (n + 2)
  have hswept : swept b o fence env cfg summary s = s' := hs'
  rw [hswept]
  have hpage (hd : t.phase = .dispatched) : t ∈ b.listTasks s o.tasks Scan.dispatched.filter ↔
      (b.scanned s o.tasks Scan.dispatched.filter).idxOf t < maxPendingScan :=
    mem_first_page rfl (Nat.le_refl 1000) (dispatched_asked ht hd)
  by_cases hm : t ∈ b.listTasks s o.tasks Scan.dispatched.filter
  · rw [hjudged t hm, and_assoc]
    refine and_congr_right fun _ => (and_iff_right_of_imp fun h => ?_).symm
    exact (hpage h.2.dispatched).mp hm
  · have hi : t.id ∉ (b.listTasks s o.tasks Scan.dispatched.filter).map Task.id := by
      intro hi
      obtain ⟨u, hu, he⟩ := List.mem_map.mp hi
      have hgu := hlisted u hu
      rw [he, hget] at hgu
      cases hgu
      exact hm hu
    apply iff_of_false
    · rw [failedByRestart_congr (hrest _ hi)]
      exact not_failedByRestart hget
    · rintro ⟨⟨-, hidx⟩, -, houtlived⟩
      exact hm ((hpage houtlived.dispatched).mpr hidx)

end Judgements

end FleetOrchestrator.Scheduler
