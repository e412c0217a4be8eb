import FleetOrchestrator.Interleaving.Passage
import FleetOrchestrator.Scheduler.Steps
import FleetOrchestrator.Store.Listing

/-! Which tasks a sweep comes to. -/

namespace FleetOrchestrator.Scheduler

open Core Store Transport Interleaving Machine Reconciler

/-- `reconcile_once` once the lease is found to allow control. -/
def Reconciler.listPending (D : Deployment) (cfg : ProcessConfig) : M ReconcileSummary := do
  let listed ← call (.store (.listTasks { status := some .pending, limit := maxPendingScan }))
  match listed with
  | .error _ => return {}
  | .ok pending => sweep D cfg pending

/-- The two listings of a sweep. -/
inductive Scan where
  | pending
  | dispatched
  deriving DecidableEq

namespace Scan

def filter : Scan → TaskFilter
  | pending => { status := some .pending, limit := maxPendingScan }
  | dispatched => { status := some .dispatched, limit := maxPendingScan }

/-- The program of a sweep that is about to list. -/
def Lists (D : Deployment) (cfg : ProcessConfig) : Scan → M Output → Prop
  | pending, q => q = finishing (listPending D cfg)
  | dispatched, q => ∃ summary k, q = reapStaleDispatched cfg summary >>= k

def Old (cfg : ReconcileConfig) (now : ℤ) (t : Task) : Scan → Prop
  | pending => t.status = .pending ∧ (cfg.staleAfter : ℤ) ≤ now - t.createdAt
  | dispatched => ∃ w startedAt, t.status = .dispatched w startedAt ∧
      (cfg.dispatchedWorkerCheckAfter : ℤ) ≤ now - startedAt

/-- What the sweep reads on the task's account: dependencies that are completed, or its worker
without a store error. -/
def Clear (h : History) (t : Task) : Scan → Prop
  | pending => ∀ dep ∈ t.dependencyIds, ∀ r, ⟨.store (.getTask dep), r⟩ ∈ h →
      ∃ d, r = .ok (some d) ∧ d.phase = .completed
  | dispatched => ∀ w startedAt, t.status = .dispatched w startedAt →
      ∀ r, ⟨.store (.getWorker w), r⟩ ∈ h → ∃ v, r = .ok v

/-- The program of a sweep that is about to judge the task: to retry or bury it, or to apply the
four rules for dispatched tasks to it. -/
def Judges (D : Deployment) (cfg : ProcessConfig) (t : Task) : Scan → M Output → Prop
  | pending, q => ∃ summary k, q = retryOrBury D cfg t summary >>= k
  | dispatched, q => ∃ now w startedAt s v k, t.status = .dispatched w startedAt ∧
      q = judgeOnWorker cfg now t w startedAt s (.ok v) >>= k

end Scan

section Turns

variable {D : Deployment} {cfg : ProcessConfig} {c c' : FleetConfig} {i p : ℕ} {act : Activity}
  {out : Output} {now : ℤ} {t : Task}

/-- Between the two configurations thread `i` stands before a program of this kind. -/
def ComesBy (D : Deployment) (c c' : FleetConfig) (i p : ℕ) (act : Activity)
    (P : M Output → Prop) : Prop :=
  ∃ c₁, (fleet D).Reaches always c c₁ ∧ (fleet D).Reaches always c₁ c' ∧
    ∃ q, c₁.threads[i]? = some ⟨p, act, q⟩ ∧ P q

theorem ComesBy.later {P : M Output → Prop} {c₀ : FleetConfig} (h₀ : (fleet D).Reaches always c₀ c)
    (h : ComesBy D c c' i p act P) : ComesBy D c₀ c' i p act P := by
  obtain ⟨c₁, h₁, h₂, hq⟩ := h
  exact ⟨c₁, h₀.trans h₁, h₂, hq⟩

theorem clock_le (h : (fleet D).Reaches always c c') :
    c.state.store.now ≤ c'.state.store.now := by
  induction h with
  | refl => exact Int.le_refl _
  | tail x h hx hs ih => exact ih.trans (lease_step hs "").2

theorem completed_dependencies {h h' : History} {deps : List TaskId} {unresolved : Bool}
    (hy : Yields (Dispatcher.hasUnresolvedDependencies deps) h unresolved h')
    (hc : ∀ dep ∈ deps, ∀ r, ⟨.store (.getTask dep), r⟩ ∈ h' →
      ∃ d, r = .ok (some d) ∧ d.phase = .completed) : unresolved = false := by
  induction deps generalizing h with
  | nil =>
    cases hy
    rfl
  | cons dep deps ih =>
    have hrest : ∀ d ∈ deps, ∀ r, ⟨.store (.getTask d), r⟩ ∈ h' →
        ∃ row, r = .ok (some row) ∧ row.phase = .completed :=
      fun d hd => hc d (List.mem_cons_of_mem _ hd)
    cases hy with
    | call r hy =>
      have hmem : ⟨.store (.getTask dep), r⟩ ∈ h' := hy.suffix.subset List.mem_cons_self
      obtain ⟨row, rfl, hphase⟩ := hc dep List.mem_cons_self r hmem
      simp only [Prog.bind, hphase] at hy
      exact ih hy hrest

/-- Each stale task of the list gets its turn. -/
theorem pending_turn {k : ReconcileSummary → M Output} {tasks : List Task}
    {summary : ReconcileSummary} (h : (fleet D).Reaches always c c')
    (hc : c.threads[i]? = some ⟨p, act, sweepPending D cfg now tasks summary >>= k⟩)
    (hd : c'.threads[i]? = some ⟨p, act, .ret out⟩) (ht : t ∈ tasks)
    (hold : ¬ now - t.createdAt < fromStd cfg.reconcile.staleAfter (secs 60))
    (hclear : Scan.pending.Clear (history c'.log i) t) :
    ComesBy D c c' i p act (Scan.pending.Judges D cfg t) := by
  induction tasks generalizing c summary with
  | nil => cases ht
  | cons task tasks ih =>
    unfold sweepPending at hc
    by_cases hyoung : now - task.createdAt < fromStd cfg.reconcile.staleAfter (secs 60)
    · rw [if_pos hyoung] at hc
      rcases List.mem_cons.mp ht with rfl | ht
      · exact absurd hyoung hold
      · exact ih h hc ht
    · rw [if_neg hyoung, Prog.bind_assoc] at hc
      obtain ⟨c₁, unresolved, h₁, h₂, hc₁, hy⟩ := h.through hc hd
      have hlater := h₂.log_suffix
      cases unresolved with
      | true =>
        rcases List.mem_cons.mp ht with rfl | ht
        · have hread := completed_dependencies hy fun dep hdep r hr =>
            hclear dep hdep r ((history_suffix hlater i).subset hr)
          cases hread
        · exact (ih h₂ hc₁ ht).later h₁
      | false =>
        have hturn : c₁.threads[i]? = some ⟨p, act, retryOrBury D cfg task
            { summary with staleFound := summary.staleFound + 1 } >>= fun summary =>
              sweepPending D cfg now tasks summary >>= k⟩ := by
          rw [hc₁, ← Prog.bind_assoc]
          rfl
        rcases List.mem_cons.mp ht with rfl | ht
        · exact ⟨c₁, h₁, h₂, _, hturn, _, _, rfl⟩
        · obtain ⟨c₂, summary', h₃, h₄, hc₂, -⟩ := h₂.through hturn hd
          exact (ih h₄ hc₂ ht).later (h₁.trans h₃)

theorem judgeDispatched_old {w : WorkerId} {startedAt : ℤ} {s : Sweep}
    (ht : t.status = .dispatched w startedAt)
    (hold : ¬ now - startedAt < fromStd cfg.reconcile.dispatchedWorkerCheckAfter (secs 30)) :
    judgeDispatched cfg now t s =
      call (.store (.getWorker w)) >>= judgeOnWorker cfg now t w startedAt s := by
  unfold judgeDispatched
  rw [ht]
  exact if_neg hold

/-- Each task of the list that has been dispatched for long enough gets its turn. -/
theorem dispatched_turn {k : Sweep → M Output} {tasks : List Task} {s : Sweep} {w : WorkerId}
    {startedAt : ℤ} (h : (fleet D).Reaches always c c')
    (hc : c.threads[i]? = some ⟨p, act, judgeEach cfg now tasks s >>= k⟩)
    (hd : c'.threads[i]? = some ⟨p, act, .ret out⟩) (ht : t ∈ tasks)
    (hs : t.status = .dispatched w startedAt)
    (hold : ¬ now - startedAt < fromStd cfg.reconcile.dispatchedWorkerCheckAfter (secs 30))
    (hclear : Scan.dispatched.Clear (history c'.log i) t) :
    ComesBy D c c' i p act (Scan.dispatched.Judges D cfg t) := by
  induction tasks generalizing c s with
  | nil => cases ht
  | cons task tasks ih =>
    unfold judgeEach at hc
    rw [Prog.bind_assoc] at hc
    rcases List.mem_cons.mp ht with rfl | ht
    · rw [judgeDispatched_old hs hold, Prog.bind_assoc] at hc
      obtain ⟨c₁, c₂, ch, r, -, -, -, hc₂, hl₂, h₂, h₃⟩ := h.called hc hd
      have hread : ⟨.store (.getWorker w), r⟩ ∈ history c'.log i := by
        apply (history_suffix h₃.log_suffix i).subset
        rw [hl₂]
        exact List.mem_cons_self
      obtain ⟨v, rfl⟩ := hclear w startedAt hs r hread
      exact ⟨c₂, h₂, h₃, _, hc₂, now, w, startedAt, s, v, _, hs, rfl⟩
    · obtain ⟨c₁, s', h₁, h₂, hc₁, -⟩ := h.through hc hd
      exact (ih h₂ hc₁ ht).later h₁

end Turns

/-- The task was on the page listed from `c₁`, and later in the sweep its turn came. -/
def Considered (D : Deployment) (c₁ c₂ c : FleetConfig) (i p : ℕ) (ch : Choice) (scan : Scan)
    (t : Task) : Prop :=
  t ∈ D.backend.listTasks c₁.state.store ch.order.tasks scan.filter ∧
    ComesBy D c₂ c i p .reconcile (scan.Judges D (D.process p) t)

section Scans

variable {D : Deployment} {c₁ c₂ c : FleetConfig} {i p : ℕ} {ch : Choice} {out : Output} {t : Task}

theorem fromStd_le (d : ℕ) {fallback : ℕ} (hf : fallback < 2 ^ 63) : fromStd d fallback ≤ d := by
  unfold fromStd
  split
  · exact Nat.le_refl d
  · omega

theorem old_asked {scan : Scan} {cfg : ReconcileConfig} {now : ℤ} {s : StoreState}
    {rank : TaskId → ℕ} (ht : t ∈ s.tasks.rows) (hold : scan.Old cfg now t) :
    t ∈ asked s rank scan.filter := by
  apply mem_asked.mpr
  refine ⟨ht, ?_⟩
  cases scan with
  | pending =>
    obtain ⟨hs, -⟩ := hold
    simp [Scan.filter, createdByMatches, workerMatches, statusMatches, TaskStatusFilter.admits,
      Task.phase, TaskStatus.phase, hs]
  | dispatched =>
    obtain ⟨w, startedAt, hs, -⟩ := hold
    simp [Scan.filter, createdByMatches, workerMatches, statusMatches, TaskStatusFilter.admits,
      Task.phase, TaskStatus.phase, hs]

theorem store_step {act : Activity} {o : StoreOp} {k : o.Reply → M Output}
    (hc : c₁.threads[i]? = some ⟨p, act, .call (.store o) k⟩)
    (hs : (fleet D).step c₁ (.run i ch) = some c₂) :
    c₂.threads[i]? =
        some ⟨p, act, k (D.backend.answer ch.fault ch.order c₁.state.store o).1⟩ ∧
      c₂.state = c₁.state.withStore (D.backend.answer ch.fault ch.order c₁.state.store o).2 := by
  obtain ⟨op, ⟨r⟩⟩ := step_run hs
  have hwas := r.was
  rw [hc] at hwas
  cases hwas
  obtain ⟨hr, hw⟩ := exec_store (ran_exec r)
  have hafter := r.after.1
  rw [hr] at hafter
  exact ⟨hafter, hw⟩

/-- The clock reading a thread goes on with is at least the clock where it stood. -/
theorem reads_clock {act : Activity} {k : ℤ → M Output} (h : (fleet D).Reaches always c₂ c)
    (hc : c₂.threads[i]? = some ⟨p, act, utcNow >>= k⟩)
    (hd : c.threads[i]? = some ⟨p, act, .ret out⟩) :
    ∃ c₃ now, (fleet D).Reaches always c₂ c₃ ∧ (fleet D).Reaches always c₃ c ∧
      c₃.threads[i]? = some ⟨p, act, k now⟩ ∧ c₂.state.store.now ≤ now := by
  obtain ⟨c₃, c₄, ch, now, h₃, -, he, hc₄, -, h₄, h₅⟩ := h.called hc hd
  have hexec : exec D ch p (.process .utcNow) c₃.state = some (now, c₄.state) := he
  obtain ⟨hnow, -⟩ := exec_process hexec
  refine ⟨c₄, now, h₄, h₅, hc₄, ?_⟩
  rw [hnow]
  exact clock_le h₃

/-- A store step without a fault, and the clock it leaves. -/
theorem lists {act : Activity} {filter : TaskFilter}
    {k : Except StoreError (List Task) → M Output}
    (hc : c₁.threads[i]? = some ⟨p, act, call (.store (.listTasks filter)) >>= k⟩)
    (hs : (fleet D).step c₁ (.run i ch) = some c₂) (hf : ch.fault = none) :
    c₂.threads[i]? = some ⟨p, act,
        k (.ok (D.backend.listTasks c₁.state.store ch.order.tasks filter))⟩ ∧
      c₂.state.store.now = c₁.state.store.now := by
  obtain ⟨hc₂, hw⟩ := store_step hc hs
  rw [hf] at hc₂ hw
  refine ⟨hc₂, ?_⟩
  rw [hw]
  rfl

theorem pending_considered
    (hc : c₁.threads[i]? = some ⟨p, .reconcile, finishing (listPending D (D.process p))⟩)
    (hs : (fleet D).step c₁ (.run i ch) = some c₂) (hf : ch.fault = none)
    (h : (fleet D).Reaches always c₂ c) (hd : c.threads[i]? = some ⟨p, .reconcile, .ret out⟩)
    (hold : Scan.pending.Old (D.process p).reconcile c₁.state.store.now t)
    (hclear : Scan.pending.Clear (history c.log i) t)
    (ht : t ∈ D.backend.listTasks c₁.state.store ch.order.tasks Scan.pending.filter) :
    ComesBy D c₂ c i p .reconcile (Scan.pending.Judges D (D.process p) t) := by
  unfold finishing listPending at hc
  rw [Prog.bind_assoc] at hc
  obtain ⟨hc₂, hnow⟩ := lists hc hs hf
  unfold sweep at hc₂
  rw [Prog.bind_assoc] at hc₂
  obtain ⟨c₃, now, h₃, h₄, hc₃, hle⟩ := reads_clock h hc₂ hd
  rw [Prog.bind_assoc] at hc₃
  have hyoung : ¬ now - t.createdAt <
      fromStd (D.process p).reconcile.staleAfter (secs 60) := by
    have hfrom := fromStd_le (D.process p).reconcile.staleAfter (show secs 60 < 2 ^ 63 by decide)
    have := hold.2
    omega
  exact (pending_turn h₄ hc₃ hd ht hyoung hclear).later h₃

theorem dispatched_considered {summary : ReconcileSummary} {k : Sweep → M Output}
    (hc : c₁.threads[i]? =
      some ⟨p, .reconcile, reapStaleDispatched (D.process p) summary >>= k⟩)
    (hs : (fleet D).step c₁ (.run i ch) = some c₂) (hf : ch.fault = none)
    (h : (fleet D).Reaches always c₂ c) (hd : c.threads[i]? = some ⟨p, .reconcile, .ret out⟩)
    (hold : Scan.dispatched.Old (D.process p).reconcile c₁.state.store.now t)
    (hclear : Scan.dispatched.Clear (history c.log i) t)
    (ht : t ∈ D.backend.listTasks c₁.state.store ch.order.tasks Scan.dispatched.filter) :
    ComesBy D c₂ c i p .reconcile (Scan.dispatched.Judges D (D.process p) t) := by
  unfold reapStaleDispatched at hc
  rw [Prog.bind_assoc] at hc
  obtain ⟨hc₂, hnow⟩ := lists hc hs hf
  dsimp only at hc₂
  rw [Prog.bind_assoc] at hc₂
  obtain ⟨c₃, now, h₃, h₄, hc₃, hle⟩ := reads_clock h hc₂ hd
  obtain ⟨w, startedAt, hstatus, hage⟩ := hold
  have hyoung : ¬ now - startedAt <
      fromStd (D.process p).reconcile.dispatchedWorkerCheckAfter (secs 30) := by
    have hfrom := fromStd_le (D.process p).reconcile.dispatchedWorkerCheckAfter
      (show secs 30 < 2 ^ 63 by decide)
    omega
  exact (dispatched_turn h₄ hc₃ hd ht hstatus hyoung hclear).later h₃

/-- A process about to list the pending tasks of a store that holds these. -/
def listingPending (D : Deployment) (tasks : List Task) (h : (tasks.map Task.id).Nodup) :
    FleetConfig where
  state := { initial.state with
    store := { StoreState.empty with now := secs 100, tasks := ⟨tasks, h⟩ } }
  threads := [⟨0, .reconcile, finishing (listPending D (D.process 0))⟩]
  log := []

def lone : FleetConfig := listingPending solo [soloTask 1 []] (List.nodup_singleton _)

/-- An unfaulted read of the store is a step, wherever the thread stands before it. -/
theorem read_runs {act : Activity} {o : StoreOp} {k : o.Reply → M Output} {r : o.Reply}
    {s : StoreState} (hc : c.threads[i]? = some ⟨p, act, call (.store o) >>= k⟩)
    (hstore : c.state.store = s) (hr : D.backend.perform {} s o = (r, s)) :
    ∃ c', (fleet D).step c (.run i {}) = some c' ∧ c'.state.store = s ∧
      c'.threads[i]? = some ⟨p, act, k r⟩ := by
  have he : (fleet D).exec {} p (.store o) c.state = some (r, c.state.withStore s) := by
    change some ((D.backend.perform {} c.state.store o).1,
      c.state.withStore (D.backend.perform {} c.state.store o).2) = _
    rw [hstore, hr]
  obtain ⟨c', hs, hstate, hthread, -⟩ := step_call (M := fleet D) {} hc he
  refine ⟨c', hs, ?_, hthread⟩
  rw [hstate]
  rfl

theorem clock_runs {act : Activity} {k : ℤ → M Output} {s : StoreState}
    (hc : c.threads[i]? = some ⟨p, act, utcNow >>= k⟩) (hstore : c.state.store = s) :
    ∃ c', (fleet D).step c (.run i {}) = some c' ∧ c'.state.store = s ∧
      c'.threads[i]? = some ⟨p, act, k s.now⟩ := by
  obtain ⟨c', hs, hstate, hthread, -⟩ := step_call (M := fleet D) {} hc rfl
  rw [← hstore]
  refine ⟨c', hs, ?_, hthread⟩
  rw [hstate]
  rfl

/-- A sweep over a store without workers and agents, both of whose listings are empty. -/
theorem empty_sweep_runs (D : Deployment) {s : StoreState} (hw : s.workers = .empty)
    (ha : s.agents = .empty) (hreap : (D.process p).reconcile.reapOrphanSessions = true)
    (hc : c₁.threads[i]? = some ⟨p, .reconcile, finishing (listPending D (D.process p))⟩)
    (hs : c₁.state.store = s)
    (hp : D.backend.perform {} s (.listTasks Scan.pending.filter) = (.ok [], s))
    (hdis : D.backend.perform {} s (.listTasks Scan.dispatched.filter) = (.ok [], s)) :
    ∃ c₂ c, (fleet D).step c₁ (.run i {}) = some c₂ ∧ (fleet D).Reaches always c₂ c ∧
      c.threads[i]? = some ⟨p, .reconcile, .ret .finished⟩ := by
  have hlw : D.backend.perform {} s (.listWorkers { limit := maxPendingScan }) = (.ok [], s) := by
    simp [Backend.perform, listWorkers, hw, inOrder, newestFirst, page, Tables.Keyed.empty]
  have hla : D.backend.perform {} s (.listAgents maxPendingScan) = (.ok [], s) := by
    simp [Backend.perform, listAgents, ha, inOrder, newestFirst, Tables.Keyed.empty]
  simp only [finishing, listPending, Prog.bind_assoc] at hc
  obtain ⟨c₂, hs₂, hw₂, hc₂⟩ := read_runs hc hs hp
  simp only [sweep, Prog.bind_assoc] at hc₂
  obtain ⟨c₃, hs₃, hw₃, hc₃⟩ := clock_runs (D := D) hc₂ hw₂
  simp only [sweepPending, reapStaleDispatched, Prog.pure_eq, Prog.ret_bind, Prog.bind_assoc] at hc₃
  obtain ⟨c₄, hs₄, hw₄, hc₄⟩ := read_runs hc₃ hw₃ hdis
  simp only [Prog.bind_assoc] at hc₄
  obtain ⟨c₅, hs₅, hw₅, hc₅⟩ := clock_runs (D := D) hc₄ hw₄
  simp only [judgeEach, reapOrphanSessions, hreap, if_true, Prog.pure_eq, Prog.ret_bind,
    Prog.bind_assoc] at hc₅
  obtain ⟨c₆, hs₆, hw₆, hc₆⟩ := read_runs hc₅ hw₅ hlw
  simp only [sweepWorkers, reportUnackedCommands, Prog.pure_eq, Prog.ret_bind, Prog.bind_assoc] at hc₆
  obtain ⟨c₇, hs₇, hw₇, hc₇⟩ := read_runs hc₆ hw₆ hla
  simp only [Prog.bind_assoc] at hc₇
  obtain ⟨c₈, hs₈, hw₈, hc₈⟩ := clock_runs (D := D) hc₇ hw₇
  refine ⟨c₂, c₈, hs₂, ?_, hc₈⟩
  exact .tail _ (.tail _ (.tail _ (.tail _ (.tail _ (.tail _ .refl trivial hs₃) trivial hs₄)
    trivial hs₅) trivial hs₆) trivial hs₇) trivial hs₈

def crowded (n : ℕ) : List Task :=
  soloTask n [] :: (List.range n).map fun k =>
    { soloTask k [] with createdAt := 1, status := .cancelled "no longer needed" 1 }

theorem crowded_nodup (n : ℕ) : ((crowded n).map Task.id).Nodup := by
  rw [crowded, List.map_cons, List.map_map, List.nodup_cons]
  constructor
  · simp [soloTask]
  · apply List.Nodup.map
    · intro k m h
      simpa [soloTask] using h
    · exact List.nodup_range

def paged : Deployment := { solo with backend := .pg }

def overfull : FleetConfig := listingPending paged (crowded 1000) (crowded_nodup 1000)

theorem newer_in_crowd (n : ℕ) :
    (crowded n).countP (fun r => (soloTask n []).createdAt < r.createdAt) = n := by
  rw [crowded, List.countP_cons, List.countP_map, List.countP_eq_length.mpr]
  · simp
  · intro k hk
    simp [soloTask]

theorem not_in_crowd {n : ℕ} {t : Task} (ht : t ∈ crowded n) :
    t = soloTask n [] ∨ t.phase = .cancelled := by
  rcases List.mem_cons.mp ht with rfl | ht
  · exact .inl rfl
  · obtain ⟨k, -, rfl⟩ := List.mem_map.mp ht
    exact .inr rfl

theorem overfull_listing {scan : Scan} {rank : TaskId → ℕ} :
    paged.backend.listTasks overfull.state.store rank scan.filter = [] := by
  apply List.eq_nil_iff_forall_not_mem.mpr
  intro t ht
  obtain ⟨hrow, -, hstatus⟩ := mem_listTasks ht
  have hmem : t ∈ crowded 1000 := (Tables.Keyed.get_eq_some.mp hrow).1
  rcases not_in_crowd hmem with rfl | hphase
  · cases scan with
    | pending =>
      refine crowded_out rfl rfl rfl (Nat.le_refl 1000) (mem_asked.mpr ⟨hmem, rfl⟩) ?_ ht
      exact (newer_in_crowd 1000).ge
    | dispatched => cases hstatus
  · cases scan with
    | pending => simp [Scan.filter, statusMatches, TaskStatusFilter.admits, hphase] at hstatus
    | dispatched => simp [Scan.filter, statusMatches, TaskStatusFilter.admits, hphase] at hstatus

end Scans

end FleetOrchestrator.Scheduler
