import Mathlib.Algebra.Group.Nat.Defs
import FleetOrchestrator.Store.Tasks
import FleetOrchestrator.Tables.Paging

/-! What a listing answers, and when the two backends answer the same. Rows created at the same
instant come in the order of the ranking, which neither backend settles. A listing of workers by
status has the newest of that status, as many as fit the page. -/

namespace FleetOrchestrator.Store

open Core Tables

section Pages

variable {ρ : Type} {rows : List ρ} {n : ℕ} {r : ρ}

theorem mem_page_iff (h : rows.length ≤ n) : r ∈ page 0 n rows ↔ r ∈ rows := by
  rw [page, List.drop_zero, List.take_of_length_le h]

theorem length_inOrder {κ : Type} (rank : κ → ℕ) (key : ρ → κ) (p : ρ → Bool) :
    ((inOrder rank key rows).filter p).length = rows.countP p := by
  rw [← List.countP_eq_length_filter]
  exact (List.perm_insertionSort _ rows).countP_eq p

end Pages

section Workers

variable {s : StoreState} {rank : WorkerId → ℕ} {status : WorkerStatus} {w : Worker}

def withStatus (s : StoreState) (status : WorkerStatus) : ℕ :=
  s.workers.rows.countP fun w => w.status = status

theorem mem_statusFilter : w ∈ (inOrder rank Worker.id s.workers.rows).filter
    (fun w => (w.status = status : Bool) && ([] : List (String × String)).all fun l =>
      w.label l.1 = some l.2) ↔ w ∈ s.workers.rows ∧ w.status = status := by
  simp [mem_inOrder]

theorem of_mem_listWorkers (h : w ∈ listWorkers s rank { status := some status }) :
    w ∈ s.workers.rows ∧ w.status = status :=
  mem_statusFilter.mp (mem_newestFirst.mp (mem_of_mem_page h))

/-- Where all workers of the status fit the page, it lists all of them. -/
theorem mem_listWorkers (hfit : withStatus s status ≤ 100) :
    w ∈ listWorkers s rank { status := some status } ↔ w ∈ s.workers.rows ∧ w.status = status := by
  refine ⟨of_mem_listWorkers, fun h => ?_⟩
  apply (mem_page_iff ?_).mpr (mem_newestFirst.mpr (mem_statusFilter.mpr h))
  rw [newestFirst, List.length_insertionSort, length_inOrder]
  simpa [withStatus] using hfit

end Workers

/-- The value of an unsigned size after `as i64`. -/
def asI64 (n : ℕ) : ℤ := (BitVec.ofNat 64 n).toInt

/-- The listing with the arithmetic of its bounds; a call that panics has no answer. -/
def MemStore.tryListTasks (s : StoreState) (rank : TaskId → ℕ) (filter : TaskFilter) :
    Option (Except StoreError (List Task)) :=
  let out := ((inOrder rank Task.id s.tasks.rows).filter (createdByMatches filter)
    |>.filter (workerMatches filter)).filter (statusMatches filter)
  let start := min filter.offset out.length
  if start + filter.limit < 2 ^ 64 then some (.ok (listTasks s rank filter))
  else none

def PgStore.negativeOffset : StoreError :=
  .sqlx "error returned from database: OFFSET must not be negative"

def PgStore.tryListTasks (s : StoreState) (rank : TaskId → ℕ) (filter : TaskFilter) :
    Option (Except StoreError (List Task)) :=
  some (if asI64 filter.offset < 0 then .error negativeOffset
    else .ok (listTasks s rank filter))

/-- The tasks that satisfy every field of the filter. -/
def asked (s : StoreState) (rank : TaskId → ℕ) (filter : TaskFilter) : List Task :=
  (inOrder rank Task.id s.tasks.rows).filter fun t =>
    createdByMatches filter t && workerMatches filter t && statusMatches filter t

/-- The rows that the query itself selects, in its order. -/
def selected (s : StoreState) (rank : TaskId → ℕ) (filter : TaskFilter) : List Task :=
  newestFirst Task.createdAt (((inOrder rank Task.id s.tasks.rows).filter
    (createdByMatches filter)).filter (workerMatches filter))

variable {s : StoreState} {rank : TaskId → ℕ} {filter : TaskFilter}

theorem asked_eq : asked s rank filter =
    (((inOrder rank Task.id s.tasks.rows).filter (createdByMatches filter)).filter
      (workerMatches filter)).filter (statusMatches filter) := by
  rw [List.filter_filter, List.filter_filter]
  apply List.filter_congr
  intro t _
  cases createdByMatches filter t <;> cases workerMatches filter t <;>
    cases statusMatches filter t <;> rfl

theorem newestFirst_sorted (rows : List Task) :
    (newestFirst Task.createdAt rows).Pairwise fun a b => b.createdAt ≤ a.createdAt := by
  have : IsTrans Task fun a b => b.createdAt ≤ a.createdAt := ⟨fun _ _ _ hab hbc => hbc.trans hab⟩
  have : Std.Total fun a b : Task => b.createdAt ≤ a.createdAt :=
    ⟨fun a b => le_total b.createdAt a.createdAt⟩
  exact List.pairwise_insertionSort _ rows

theorem selected_filter :
    (selected s rank filter).filter (statusMatches filter) =
      newestFirst Task.createdAt (asked s rank filter) := by
  have : IsTrans Task fun a b => b.createdAt ≤ a.createdAt := ⟨fun _ _ _ hab hbc => hbc.trans hab⟩
  have : Std.Total fun a b : Task => b.createdAt ≤ a.createdAt :=
    ⟨fun a b => le_total b.createdAt a.createdAt⟩
  rw [asked_eq]
  exact filter_insertionSort

theorem selected_nodup : (selected s rank filter).Nodup := by
  have hrows : s.tasks.rows.Nodup := List.Nodup.of_map Task.id s.tasks.nodup
  have hordered : (inOrder rank Task.id s.tasks.rows).Nodup :=
    (List.perm_insertionSort _ _).nodup_iff.mpr hrows
  exact (List.perm_insertionSort _ _).nodup_iff.mpr ((hordered.filter _).filter _)

theorem ids_distinct {rows : List Task} (h : rows.Nodup)
    (hs : ∀ t ∈ rows, s.tasks.get t.id = some t) : (rows.map Task.id).Nodup := by
  apply List.Nodup.map_on _ h
  intro t ht u hu he
  have hget := hs t ht
  rw [he, hs u hu] at hget
  exact (Option.some.inj hget).symm

theorem listTasks_mem : MemStore.listTasks s rank filter =
    page filter.offset filter.limit (newestFirst Task.createdAt (asked s rank filter)) := by
  rw [asked_eq]
  rfl

theorem listTasks_pg : PgStore.listTasks s rank filter =
    (page filter.offset (min filter.limit 1000) (selected s rank filter)).filter
      (statusMatches filter) := rfl

/-- Of the asked status: the rows before the query's page and the rows in it. -/
def beforePage (s : StoreState) (rank : TaskId → ℕ) (filter : TaskFilter) : ℕ :=
  passing (statusMatches filter) (selected s rank filter) filter.offset

def inPage (s : StoreState) (rank : TaskId → ℕ) (filter : TaskFilter) : ℕ :=
  passing (statusMatches filter) ((selected s rank filter).drop filter.offset)
    (min filter.limit 1000)

/-- The query's page has as many rows of the asked status as were asked for, and unless it has
none, it skips no row of another status. -/
def PageSuffices (s : StoreState) (rank : TaskId → ℕ) (filter : TaskFilter) : Prop :=
  inPage s rank filter = min filter.limit ((asked s rank filter).length - filter.offset) ∧
    (inPage s rank filter = 0 ∨ beforePage s rank filter = filter.offset)

theorem length_newestFirst (rows : List Task) :
    (newestFirst Task.createdAt rows).length = rows.length :=
  (List.perm_insertionSort _ rows).length_eq

theorem listTasks_eq_iff :
    PgStore.listTasks s rank filter = MemStore.listTasks s rank filter ↔
      PageSuffices s rank filter := by
  have hfit : beforePage s rank filter + inPage s rank filter ≤
      ((selected s rank filter).filter (statusMatches filter)).length := by
    rw [beforePage, inPage, ← passing_add]
    exact passing_le_filter _
  have hnodup := selected_nodup.filter (statusMatches filter) (l := selected s rank filter)
  rw [listTasks_pg, listTasks_mem, page, page, filter_page, ← selected_filter]
  rw [beforePage, inPage] at hfit
  rw [page_eq_iff hnodup hfit, selected_filter, length_newestFirst]
  rfl

/-- Both backends answer with the same page of what was asked for. -/
def ListedAlike (s : StoreState) (rank : TaskId → ℕ) (filter : TaskFilter) : Prop :=
  PgStore.tryListTasks s rank filter = MemStore.tryListTasks s rank filter ∧
    MemStore.tryListTasks s rank filter = some (.ok (page filter.offset filter.limit
      (newestFirst Task.createdAt (asked s rank filter))))

/-- A negative offset is refused, an overflowing bound panics, and otherwise the query's page has to
suffice. -/
theorem listedAlike_iff (s : StoreState) (rank : TaskId → ℕ) (filter : TaskFilter) :
    ListedAlike s rank filter ↔
      0 ≤ asI64 filter.offset ∧
        min filter.offset (asked s rank filter).length + filter.limit < 2 ^ 64 ∧
          PageSuffices s rank filter := by
  rw [← listTasks_eq_iff, ListedAlike, PgStore.tryListTasks, MemStore.tryListTasks, ← asked_eq,
    ← listTasks_mem]
  constructor
  · rintro ⟨hpg, hmem⟩
    by_cases hoff : asI64 filter.offset < 0
    · rw [if_pos hoff, hmem] at hpg
      cases hpg
    · by_cases hlim : min filter.offset (asked s rank filter).length + filter.limit < 2 ^ 64
      · rw [if_neg hoff, if_pos hlim] at hpg
        exact ⟨not_lt.mp hoff, hlim, by simpa using hpg⟩
      · rw [if_neg hlim] at hmem
        cases hmem
  · rintro ⟨hoff, hlim, heq⟩
    rw [if_neg (not_lt.mpr hoff), if_pos hlim, heq]
    exact ⟨rfl, rfl⟩

/-- Two rows, the newer of another status. -/
def hiddenPending : StoreState :=
  { StoreState.empty with
    tasks := ⟨[
      { id := ⟨1⟩, prompt := "old", createdAt := 1, createdBy := "client", threadId := ⟨1⟩ },
      { id := ⟨2⟩, prompt := "new", createdAt := 2, createdBy := "client", threadId := ⟨2⟩,
        status := .cancelled "done" 3 }], by decide⟩ }

theorem hidden_pending_not_listed :
    ¬ ListedAlike hiddenPending (fun _ => 0) { status := some .pending, limit := 1 } := by
  rintro ⟨h, -⟩
  have hlength := congrArg (fun r => r.map fun l => (l.toOption.getD []).length) h
  exact absurd hlength (by decide)

/-- The rows that a listing cuts its page from, in the order of the page. -/
def Backend.scanned : Backend → StoreState → (TaskId → ℕ) → TaskFilter → List Task
  | .mem, s, rank, filter => newestFirst Task.createdAt (asked s rank filter)
  | .pg, s, rank, filter => selected s rank filter

theorem mem_asked {t : Task} : t ∈ asked s rank filter ↔
    t ∈ s.tasks.rows ∧ createdByMatches filter t && workerMatches filter t &&
      statusMatches filter t := by
  rw [asked, List.mem_filter, mem_inOrder]

theorem mem_selected {t : Task} : t ∈ selected s rank filter ↔
    t ∈ s.tasks.rows ∧ createdByMatches filter t ∧ workerMatches filter t := by
  rw [selected, mem_newestFirst, List.mem_filter, List.mem_filter, mem_inOrder, and_assoc]

/-- No task is listed twice. -/
theorem listed_once (b : Backend) : ((b.listTasks s rank filter).map Task.id).Nodup := by
  have hrows : s.tasks.rows.Nodup := List.Nodup.of_map Task.id s.tasks.nodup
  refine ids_distinct ?_ fun t ht => (mem_listTasks ht).1
  cases b with
  | mem =>
    have hasked : (asked s rank filter).Nodup :=
      ((List.perm_insertionSort _ _).nodup_iff.mpr hrows).filter _
    change (MemStore.listTasks s rank filter).Nodup
    rw [listTasks_mem]
    exact (((List.perm_insertionSort _ _).nodup_iff.mpr hasked).sublist
      (List.drop_sublist _ _)).sublist (List.take_sublist _ _)
  | pg =>
    change (PgStore.listTasks s rank filter).Nodup
    rw [listTasks_pg]
    exact ((selected_nodup.sublist (List.drop_sublist _ _)).sublist
      (List.take_sublist _ _)).filter _

/-- A row that was asked for is on the first page if fewer rows than the limit come before it. -/
theorem mem_first_page {b : Backend} {t : Task} (hoff : filter.offset = 0)
    (hlim : filter.limit ≤ 1000) (ht : t ∈ asked s rank filter) :
    t ∈ b.listTasks s rank filter ↔ (b.scanned s rank filter).idxOf t < filter.limit := by
  cases b with
  | mem =>
    change t ∈ MemStore.listTasks s rank filter ↔ _
    rw [listTasks_mem, page, hoff, List.drop_zero]
    exact List.mem_take_iff_idxOf_lt (mem_newestFirst.mpr ht)
  | pg =>
    obtain ⟨hrow, hm⟩ := mem_asked.mp ht
    simp only [Bool.and_eq_true] at hm
    have hsel : t ∈ selected s rank filter := mem_selected.mpr ⟨hrow, hm.1.1, hm.1.2⟩
    change t ∈ PgStore.listTasks s rank filter ↔ _
    rw [listTasks_pg, List.mem_filter, page, hoff, List.drop_zero, Nat.min_eq_left hlim,
      List.mem_take_iff_idxOf_lt hsel]
    exact and_iff_left hm.2

/-- In a list sorted newest first, all rows newer than a given one come before it. -/
theorem newer_before {rows : List Task} {t : Task}
    (hs : rows.Pairwise fun a b => b.createdAt ≤ a.createdAt) (ht : t ∈ rows) :
    rows.countP (fun r => t.createdAt < r.createdAt) ≤ rows.idxOf t := by
  induction rows with
  | nil => cases ht
  | cons r rows ih =>
    obtain ⟨hr, hs⟩ := List.pairwise_cons.mp hs
    by_cases he : r = t
    · subst he
      have hnone : (r :: rows).countP (fun x => r.createdAt < x.createdAt) = 0 := by
        apply List.countP_eq_zero.mpr
        intro x hx
        rcases List.mem_cons.mp hx with rfl | hx
        · simp
        · have := hr x hx
          simpa using this
      omega
    · have hmem : t ∈ rows := (List.mem_cons.mp ht).resolve_left (Ne.symm he)
      have hi := ih hs hmem
      rw [List.idxOf_cons_ne _ he]
      have hc := List.countP_cons (p := fun x : Task => t.createdAt < x.createdAt) (a := r) (l := rows)
      split at hc <;> omega

/-- A query without conditions selects every row. -/
theorem selected_perm (hc : filter.createdBy = none) (hw : filter.workerId = none) :
    (selected s rank filter).Perm s.tasks.rows := by
  have hall : ((inOrder rank Task.id s.tasks.rows).filter (createdByMatches filter)).filter
      (workerMatches filter) = inOrder rank Task.id s.tasks.rows := by
    rw [List.filter_eq_self.mpr, List.filter_eq_self.mpr]
    · intro t ht
      simp [createdByMatches, hc]
    · intro t ht
      simp [workerMatches, hw]
  rw [selected, hall]
  exact (List.perm_insertionSort _ _).trans (List.perm_insertionSort _ _)

/-- However old it is, a task is not on the first page of a listing by the database while as many
newer tasks are stored as a page holds, whatever their status. -/
theorem crowded_out {t : Task} (hc : filter.createdBy = none) (hw : filter.workerId = none)
    (hoff : filter.offset = 0) (hlim : filter.limit ≤ 1000) (ht : t ∈ asked s rank filter)
    (hn : filter.limit ≤ s.tasks.rows.countP fun r => t.createdAt < r.createdAt) :
    t ∉ PgStore.listTasks s rank filter := by
  have hrow : t ∈ selected s rank filter :=
    (selected_perm hc hw).mem_iff.mpr (mem_asked.mp ht).1
  have hcount : (selected s rank filter).countP (fun r => t.createdAt < r.createdAt) ≤
      (selected s rank filter).idxOf t := newer_before (newestFirst_sorted _) hrow
  rw [(selected_perm hc hw).countP_eq] at hcount
  intro hlisted
  have hidx := (mem_first_page (b := .pg) hoff hlim ht).mp hlisted
  change (selected s rank filter).idxOf t < filter.limit at hidx
  omega

end FleetOrchestrator.Store
