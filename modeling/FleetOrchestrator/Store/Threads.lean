import FleetOrchestrator.Store.Listing
import FleetOrchestrator.Tables.Grouping
import Mathlib.Data.Prod.Lex

/-! The pages of threads that the two backends answer with. -/

namespace FleetOrchestrator.Store

open Core Tables

/-- The order of threads: the later activity first, and of two at the same instant the higher id. -/
def activityFirst (a b : TaskId × ℤ) : Prop :=
  toLex (b.2, b.1.uuid) ≤ toLex (a.2, a.1.uuid)

instance : DecidableRel activityFirst := fun a b =>
  inferInstanceAs (Decidable (toLex (b.2, b.1.uuid) ≤ toLex (a.2, a.1.uuid)))

instance : IsTrans (TaskId × ℤ) activityFirst := ⟨fun _ _ _ hab hbc => hbc.trans hab⟩

instance : Std.Total activityFirst := ⟨fun _ _ => le_total _ _⟩

instance : Std.Antisymm activityFirst := by
  constructor
  rintro ⟨⟨a⟩, x⟩ ⟨⟨b⟩, y⟩ hab hba
  have h := toLex.injective (le_antisymm hba hab)
  cases h
  rfl

/-- A page of threads. -/
def pageOf (threads : List (TaskId × ℤ)) (limit offset : ℕ) : List TaskId :=
  ((threads.drop offset).take limit).map Prod.fst

/-- The default of the trait, on what the listing answers. -/
def listTaskThreads (order : TaskId → ℕ) (listed : Except StoreError (List Task))
    (limit offset : ℕ) : Except StoreError (List TaskId) := do
  let tasks ← listed
  let lastActivity : List (TaskId × ℤ) :=
    tasks.foldl (fun m t => touch m t.threadId t.createdAt) []
  let threads := (inOrder order Prod.fst lastActivity).insertionSort activityFirst
  return pageOf threads limit offset

def MemStore.listTaskThreads (s : StoreState) (rank order : TaskId → ℕ) (limit offset : ℕ) :
    Except StoreError (List TaskId) :=
  Store.listTaskThreads order (.ok (listTasks s rank { limit := 10000 })) limit offset

def PgStore.negativeLimit : StoreError :=
  .sqlx "error returned from database: LIMIT must not be negative"

def PgStore.listTaskThreads (s : StoreState) (limit offset : ℕ) :
    Except StoreError (List TaskId) :=
  if asI64 offset < 0 then .error negativeOffset
  else if asI64 limit < 0 then .error negativeLimit
  else
    let groups := groupMax Task.threadId Task.createdAt s.tasks.rows
    .ok (pageOf (groups.insertionSort activityFirst) limit offset)

/-- The threads of the tasks, each once with the latest activity in it, in order. -/
structure ThreadOrder (s : StoreState) (threads : List (TaskId × ℤ)) : Prop where
  grouping : IsGrouping Task.threadId Task.createdAt s.tasks.rows threads
  sorted : threads.Pairwise activityFirst

/-- The tasks from the latest on. -/
def newest (s : StoreState) (rank : TaskId → ℕ) : List Task :=
  newestFirst Task.createdAt (inOrder rank Task.id s.tasks.rows)

/-- Both backends answer with the same page of the threads. -/
def PagedAlike (s : StoreState) (rank order : TaskId → ℕ) (threads : List (TaskId × ℤ))
    (limit offset : ℕ) : Prop :=
  MemStore.listTaskThreads s rank order limit offset = .ok (pageOf threads limit offset) ∧
    PgStore.listTaskThreads s limit offset = .ok (pageOf threads limit offset)

/-- No thread up to the end of the page has lost all its tasks beyond the newest ten thousand. -/
def PageSeen (s : StoreState) (rank : TaskId → ℕ) (threads : List (TaskId × ℤ))
    (limit offset : ℕ) : Prop :=
  limit = 0 ∨ threads.length ≤ offset ∨ ∀ g ∈ threads.take (offset + limit),
    ∃ t ∈ (newest s rank).take 10000, t.threadId = g.1

section Order

variable {s : StoreState} {rank order : TaskId → ℕ} {threads : List (TaskId × ℤ)}
  {limit offset : ℕ}

theorem mem_newest {t : Task} : t ∈ newest s rank ↔ t ∈ s.tasks.rows := by
  rw [newest, mem_newestFirst, mem_inOrder]

theorem listTasks_newest :
    MemStore.listTasks s rank { limit := 10000 } = (newest s rank).take 10000 := by
  have hall : asked s rank { limit := 10000 } = inOrder rank Task.id s.tasks.rows :=
    List.filter_eq_self.mpr fun t _ => rfl
  rw [listTasks_mem, hall]
  rfl

theorem ThreadOrder.eq_sorted (h : ThreadOrder s threads) {m : List (TaskId × ℤ)}
    (hm : IsGrouping Task.threadId Task.createdAt s.tasks.rows m) :
    m.insertionSort activityFirst = threads := by
  rw [insertionSort_perm (hm.perm h.grouping), h.sorted.insertionSort_eq]

theorem exists_threadOrder (s : StoreState) : ∃ threads, ThreadOrder s threads := by
  have hm := isGrouping_groupMax Task.threadId Task.createdAt s.tasks.rows
  exact ⟨_, hm.of_perm (List.perm_insertionSort activityFirst _),
    List.pairwise_insertionSort activityFirst _⟩

theorem ThreadOrder.nodup (h : ThreadOrder s threads) : (threads.map Prod.fst).Nodup :=
  h.grouping.nodup

theorem ThreadOrder.pg (h : ThreadOrder s threads) :
    PgStore.listTaskThreads s limit offset = .ok (pageOf threads limit offset) ↔
      0 ≤ asI64 limit ∧ 0 ≤ asI64 offset := by
  unfold PgStore.listTaskThreads
  by_cases hoff : asI64 offset < 0
  · rw [if_pos hoff]
    refine iff_of_false (fun h => by cases h) fun h => ?_
    exact absurd hoff (not_lt.mpr h.2)
  rw [if_neg hoff]
  by_cases hlim : asI64 limit < 0
  · rw [if_pos hlim]
    refine iff_of_false (fun h => by cases h) fun h => ?_
    exact absurd hlim (not_lt.mpr h.1)
  rw [if_neg hlim]
  dsimp only
  rw [h.eq_sorted (isGrouping_groupMax _ _ _)]
  exact iff_of_true rfl ⟨not_lt.mp hlim, not_lt.mp hoff⟩

/-- Whether one of the newest tasks is of the thread. -/
def seen (s : StoreState) (rank : TaskId → ℕ) (thread : TaskId) : Bool :=
  ((newest s rank).take 10000).any fun t => t.threadId = thread

/-- The default pages through the threads of the newest tasks, which it has in the right order. -/
theorem ThreadOrder.mem (h : ThreadOrder s threads) :
    MemStore.listTaskThreads s rank order limit offset =
      .ok (pageOf (threads.filter fun g => seen s rank g.1) limit offset) := by
  have hseen := isGrouping_foldl Task.threadId Task.createdAt ((newest s rank).take 10000)
  have hcut := hseen.of_perm (List.perm_insertionSort (fun a b => order a.1 ≤ order b.1) _)
  have hall := h.grouping.of_rows fun t => (mem_newest : t ∈ newest s rank ↔ _)
  have hsorted : (inOrder order Prod.fst (((newest s rank).take 10000).foldl
      (fun m t => touch m t.threadId t.createdAt) [])).insertionSort activityFirst =
      (threads.insertionSort activityFirst).filter fun g => seen s rank g.1 :=
    hall.ranked_cut (newestFirst_sorted _) hcut
  rw [h.sorted.insertionSort_eq] at hsorted
  rw [MemStore.listTaskThreads, listTasks_newest, ← hsorted]
  rfl

theorem pageOf_filter_iff (h : (threads.map Prod.fst).Nodup) (p : TaskId → Bool) :
    pageOf (threads.filter fun g => p g.1) limit offset = pageOf threads limit offset ↔
      limit = 0 ∨ threads.length ≤ offset ∨ ∀ g ∈ threads.take (offset + limit), p g.1 = true := by
  have hmap : (threads.filter fun g => p g.1).map Prod.fst = (threads.map Prod.fst).filter p := by
    rw [List.filter_map]
    rfl
  have hpage (l : List (TaskId × ℤ)) :
      pageOf l limit offset = ((l.map Prod.fst).drop offset).take limit := by
    rw [pageOf, List.map_take, List.map_drop]
  rw [hpage, hpage, hmap, page_filter_iff h, List.length_map, ← List.map_take]
  rw [List.forall_mem_map]

/-- The pages one after the other, up to the end of the last. -/
theorem pages_of (threads : List (TaskId × ℤ)) (limit n : ℕ) :
    (List.range n).flatMap (fun i => pageOf threads limit (i * limit)) =
      (threads.map Prod.fst).take (n * limit) := by
  rw [← pages_flatten (threads.map Prod.fst) limit n]
  simp only [pageOf, List.map_take, List.map_drop]

theorem ThreadOrder.alike_iff (h : ThreadOrder s threads) :
    PagedAlike s rank order threads limit offset ↔
      0 ≤ asI64 limit ∧ 0 ≤ asI64 offset ∧ PageSeen s rank threads limit offset := by
  have hseen (g : TaskId × ℤ) : seen s rank g.1 = true ↔
      ∃ t ∈ (newest s rank).take 10000, t.threadId = g.1 := by
    simp [seen]
  rw [PagedAlike, h.pg, h.mem, Except.ok.injEq, pageOf_filter_iff h.nodup, PageSeen]
  simp only [hseen]
  rw [and_comm, and_assoc]

end Order

/-- The threads stand in one order of which the pages make the whole, and the two backends answer
with the same page of it exactly when the default loses no thread of it to its cut. -/
theorem threads_paged (s : StoreState) (rank order : TaskId → ℕ) :
    ∃ threads, ThreadOrder s threads ∧
      (∀ limit n, (List.range n).flatMap (fun i => pageOf threads limit (i * limit)) =
        (threads.map Prod.fst).take (n * limit)) ∧
      ∀ limit offset, PagedAlike s rank order threads limit offset ↔
        0 ≤ asI64 limit ∧ 0 ≤ asI64 offset ∧ PageSeen s rank threads limit offset := by
  obtain ⟨threads, h⟩ := exists_threadOrder s
  exact ⟨threads, h, pages_of threads, fun limit offset => h.alike_iff⟩

def busyTask (i : ℕ) : Task :=
  { id := ⟨i⟩, prompt := "", createdAt := i, createdBy := "client", threadId := ⟨min i 1⟩ }

theorem busyTasks_nodup (n : ℕ) : (((List.range n).map busyTask).map Task.id).Nodup := by
  rw [List.map_map]
  exact List.nodup_range.map fun i j h => congrArg TaskId.uuid h

theorem mem_busyTasks {n : ℕ} {t : Task} :
    t ∈ (List.range n).map busyTask ↔ ∃ i < n, busyTask i = t := by
  simp only [List.mem_map, List.mem_range]

/-- An old thread of one task, and all the newer tasks in another. -/
def busy (n : ℕ) : StoreState :=
  { StoreState.empty with tasks := ⟨(List.range n).map busyTask, busyTasks_nodup n⟩ }

theorem busy_not_seen {n : ℕ} (hn : 10000 < n) (rank : TaskId → ℕ) :
    ¬∃ t ∈ (newest (busy n) rank).take 10000, t.threadId = ⟨0⟩ := by
  rintro ⟨t, ht, hthread⟩
  have hperm : (newest (busy n) rank).Perm ((List.range n).map busyTask) :=
    (List.perm_insertionSort _ _).trans (List.perm_insertionSort _ _)
  have hnodup : (newest (busy n) rank).Nodup :=
    hperm.nodup_iff.mpr (List.Nodup.of_map Task.id (busy n).tasks.nodup)
  have hlen : (newest (busy n) rank).length = n := by
    rw [hperm.length_eq, List.length_map, List.length_range]
  have hrow {u : Task} (hu : u ∈ newest (busy n) rank) : ∃ i, busyTask i = u := by
    obtain ⟨i, -, hi⟩ := mem_busyTasks.mp (hperm.mem_iff.mp hu)
    exact ⟨i, hi⟩
  obtain ⟨i, rfl⟩ := hrow (List.mem_of_mem_take ht)
  have hi : i = 0 := by
    have hmin : min i 1 = 0 := congrArg TaskId.uuid hthread
    omega
  -- something is behind the cut, and no older than the oldest task
  obtain ⟨u, hu⟩ := List.exists_mem_of_length_pos
    (l := (newest (busy n) rank).drop 10000) (by rw [List.length_drop]; omega)
  have hsorted := newestFirst_sorted (inOrder rank Task.id (busy n).tasks.rows)
  rw [← newest, ← List.take_append_drop 10000 (newest (busy n) rank), List.pairwise_append] at hsorted
  have hle := hsorted.2.2 _ ht u hu
  obtain ⟨j, rfl⟩ := hrow (List.mem_of_mem_drop hu)
  have hj : (j : ℤ) ≤ i := hle
  obtain rfl : j = i := by omega
  exact List.disjoint_take_drop hnodup le_rfl ht hu

theorem busy_keys {n : ℕ} {threads : List (TaskId × ℤ)} (hn : 0 < n)
    (h : ThreadOrder (busy n) threads) :
    ⟨0⟩ ∈ threads.map Prod.fst ∧ threads.map Prod.fst ⊆ [⟨0⟩, ⟨1⟩] := by
  constructor
  · exact h.grouping.mem_keys.mpr ⟨busyTask 0, mem_busyTasks.mpr ⟨0, hn, rfl⟩, rfl⟩
  · intro k hk
    obtain ⟨t, ht, rfl⟩ := h.grouping.mem_keys.mp hk
    obtain ⟨i, -, rfl⟩ := mem_busyTasks.mp ht
    cases i with
    | zero => exact List.mem_cons_self
    | succ i =>
      simp [busyTask]

/-- The old thread belongs on the first page, but the default does not answer with it. -/
theorem thread_lost :
    ¬∀ (s : StoreState) (rank order : TaskId → ℕ) (threads : List (TaskId × ℤ)) (limit offset : ℕ),
      ThreadOrder s threads → PagedAlike s rank order threads limit offset := by
  intro hall
  obtain ⟨threads, h⟩ := exists_threadOrder (busy 10001)
  obtain ⟨hfirst, hkeys⟩ := busy_keys (by omega) h
  have hlen : threads.length ≤ 2 := by
    have hsub := (List.subperm_of_subset h.nodup hkeys).length_le
    rwa [List.length_map] at hsub
  obtain ⟨g, hg, hzero⟩ := List.mem_map.mp hfirst
  obtain ⟨-, -, hempty | hempty | hseen⟩ := h.alike_iff.mp
    (hall (busy 10001) (fun _ => 0) (fun _ => 0) threads 2 0 h)
  · cases hempty
  · rw [List.eq_nil_of_length_eq_zero (Nat.le_zero.mp hempty)] at hg
    cases hg
  · rw [List.take_of_length_le (by omega)] at hseen
    have hlost := hseen g hg
    rw [hzero] at hlost
    exact busy_not_seen (by omega) _ hlost

end FleetOrchestrator.Store
