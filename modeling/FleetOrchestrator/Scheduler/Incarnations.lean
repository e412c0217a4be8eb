import FleetOrchestrator.Enrolment.CredentialRuns
import FleetOrchestrator.Health.Workers
import FleetOrchestrator.Scheduler.Restarts

/-! When the incarnation of a worker begins, in every run of the writes to its row and to the tasks,
each at the time that the clock of the store shows then. -/

namespace FleetOrchestrator.Scheduler

open Core Tables Store Enrolment

/-- The other columns of the row play no part here. -/
def asRow (w : Worker) : Health.WorkerRow := { toWorker := w }

/-- In SQL the name of a worker is unique. -/
def nameTaken (s : StoreState) (row : Worker) : Bool :=
  s.workers.rows.any fun r => r.name = row.name && r.id ≠ row.id

def upsertedWorker (b : Backend) (s : StoreState) (row : Worker) : Worker :=
  match s.workers.get row.id with
  | some prev => (Health.replaced b (asRow prev) (asRow row)).toWorker
  | none => (Health.inserted b (asRow row)).toWorker

def upsertWorker (b : Backend) (s : StoreState) (row : Worker) :
    Except StoreError Unit × StoreState :=
  if b = .pg && nameTaken s row then (.error Health.duplicateName, s)
  else (.ok (), { s with workers := s.workers.put (upsertedWorker b s row) })

def beatenWorker (now : ℤ) (activeTasks : ℕ) (w : Worker) : Worker :=
  ((asRow w).beaten now activeTasks).toWorker

def restartedWorker (now : ℤ) (w : Worker) : Worker := ((asRow w).restarted now).toWorker

theorem beatenWorker_id (now : ℤ) (n : ℕ) (w : Worker) : (beatenWorker now n w).id = w.id := rfl

theorem restartedWorker_id (now : ℤ) (w : Worker) : (restartedWorker now w).id = w.id := rfl

def updateWorkerHeartbeat (s : StoreState) (id : WorkerId) (activeTasks : ℕ) :
    Except StoreError Unit × StoreState :=
  if s.workers.contains id then
    let workers := s.workers.modify id (beatenWorker s.now activeTasks)
      (beatenWorker_id s.now activeTasks)
    (.ok (), { s with workers })
  else (.error .notFound, s)

def bumpWorkerIncarnation (s : StoreState) (id : WorkerId) : Option ℤ × StoreState :=
  let workers := s.workers.modify id (restartedWorker s.now) (restartedWorker_id s.now)
  ((s.workers.get id).map fun _ => s.now, { s with workers })

def beginning (t : WorkerTable) (id : WorkerId) : Option ℤ :=
  (t.get id).map Worker.incarnationStartedAt

/-- The store with the other tables that an enrolment writes. -/
structure Cluster where
  store : StoreState
  tokens : TokenTable := .empty
  credentials : CredentialTable := .empty

namespace Cluster

def atTime (c : Cluster) (now : ℤ) : Cluster := { c with store := { c.store with now } }

def registry (c : Cluster) : Registry := ⟨c.tokens, c.store.workers, c.credentials⟩

def enrollWorker (b : Backend) (c : Cluster) (digest usedBy : String) (worker : Worker)
    (credential : WorkerOperationalCredential) : Except StoreError Unit × Cluster :=
  let r := match b with
    | .mem => MemStore.enrollWorker c.registry c.store.now digest usedBy worker credential
    | .pg => PgStore.enrollWorker c.registry c.store.now digest usedBy worker credential
  (r.1, ⟨{ c.store with workers := r.2.workers }, r.2.tokens, r.2.credentials⟩)

def startedAt (c : Cluster) (id : WorkerId) : Option ℤ := beginning c.store.workers id

end Cluster

/-- A write to the rows of the workers, or any other call of the store. -/
inductive Write where
  | upsertWorker (row : Worker)
  | updateWorkerHeartbeat (id : WorkerId) (activeTasks : ℕ)
  | enrollWorker (digest usedBy : String) (worker : Worker)
    (credential : WorkerOperationalCredential)
  | bumpWorkerIncarnation (id : WorkerId)
  | call (op : StoreOp) (order : RowOrder)

def Write.apply (b : Backend) (c : Cluster) : Write → Cluster
  | .upsertWorker row => { c with store := (Scheduler.upsertWorker b c.store row).2 }
  | .updateWorkerHeartbeat id n =>
    { c with store := (Scheduler.updateWorkerHeartbeat c.store id n).2 }
  | .enrollWorker digest usedBy worker credential =>
    (c.enrollWorker b digest usedBy worker credential).2
  | .bumpWorkerIncarnation id => { c with store := (Scheduler.bumpWorkerIncarnation c.store id).2 }
  | .call op order => { c with store := (b.perform order c.store op).2 }

/-- Which task was handed to which worker last, going by the answers. -/
abbrev HandedTo := TaskId → Option WorkerId

def HandedTo.set (h : HandedTo) (id : TaskId) (w : Option WorkerId) : HandedTo :=
  fun i => if i = id then w else h i

def HandedTo.next (h : HandedTo) : (op : StoreOp) → op.Reply → HandedTo
  | .compareAndSetTaskStatus id _ (.dispatched w _) _ _, r =>
    match r with
    | .ok .applied => h.set id (some w)
    | _ => h
  | .insertTaskIdempotent t, r =>
    match r with
    | .ok .inserted => h.set t.id none
    | _ => h
  | _, _ => h

def Write.bumps (id : WorkerId) : Write → Bool
  | .bumpWorkerIncarnation i => i = id
  | _ => false

/-- The incarnation of a worker begins with its row and with every bump. -/
def Write.begins (w : Write) (c c' : Cluster) (id : WorkerId) : Bool :=
  w.bumps id || (!c.store.workers.contains id && c'.store.workers.contains id)

/-- A cluster, and for each task the worker to whose present incarnation it was handed last. -/
structure Watched where
  cluster : Cluster
  handed : HandedTo := fun _ => none

/-- The clock of the store shows `now` at the write. -/
def Watched.step (b : Backend) (x : Watched) (now : ℤ) (w : Write) : Watched :=
  let c := x.cluster.atTime now
  let c' := w.apply b c
  let handed := match w with
    | .call op order => x.handed.next op (b.perform order c.store op).1
    | _ => x.handed
  ⟨c', fun id => (handed id).filter fun v => !w.begins c c' v⟩

abbrev Steps := List (ℤ × Write)

def Watched.run (b : Backend) (x : Watched) : Steps → Watched
  | [] => x
  | (now, w) :: rest => (x.step b now w).run b rest

/-- At every step of the run. -/
def Throughout (b : Backend) (P : Watched → ℤ → Write → Prop) (x : Watched) : Steps → Prop
  | [] => True
  | (now, w) :: rest => P x now w ∧ Throughout b P (x.step b now w) rest

/-- Only a bump moves the beginning of an incarnation, and not backwards. -/
def Steady (w : Write) (c c' : Cluster) : Prop :=
  ∀ id a a', c.startedAt id = some a → c'.startedAt id = some a' →
    (a' ≠ a → w.bumps id = true) ∧ a ≤ a'

def Watched.Holds (x : Watched) (t : Task) : Prop :=
  ∃ w startedAt, t.status = .dispatched w startedAt ∧ x.handed t.id = some w

/-- No task of a present incarnation looks like one of a former incarnation. -/
def Watched.Sound (x : Watched) : Prop :=
  ∀ t ∈ x.cluster.store.tasks.rows, x.Holds t → ¬ Outlived x.cluster.store.workers t

/-- What is asked of a step. -/
def Upholds (b : Backend) (x : Watched) (now : ℤ) (w : Write) : Prop :=
  Steady w (x.cluster.atTime now) (x.step b now w).cluster ∧ (x.step b now w).Sound

/-- The clock of the store is not behind the beginning of the incarnation that is bumped, or to
which a task is handed, and an enrolment does not write over a row with another beginning. -/
def InTime (b : Backend) (x : Watched) (now : ℤ) : Write → Prop
  | .bumpWorkerIncarnation id => ∀ a, x.cluster.startedAt id = some a → a ≤ now
  | .enrollWorker digest usedBy worker credential =>
    ((x.cluster.atTime now).enrollWorker b digest usedBy worker credential).1 = .ok () →
      ∀ a, x.cluster.startedAt worker.id = some a → worker.incarnationStartedAt = a
  | .call (.compareAndSetTaskStatus id expected (.dispatched w startedAt) fence origin) order =>
    (b.perform order (x.cluster.atTime now).store
      (.compareAndSetTaskStatus id expected (.dispatched w startedAt) fence origin)).1 =
        .ok .applied → ∀ a, x.cluster.startedAt w = some a → a ≤ now
  | _ => True

section Rows

variable {b : Backend} {s : StoreState} {o : RowOrder} {c : Cluster} {id : WorkerId} {w : Write}

theorem beginning_modify {t : WorkerTable} {i : WorkerId} {f : Worker → Worker}
    {hf : ∀ r, (f r).id = r.id}
    (h : ∀ r, (f r).incarnationStartedAt = r.incarnationStartedAt) :
    beginning (t.modify i f hf) id = beginning t id := by
  unfold beginning
  by_cases hi : id = i
  · subst hi
    rw [Keyed.get_modify_self, Option.map_map]
    congr 1
    funext r
    exact h r
  · rw [Keyed.get_modify_ne hi]

theorem beginning_call (op : StoreOp) :
    beginning (b.perform o s op).2.workers id = beginning s.workers id := by
  have h := @perform_written b o s op
  generalize (b.perform o s op).2 = s' at h
  cases h with
  | activity i => exact @beginning_modify id s.workers i _ (stampActivity_id s.now) fun _ => rfl
  | circuit i st =>
    unfold updateWorkerCircuitState
    split
    · exact @beginning_modify id s.workers i _ (setCircuit_id st) fun _ => rfl
    · rfl
  | nothing | tasks | removed | leases | event | output | audit => rfl

theorem enroll_cases (digest usedBy : String) (worker : Worker)
    (credential : WorkerOperationalCredential) :
    (c.enrollWorker b digest usedBy worker credential).2.store.tasks = c.store.tasks ∧
      ((∃ e, (c.enrollWorker b digest usedBy worker credential).1 = .error e ∧
        (c.enrollWorker b digest usedBy worker credential).2.store.workers = c.store.workers) ∨
      ((c.enrollWorker b digest usedBy worker credential).1 = .ok () ∧
        (c.enrollWorker b digest usedBy worker credential).2.store.workers =
          c.store.workers.put worker)) := by
  refine ⟨rfl, ?_⟩
  unfold Cluster.enrollWorker
  cases b with
  | mem =>
    dsimp only
    unfold MemStore.enrollWorker
    split
    · exact .inl ⟨_, rfl, rfl⟩
    · split_ifs
      · exact .inl ⟨_, rfl, rfl⟩
      · exact .inl ⟨_, rfl, rfl⟩
      · exact .inl ⟨_, rfl, rfl⟩
      · exact .inr ⟨rfl, rfl⟩
  | pg =>
    rcases enrollPg_cases (r := c.registry) c.store.now digest usedBy worker credential with
      ⟨e, he⟩ | ⟨he, -⟩
    · exact .inl ⟨e, by rw [he], by rw [he]; rfl⟩
    · exact .inr ⟨by rw [he], by rw [he]; rfl⟩

theorem beginning_put {t : WorkerTable} (row : Worker) :
    beginning (t.put row) id =
      if id = row.id then some row.incarnationStartedAt else beginning t id := by
  unfold beginning
  split
  · next hi =>
    subst hi
    have hget := @Keyed.get_put_self WorkerId Worker Worker.id _ t row
    rw [hget]
    rfl
  · next hi => rw [Keyed.get_put_ne hi]

theorem upserted_id (row : Worker) : (upsertedWorker b s row).id = row.id := by
  unfold upsertedWorker
  cases s.workers.get row.id with
  | some prev => rfl
  | none => cases b <;> rfl

/-- How a write may move the beginning of an incarnation. -/
inductive Moved (b : Backend) (c : Cluster) (id : WorkerId) : Write → ℤ → ℤ → Prop
  | still (w : Write) (a : ℤ) : Moved b c id w a a
  | bumped (a : ℤ) : Moved b c id (.bumpWorkerIncarnation id) a c.store.now
  | overwritten (digest usedBy : String) (worker : Worker)
      (credential : WorkerOperationalCredential) (a : ℤ) (hi : worker.id = id)
      (ho : (c.enrollWorker b digest usedBy worker credential).1 = .ok ()) :
      Moved b c id (.enrollWorker digest usedBy worker credential) a worker.incarnationStartedAt

theorem upsert_keeps {a : ℤ} (row : Worker) (h : beginning s.workers id = some a) :
    beginning (upsertWorker b s row).2.workers id = some a := by
  unfold upsertWorker
  split
  · exact h
  · dsimp only
    rw [beginning_put, upserted_id]
    split
    · next hi =>
      subst hi
      unfold beginning at h
      unfold upsertedWorker
      cases hg : s.workers.get row.id with
      | none =>
        rw [hg] at h
        cases h
      | some prev =>
        rw [hg] at h
        exact h
    · exact h

theorem beginning_bump (i : WorkerId) :
    beginning (bumpWorkerIncarnation s i).2.workers id =
      if id = i then (beginning s.workers id).map fun _ => s.now else beginning s.workers id := by
  unfold bumpWorkerIncarnation beginning
  dsimp only
  split
  · next hi =>
    subst hi
    rw [Keyed.get_modify_self, Option.map_map, Option.map_map]
    rfl
  · next hi => rw [Keyed.get_modify_ne hi]

theorem apply_moves {a : ℤ} (h : c.startedAt id = some a) :
    ∃ a', (w.apply b c).startedAt id = some a' ∧ Moved b c id w a a' := by
  cases w with
  | upsertWorker row => exact ⟨a, upsert_keeps row h, .still _ a⟩
  | updateWorkerHeartbeat i n =>
    refine ⟨a, ?_, .still _ a⟩
    change beginning (updateWorkerHeartbeat c.store i n).2.workers id = some a
    unfold updateWorkerHeartbeat
    split
    · have hkept := @beginning_modify id c.store.workers i _ (beatenWorker_id c.store.now n)
        fun _ => rfl
      exact hkept.trans h
    · exact h
  | enrollWorker digest usedBy worker credential =>
    obtain ⟨-, ⟨e, -, hw⟩ | ⟨hok, hw⟩⟩ := @enroll_cases b c digest usedBy worker credential
    · exact ⟨a, (congrArg (beginning · id) hw).trans h, .still _ a⟩
    · have hput : ((Write.enrollWorker digest usedBy worker credential).apply b c).startedAt id =
          beginning (c.store.workers.put worker) id := congrArg (beginning · id) hw
      rw [hput, beginning_put]
      split
      · next hi => exact ⟨_, rfl, .overwritten digest usedBy worker credential a hi.symm hok⟩
      · exact ⟨a, h, .still _ a⟩
  | bumpWorkerIncarnation i =>
    have hbump : ((Write.bumpWorkerIncarnation i).apply b c).startedAt id = _ :=
      @beginning_bump c.store id i
    have hold : beginning c.store.workers id = some a := h
    rw [hbump, hold]
    split
    · next hi =>
      subst hi
      exact ⟨c.store.now, rfl, .bumped a⟩
    · exact ⟨a, rfl, .still _ a⟩
  | call op order => exact ⟨a, (beginning_call op).trans h, .still _ a⟩

/-- A row that is handed to its worker stays as it was, unless the call hands it over or inserts
it. -/
theorem row_kept {i : TaskId} {t : Task} (op : StoreOp)
    (hcas : ∀ i e n f g, op ≠ .compareAndSetTaskStatus i e n f g)
    (hins : ∀ u, op ≠ .insertTaskIdempotent u) (h : (b.perform o s op).2.tasks.get i = some t) :
    ∃ u, s.tasks.get i = some u ∧ t.status = u.status ∧ t.dispatchedAt = u.dispatchedAt := by
  have heffect := @perform_effect b o s i op
  rw [h] at heffect
  generalize s.tasks.get i = before at heffect
  generalize (b.perform o s op).1 = r at heffect
  cases heffect with
  | same => exact ⟨t, rfl, rfl, rfl⟩
  | inserted u => exact absurd rfl (hins u)
  | transition => exact absurd rfl (hcas _ _ _ _ _)
  | retried u => exact ⟨u, rfl, rfl, rfl⟩
  | session u => exact ⟨u, rfl, rfl, rfl⟩
  | skills u => exact ⟨u, rfl, rfl, rfl⟩
  | orphaned u other =>
    refine ⟨u, rfl, ?_, ?_⟩
    all_goals
      unfold dropParent
      split <;> rfl

theorem next_refused {h : HandedTo} {i : TaskId} {expected : List TaskPhase} {new : TaskStatus}
    {fence : Option ControlFence} {origin : TransitionOrigin}
    {r : Except StoreError TransitionOutcome} (hr : r ≠ .ok .applied) :
    h.next (.compareAndSetTaskStatus i expected new fence origin) r = h := by
  cases new with
  | dispatched w startedAt => simp only [HandedTo.next]
  | pending | completed | failed | cancelled => rfl

theorem next_other {h : HandedTo} {i j : TaskId} {expected : List TaskPhase} {new : TaskStatus}
    {fence : Option ControlFence} {origin : TransitionOrigin}
    {r : Except StoreError TransitionOutcome} (hj : j ≠ i) :
    h.next (.compareAndSetTaskStatus i expected new fence origin) r j = h j := by
  cases new with
  | dispatched w startedAt =>
    simp only [HandedTo.next]
    split
    · exact if_neg hj
    · rfl
  | pending | completed | failed | cancelled => rfl

/-- A task that a status change leaves with a worker was with it before, or has just been handed
over. -/
theorem cas_hands {h : HandedTo} {i : TaskId} {expected : List TaskPhase} {new : TaskStatus}
    {fence : Option ControlFence} {origin : TransitionOrigin} {t : Task} {v : WorkerId}
    {startedAt : ℤ}
    (ht : (b.compareAndSetTaskStatus s i expected new fence origin).2.tasks.get t.id = some t)
    (hs : t.status = .dispatched v startedAt)
    (hh : h.next (.compareAndSetTaskStatus i expected new fence origin)
      (b.compareAndSetTaskStatus s i expected new fence origin).1 t.id = some v) :
    (s.tasks.get t.id = some t ∧ h t.id = some v) ∨
      (i = t.id ∧ new = .dispatched v startedAt ∧ t.dispatchedAt = some s.now ∧
        (b.compareAndSetTaskStatus s i expected new fence origin).1 = .ok .applied) := by
  rw [backend_cas] at *
  have hc := memStore_meets_contract s i expected new fence origin
  by_cases ha : (MemStore.compareAndSetTaskStatus s i expected new fence origin).1 = .ok .applied
  · by_cases hi : t.id = i
    · subst hi
      obtain ⟨-, u, hu, -⟩ := hc.applied.mp ha
      rw [hc.written ha u hu] at ht
      have hrow := Option.some.inj ht
      have hnew : new = .dispatched v startedAt := by
        rw [← hs, ← hrow]
      refine .inr ⟨rfl, hnew, ?_, ha⟩
      rw [← hrow, hnew]
      rfl
    · rw [hc.others t.id hi] at ht
      rw [next_other hi] at hh
      exact .inl ⟨ht, hh⟩
  · rw [hc.unchanged ha] at ht
    rw [next_refused ha] at hh
    exact .inl ⟨ht, hh⟩

/-- An inserted task has been handed to nobody. -/
theorem insert_hands {h : HandedTo} {u t : Task} {v : WorkerId}
    (ht : (b.insertTaskIdempotent s o.tasks u).2.tasks.get t.id = some t)
    (hh : h.next (.insertTaskIdempotent u) (b.insertTaskIdempotent s o.tasks u).1 t.id = some v) :
    s.tasks.get t.id = some t ∧ h t.id = some v := by
  rcases insert_cases b s o.tasks u with ⟨hr, -⟩ | ⟨r, hr, hn⟩
  · rw [hr] at ht hh
    have hid : (b.insertedRow u).id = u.id := by cases b <;> rfl
    change (if t.id = u.id then none else h t.id) = some v at hh
    split at hh
    · cases hh
    · next hne =>
      dsimp only at ht
      rw [get_withTask, hid, if_neg hne] at ht
      exact ⟨ht, hh⟩
  · rw [hr] at ht hh
    have hsame : h.next (.insertTaskIdempotent u) r = h := by simp only [HandedTo.next]
    rw [hsame] at hh
    exact ⟨ht, hh⟩

/-- The same of any call. -/
theorem call_hands {h : HandedTo} {op : StoreOp} {t : Task} {v : WorkerId} {startedAt : ℤ}
    (ht : (b.perform o s op).2.tasks.get t.id = some t) (hs : t.status = .dispatched v startedAt)
    (hh : h.next op (b.perform o s op).1 t.id = some v) :
    (∃ u, s.tasks.get t.id = some u ∧ u.status = .dispatched v startedAt ∧
      t.dispatchedAt = u.dispatchedAt ∧ h t.id = some v) ∨
    (∃ expected fence origin,
      op = .compareAndSetTaskStatus t.id expected (.dispatched v startedAt) fence origin ∧
      (b.perform o s (.compareAndSetTaskStatus t.id expected (.dispatched v startedAt) fence
        origin)).1 = .ok .applied ∧ t.dispatchedAt = some s.now) := by
  by_cases hcas : ∃ i e n f g, op = .compareAndSetTaskStatus i e n f g
  · obtain ⟨i, expected, new, fence, origin, rfl⟩ := hcas
    rcases cas_hands ht hs hh with ⟨hold, hheld⟩ | ⟨rfl, rfl, hat, ha⟩
    · exact .inl ⟨t, hold, hs, rfl, hheld⟩
    · exact .inr ⟨expected, fence, origin, rfl, ha, hat⟩
  · left
    by_cases hins : ∃ u, op = .insertTaskIdempotent u
    · obtain ⟨u, rfl⟩ := hins
      obtain ⟨hold, hheld⟩ := insert_hands ht hh
      exact ⟨t, hold, hs, rfl, hheld⟩
    · simp only [not_exists] at hcas hins
      obtain ⟨u, hu, hstatus, hat⟩ := row_kept op hcas hins ht
      have hsame : h.next op (b.perform o s op).1 = h := by
        cases op with
        | compareAndSetTaskStatus i e n f g => exact absurd rfl (hcas i e n f g)
        | insertTaskIdempotent u => exact absurd rfl (hins u)
        | _ => rfl
      rw [hsame] at hh
      exact ⟨u, hu, hstatus ▸ hs, hat, hh⟩

end Rows

section Run

variable {b : Backend} {x : Watched} {now : ℤ} {w : Write}

theorem steady_of_inTime (h : InTime b x now w) :
    Steady w (x.cluster.atTime now) (x.step b now w).cluster := by
  intro id a a' ha ha'
  obtain ⟨a₁, ha₁, hmoved⟩ := @apply_moves b (x.cluster.atTime now) id w a ha
  obtain rfl : a₁ = a' := Option.some.inj (ha₁.symm.trans ha')
  cases hmoved with
  | still => exact ⟨fun hne => absurd rfl hne, Int.le_refl _⟩
  | bumped => exact ⟨fun _ => decide_eq_true rfl, h a ha⟩
  | overwritten digest usedBy worker credential _ hi ho =>
    subst hi
    have hsame := h ho a ha
    exact ⟨fun hne => absurd hsame hne, hsame.ge⟩

/-- Between two bumps the beginning of an incarnation is where it was. -/
theorem beginning_back {c c' : Cluster} {id : WorkerId} {a : ℤ} (hs : Steady w c c')
    (hb : w.begins c c' id = false) (ha : c'.startedAt id = some a) : c.startedAt id = some a := by
  obtain ⟨hbump, hrow⟩ := Bool.or_eq_false_iff.mp hb
  have hthere : c'.store.workers.contains id = true := by
    rw [Keyed.contains_eq]
    obtain ⟨row, hget, -⟩ := Option.map_eq_some_iff.mp ha
    rw [hget]
    rfl
  rw [hthere, Bool.and_true, Bool.not_eq_false', Keyed.contains_eq] at hrow
  obtain ⟨row, hget⟩ := Option.isSome_iff_exists.mp hrow
  have hold : c.startedAt id = some row.incarnationStartedAt := by
    rw [Cluster.startedAt, beginning, hget]
    rfl
  have hsteady := (hs id _ a hold ha).1
  have hsame : a = row.incarnationStartedAt := by
    by_contra hne
    rw [hbump] at hsteady
    cases hsteady hne
  rw [hold, hsame]

theorem outlived_iff {workers : WorkerTable} {t : Task} {v : WorkerId} {startedAt : ℤ}
    (hs : t.status = .dispatched v startedAt) : Outlived workers t ↔
      ∃ a, beginning workers v = some a ∧ t.dispatchedAt.getD startedAt < a := by
  constructor
  · rintro ⟨v', startedAt', row, hs', hrow, hlt⟩
    rw [hs] at hs'
    cases hs'
    exact ⟨_, by rw [beginning, hrow]; rfl, hlt⟩
  · rintro ⟨a, ha, hlt⟩
    obtain ⟨row, hrow, rfl⟩ := Option.map_eq_some_iff.mp ha
    exact ⟨v, startedAt, row, hs, hrow, hlt⟩

/-- Only a call writes tasks. -/
theorem apply_tasks {c : Cluster} (hn : ∀ op order, w ≠ .call op order) :
    (w.apply b c).store.tasks = c.store.tasks := by
  cases w with
  | upsertWorker row =>
    simp only [Write.apply, upsertWorker]
    split <;> rfl
  | updateWorkerHeartbeat id n =>
    simp only [Write.apply, updateWorkerHeartbeat]
    split <;> rfl
  | enrollWorker digest usedBy worker credential => rfl
  | bumpWorkerIncarnation id => rfl
  | call op order => exact absurd rfl (hn op order)

theorem sound_of_inTime (hx : x.Sound) (h : InTime b x now w) : (x.step b now w).Sound := by
  have hsteady := steady_of_inTime h
  rintro t ht ⟨v, startedAt, hs, hheld⟩ houtlived
  obtain ⟨a, ha, hlt⟩ := (outlived_iff hs).mp houtlived
  obtain ⟨hhanded, hnew⟩ := Option.filter_eq_some_iff.mp hheld
  rw [Bool.not_eq_true'] at hnew
  have hbefore : (x.cluster.atTime now).startedAt v = some a := beginning_back hsteady hnew ha
  have former {u : Task} (hu : x.cluster.store.tasks.get u.id = some u)
      (hus : u.status = .dispatched v startedAt) (hat : t.dispatchedAt = u.dispatchedAt)
      (hud : x.handed u.id = some v) : False := by
    apply hx u (Keyed.get_eq_some.mp hu).1 ⟨v, startedAt, hus, hud⟩
    rw [hat] at hlt
    exact (outlived_iff hus).mpr ⟨a, hbefore, hlt⟩
  have hget := Keyed.get_of_mem ht
  have same (hn : ∀ op order, w ≠ .call op order) : x.cluster.store.tasks.get t.id = some t := by
    rw [← hget]
    have htasks := apply_tasks (b := b) (c := x.cluster.atTime now) hn
    exact congrArg (Keyed.get · t.id) htasks.symm
  cases w with
  | call op order =>
    rcases call_hands (s := (x.cluster.atTime now).store) hget hs hhanded with
      ⟨u, hu, hus, hat, hud⟩ | ⟨expected, fence, origin, rfl, happlied, hat⟩
    · have hid : t.id = u.id := (Keyed.get_key hu).symm
      rw [hid] at hu hud
      exact former hu hus hat hud
    · -- the clock was not behind when the task was handed over
      have hle := h happlied a hbefore
      rw [hat] at hlt
      exact absurd hlt (not_lt.mpr hle)
  | upsertWorker | updateWorkerHeartbeat | enrollWorker | bumpWorkerIncarnation =>
    exact former (same (by rintro op order ⟨⟩)) hs rfl hhanded

theorem handed_in_time {order : RowOrder} {i : TaskId} {expected : List TaskPhase} {v : WorkerId}
    {startedAt a : ℤ} {fence : Option ControlFence} {origin : TransitionOrigin}
    (hsound : (x.step b now (.call (.compareAndSetTaskStatus i expected (.dispatched v startedAt)
      fence origin) order)).Sound)
    (happlied : (b.perform order (x.cluster.atTime now).store
      (.compareAndSetTaskStatus i expected (.dispatched v startedAt) fence origin)).1 =
        .ok .applied)
    (ha : x.cluster.startedAt v = some a) : a ≤ now := by
  have hanswer := @answer_applied b order (x.cluster.atTime now).store i none _ _ _ _ happlied
  obtain ⟨-, t, ht, -, hrow⟩ := hanswer
  have hid : t.id = i := Keyed.get_key ht
  set t' := transition (.dispatched v startedAt) fence (x.cluster.atTime now).store.now t with ht'
  have hid' : t'.id = i := (transition_id _ _ _ t).trans hid
  rw [transition_eq] at ht'
  have hstatus : t'.status = .dispatched v startedAt := by rw [ht']
  have hat : t'.dispatchedAt = some now := by
    rw [ht']
    rfl
  set op := StoreOp.compareAndSetTaskStatus i expected (.dispatched v startedAt) fence origin
  have hbeginning :
      beginning (b.perform order (x.cluster.atTime now).store op).2.workers v = some a :=
    (beginning_call op).trans ha
  have hthere : (x.cluster.atTime now).store.workers.contains v = true := by
    obtain ⟨row, hget, -⟩ := Option.map_eq_some_iff.mp ha
    rw [Keyed.contains_eq]
    exact Option.isSome_iff_exists.mpr ⟨row, hget⟩
  have hheld : (x.step b now (.call op order)).handed t'.id = some v := by
    apply Option.filter_eq_some_iff.mpr
    constructor
    · have hnext : x.handed.next op (b.perform order (x.cluster.atTime now).store op).1 =
          x.handed.set i (some v) := by
        rw [happlied]
        rfl
      dsimp only
      rw [hnext, hid']
      exact if_pos rfl
    · unfold Write.begins
      rw [hthere]
      rfl
  have hmem : t' ∈ (x.step b now (.call op order)).cluster.store.tasks.rows :=
    (Keyed.get_eq_some.mp hrow).1
  have hnot := hsound t' hmem ⟨v, startedAt, hstatus, hheld⟩
  rw [outlived_iff hstatus] at hnot
  by_contra hlt
  apply hnot
  refine ⟨a, hbeginning, ?_⟩
  rw [hat]
  exact not_le.mp hlt

theorem inTime_of_upholds (h : Upholds b x now w) : InTime b x now w := by
  obtain ⟨hsteady, hsound⟩ := h
  cases w with
  | upsertWorker row => trivial
  | updateWorkerHeartbeat id n => trivial
  | bumpWorkerIncarnation id =>
    intro a ha
    have hbump : (x.step b now (.bumpWorkerIncarnation id)).cluster.startedAt id = some now := by
      have hmoved := @beginning_bump (x.cluster.atTime now).store id id
      have hold : beginning (x.cluster.atTime now).store.workers id = some a := ha
      rw [if_pos rfl, hold] at hmoved
      exact hmoved
    exact (hsteady id a now ha hbump).2
  | enrollWorker digest usedBy worker credential =>
    intro ho a ha
    obtain ⟨-, ⟨e, he, -⟩ | ⟨-, hput⟩⟩ :=
      @enroll_cases b (x.cluster.atTime now) digest usedBy worker credential
    · rw [ho] at he
      cases he
    · have hnew : (x.step b now (.enrollWorker digest usedBy worker credential)).cluster.startedAt
          worker.id = some worker.incarnationStartedAt := by
        have hrow := @beginning_put worker.id (x.cluster.atTime now).store.workers worker
        rw [if_pos rfl, ← hput] at hrow
        exact hrow
      by_contra hne
      cases (hsteady worker.id a _ ha hnew).1 hne
  | call op order =>
    cases op with
    | compareAndSetTaskStatus i expected new fence origin =>
      cases new with
      | dispatched v startedAt =>
        intro happlied a ha
        exact handed_in_time hsound happlied ha
      | pending | completed | failed | cancelled => trivial
    | _ => trivial

/-- The step keeps what is asked of it exactly if it is in time. -/
theorem upholds_iff (hx : x.Sound) : Upholds b x now w ↔ InTime b x now w :=
  ⟨inTime_of_upholds, fun h => ⟨steady_of_inTime h, sound_of_inTime hx h⟩⟩

/-- The same of a whole run. -/
theorem throughout_iff (hx : x.Sound) (steps : Steps) :
    Throughout b (Upholds b) x steps ↔ Throughout b (InTime b) x steps := by
  induction steps generalizing x with
  | nil => exact Iff.rfl
  | cons e rest ih =>
    obtain ⟨now, w⟩ := e
    constructor
    · rintro ⟨huphold, hrest⟩
      exact ⟨inTime_of_upholds huphold, (ih huphold.2).mp hrest⟩
    · rintro ⟨htime, hrest⟩
      have huphold := (upholds_iff hx).mpr htime
      exact ⟨huphold, (ih huphold.2).mpr hrest⟩

theorem sound_run (hx : x.Sound) {steps : Steps} (h : Throughout b (InTime b) x steps) :
    (x.run b steps).Sound := by
  induction steps generalizing x with
  | nil => exact hx
  | cons e rest ih => exact ih (sound_of_inTime hx h.1) h.2

end Run

/-- Nothing has been handed to anybody yet. -/
def Cluster.watched (c : Cluster) : Watched := { cluster := c }

theorem watched_sound (c : Cluster) : c.watched.Sound := by
  rintro t - ⟨w, startedAt, -, hheld⟩
  cases hheld

/-- A sweep fails exactly the outlived tasks past their grace if it comes to them and the store
accepts its fence; a run keeps the incarnations steady, and every task of a present one apart from
the outlived, exactly if every step is in time; and then no sweep fails a task of a present
incarnation for a restart. -/
theorem restart_rule_exact (b : Backend) :
    (∀ (o : RowOrder) (fence : Option ControlFence) (env : ℕ → (op : Op) → Resp op)
      (cfg : ProcessConfig) (summary : ReconcileSummary) (s : StoreState), ∀ t ∈ s.tasks.rows,
      ((FailedByRestart (swept b o fence env cfg summary s) t ↔
          PastGrace cfg.reconcile (sweepTime env) t ∧ Outlived s.workers t) ↔
        (PastGrace cfg.reconcile (sweepTime env) t ∧ Outlived s.workers t →
          s.controlFenceHolds fence ∧
            (b.scanned s o.tasks Scan.dispatched.filter).idxOf t < Reconciler.maxPendingScan))) ∧
    (∀ (c : Cluster) (steps : Steps),
      (Throughout b (Upholds b) c.watched steps ↔ Throughout b (InTime b) c.watched steps) ∧
      (Throughout b (InTime b) c.watched steps →
        ∀ (o : RowOrder) (fence : Option ControlFence) (env : ℕ → (op : Op) → Resp op)
          (cfg : ProcessConfig) (summary : ReconcileSummary),
        ∀ t ∈ (c.watched.run b steps).cluster.store.tasks.rows, (c.watched.run b steps).Holds t →
          ¬ FailedByRestart (swept b o fence env cfg summary
            (c.watched.run b steps).cluster.store) t)) := by
  constructor
  · intro o fence env cfg summary s t ht
    rw [failedByRestart_iff summary ht]
    exact and_iff_right_iff_imp
  · intro c steps
    refine ⟨throughout_iff (watched_sound c) steps, ?_⟩
    intro htime o fence env cfg summary t ht hholds hfailed
    have hrule := (failedByRestart_iff summary ht).mp hfailed
    exact sound_run (watched_sound c) htime t ht hholds hrule.2.2

/-- What a process hears that has no connection. -/
def unconnected (now : ℤ) : (op : Op) → Resp op
  | .store _ => .error .notFound
  | .process o => (({} : Process).perform (solo.process 0) now o).1
  | .readSkill _ => .notFound
  | .acp o =>
    match o with
    | .dispatchEntry _ => .error (.workerNotRegistered "")
    | .lookupClient _ | .cloneConnection _ | .lookupQueue .. | .removeClient _ => none
    | .readListDeclared _ | .tryAcquirePermit _ | .removeSession .. => false
    | .readConnState _ => .disconnected
    | .newSession .. => .timedOut
    | .awaitPrompt .. => .timedOut
    | .askSessions .. => .timedOut
    | .insertSession .. => 0
    | .readOutput _ => ""
    | .snapshotSessions _ => []
    | .findCancelTarget _ => .unreachable
    | .releasePermit _ | .spawnPrompt .. | .broadcast _ | .sendPrompt .. | .sendFlush _
    | .awaitFlush _ | .sendCancel .. | .failDrained .. | .dropConnection _ | .setDisconnected _
    | .endCleaning _ | .requestShutdown _ => ()

def newcomer : Worker where
  id := ⟨1⟩
  name := "worker"
  registeredAt := secs 60
  incarnationStartedAt := secs 60

/-- The clock of the process is a minute ahead of the clock of the database. -/
def skewed : Steps :=
  [(0, .upsertWorker newcomer), (0, .call (.insertTaskIdempotent (soloTask 1 [])) {}),
    (secs 10, .call (.compareAndSetTaskStatus ⟨1⟩ [.pending] (.dispatched ⟨1⟩ (secs 70)) none
      .controlDecision) {})]

def ahead : Watched := (Cluster.watched { store := .empty }).run .pg skewed

/-- The row of the task then: to the database it was dispatched ten seconds after the worker
came. -/
def soonAfter : Task :=
  { soloTask 1 [] with status := .dispatched ⟨1⟩ (secs 70), dispatchedAt := some (secs 10) }

theorem ahead_rows : ahead.cluster.store.tasks.rows = [soonAfter] := by rfl

theorem ahead_handed : ahead.handed ⟨1⟩ = some ⟨1⟩ := by rfl

theorem ahead_workers : ahead.cluster.store.workers.get ⟨1⟩ = some newcomer := by rfl

/-- A task is failed for a restart of a worker that has never restarted, and the first bump moves
the beginning of its incarnation back. -/
theorem newcomer_taken_for_restarted :
    (soonAfter ∈ ahead.cluster.store.tasks.rows ∧ ahead.Holds soonAfter ∧
      FailedByRestart (swept .pg {} none (fun _ => unconnected (secs 100)) (solo.process 0) {}
        ahead.cluster.store) soonAfter) ∧
    ahead.cluster.startedAt ⟨1⟩ = some (secs 60 : ℤ) ∧
    (ahead.step .pg (secs 15) (.bumpWorkerIncarnation ⟨1⟩)).cluster.startedAt ⟨1⟩ =
      some (secs 15 : ℤ) := by
  have hmem : soonAfter ∈ ahead.cluster.store.tasks.rows := by
    rw [ahead_rows]
    exact List.mem_singleton_self _
  refine ⟨⟨hmem, ⟨⟨1⟩, secs 70, rfl, ahead_handed⟩, ?_⟩, rfl, rfl⟩
  apply (failedByRestart_iff {} hmem).mpr
  refine ⟨⟨rfl, ?_⟩, ⟨⟨1⟩, secs 70, rfl, ?_⟩, ⟨⟨1⟩, secs 70, newcomer, rfl, ahead_workers, ?_⟩⟩
  · decide +kernel
  · decide +kernel
  · decide +kernel

end FleetOrchestrator.Scheduler
