import FleetOrchestrator.Health.Calls
import FleetOrchestrator.Interleaving.Discipline

/-! Whole rows are written back long after they were read. As long as nobody has been at a row in
between, no write loses a newer one. -/

namespace FleetOrchestrator.Health

open Core Tables Store Interleaving Machine

section Rows

variable {b : Backend} {rank : WorkerId → ℕ} {op : Op} {w : World} {id : WorkerId}
  {r row : WorkerRow}

@[simp] theorem lastSeen_upserted : (upserted b w row).lastSeen = row.lastSeen := by
  unfold upserted
  cases w.workers.get row.key with
  | some prev => rfl
  | none => cases b <;> rfl

@[simp] theorem status_upserted : (upserted b w row).status = row.status := by
  unfold upserted
  cases w.workers.get row.key with
  | some prev => rfl
  | none => cases b <;> rfl

/-- What a step does to a row. -/
theorem effect_get (id : WorkerId) :
    (op.effect b rank w).2.workers.get id = w.workers.get id ∨
    (∃ n, op = .updateWorkerHeartbeat id n ∧
      (op.effect b rank w).2.workers.get id = (w.workers.get id).map (WorkerRow.beaten w.now n)) ∨
    (op = .bumpWorkerIncarnation id ∧
      (op.effect b rank w).2.workers.get id = (w.workers.get id).map (WorkerRow.restarted w.now)) ∨
    ∃ row, op = .upsertWorker row ∧ row.key = id ∧
      (op.effect b rank w).2.workers.get id = some (upserted b w row) := by
  cases op with
  | updateWorkerHeartbeat i n =>
    simp only [Op.effect]
    split
    · by_cases hi : id = i
      · subst hi
        refine .inr (.inl ⟨n, rfl, ?_⟩)
        rw [Keyed.get_modify_self]
      · left
        rw [Keyed.get_modify_ne hi]
    · exact .inl rfl
  | bumpWorkerIncarnation i =>
    simp only [Op.effect]
    by_cases hi : id = i
    · subst hi
      refine .inr (.inr (.inl ⟨rfl, ?_⟩))
      rw [Keyed.get_modify_self]
    · left
      rw [Keyed.get_modify_ne hi]
  | upsertWorker row =>
    simp only [Op.effect]
    split
    · exact .inl rfl
    · have hkey := key_upserted b w row
      by_cases hi : id = row.key
      · subst hi
        refine .inr (.inr (.inr ⟨row, rfl, rfl, ?_⟩))
        have hget := @Keyed.get_put_self _ _ _ _ w.workers (upserted b w row)
        rwa [hkey] at hget
      · apply Or.inl
        apply Keyed.get_put_ne
        rwa [hkey]
  | _ => exact .inl rfl

theorem effect_now : (op.effect b rank w).2.now = w.now := by
  cases op with
  | updateWorkerHeartbeat i n =>
    simp only [Op.effect]
    split <;> rfl
  | upsertWorker row =>
    simp only [Op.effect]
    split <;> rfl
  | _ => rfl

theorem get_edit (f : WorkerRow → WorkerRow) (id : WorkerId) :
    (disturb (.edit f) w).workers.get id = (w.workers.get id).map (WorkerRow.edited f) := by
  simp [disturb, Keyed.get_updateWhere]

end Rows

section Histories

/-- The rows that the answer shows. -/
def Op.rows : (op : Op) → op.Resp → List WorkerRow
  | .getWorker _, row => row.toList
  | .getWorkerByName _, row => row.toList
  | .listWorkers _, rows => rows
  | _, _ => []

/-- The copies of the row that the call has read. -/
def copies (id : WorkerId) (h : Past) : List WorkerRow :=
  (h.flatMap fun e => e.op.rows e.resp).filter fun r => r.key = id

def lastClock : Past → Option ℤ
  | [] => none
  | ⟨.utcNow, now⟩ :: _ => some now
  | _ :: h => lastClock h

theorem mem_copies {id : WorkerId} {h : Past} {r : WorkerRow} :
    r ∈ copies id h ↔ (∃ e ∈ h, r ∈ e.op.rows e.resp) ∧ r.key = id := by
  simp [copies]

theorem lastClock_mem {h : Past} {now : ℤ} (hc : lastClock h = some now) :
    (⟨.utcNow, now⟩ : Entry Op Op.Resp) ∈ h := by
  induction h with
  | nil => cases hc
  | cons e h ih =>
    obtain ⟨op, resp⟩ := e
    cases op with
    | utcNow =>
      cases hc
      exact List.mem_cons_self
    | _ => exact List.mem_cons_of_mem _ (ih hc)

/-- What a call writes back. -/
def Writes (a : Activity) (h : Past) (row : WorkerRow) : Prop :=
  match a with
  | .heartbeat _ => row.status ≠ .offline ∧
      ∃ read ∈ copies row.key h, row = read.withStatus row.status
  | .register _ _ => ∃ now, lastClock h = some now ∧ row.lastSeen = some now
  | .scan config => (∃ read ∈ copies row.key h, row = read.withStatus .offline) ∧
      ∃ now, lastClock h = some now ∧ row.expired now config.graceDuration = true

def Licensed (a : Activity) (h : Past) : Op → Prop
  | .upsertWorker row => Writes a h row
  | _ => True

end Histories

section Programs

variable {h : Past}

theorem writeBack_licensed {req : HeartbeatRequest} {worker : WorkerRow} {status : WorkerStatus}
    (hread : worker ∈ copies worker.key h) (hs : status ≠ .offline) :
    Obeys (Licensed (.heartbeat req)) (fun _ h' => worker ∈ copies worker.key h')
      (writeBack worker status) h := by
  refine obeys_call ⟨hs, worker, hread, rfl⟩ fun r => ?_
  have hgrew : worker ∈ copies worker.key
      (⟨.upsertWorker (worker.withStatus status), r⟩ :: h) := hread
  cases r with
  | error e => exact obeys_ret hgrew
  | ok u => exact obeys_ret hgrew

theorem heartbeat_licensed (req : HeartbeatRequest) :
    Obeys (Licensed (.heartbeat req)) (fun _ _ => True) (heartbeat req) [] := by
  refine obeys_call trivial fun found => ?_
  cases found with
  | none => exact obeys_ret trivial
  | some worker =>
    refine obeys_call trivial fun beaten => ?_
    cases beaten with
    | error e => exact obeys_ret trivial
    | ok u =>
      have hread : worker ∈ copies worker.key
          [⟨.updateWorkerHeartbeat req.workerId req.activeTasks, .ok u⟩,
            ⟨.getWorker req.workerId, some worker⟩] := by
        simp [copies, Op.rows]
      have hnew : req.newStatus ≠ .offline := by
        unfold HeartbeatRequest.newStatus
        split <;> simp
      have hpromote : Obeys (Licensed (.heartbeat req))
          (fun _ h' => worker ∈ copies worker.key h') (promote req worker)
          [⟨.updateWorkerHeartbeat req.workerId req.activeTasks, .ok u⟩,
            ⟨.getWorker req.workerId, some worker⟩] := by
        unfold promote
        split
        · exact writeBack_licensed hread hnew
        · exact obeys_ret hread
      apply obeys_andThen hpromote (fun _ _ _ => trivial)
      intro _ h' hread'
      unfold selfDrain
      split_ifs
      · apply obeys_andThen (writeBack_licensed hread' (by simp)) (fun _ _ _ => trivial)
        exact fun _ _ _ => obeys_ret trivial
      · exact obeys_ret trivial
      · exact obeys_ret trivial

theorem register_licensed (req : RegisterRequest) (fresh : WorkerId) :
    Obeys (Licensed (.register req fresh)) (fun _ _ => True) (registerWorker req fresh) [] := by
  unfold registerWorker
  cases checkRegistration req with
  | error e => exact obeys_ret trivial
  | ok u =>
    refine obeys_call trivial fun byName => ?_
    have hfind (h : Past) : Obeys (Licensed (.register req fresh)) (fun _ _ => True)
        (findById req.existingWorkerId) h := by
      cases req.existingWorkerId with
      | none => exact obeys_ret trivial
      | some id => exact obeys_perform trivial fun _ => trivial
    apply obeys_bind (hfind _)
    intro byId h₁ _
    cases checkSame (trim req.name) byName byId with
    | error e => exact obeys_ret trivial
    | ok u =>
      refine obeys_call trivial fun now => ?_
      have hbump (known : Bool) (id : WorkerId) : Obeys (Licensed (.register req fresh))
          (fun _ h' => lastClock h' = some now) (bumpIfKnown known id) (⟨.utcNow, now⟩ :: h₁) := by
        cases known with
        | true => exact obeys_call trivial fun _ => obeys_ret rfl
        | false => exact obeys_ret rfl
      apply obeys_bind (hbump _ _)
      intro _ h₂ hclock
      refine obeys_call ⟨now, hclock, rfl⟩ fun r => ?_
      cases r with
      | error e => exact obeys_ret trivial
      | ok u => exact obeys_ret trivial

theorem markOffline_licensed {config : HealthConfig} {now : ℤ} (all : List WorkerRow)
    (expired : ℕ) (hread : ∀ r ∈ all, r ∈ copies r.key h) (hclock : lastClock h = some now) :
    Obeys (Licensed (.scan config)) (fun _ _ => True)
      (markOffline config now all expired) h := by
  induction all generalizing h expired with
  | nil => exact obeys_ret trivial
  | cons worker all ih =>
    have hrest : ∀ r ∈ all, r ∈ copies r.key h := fun r hr => hread r (List.mem_cons_of_mem _ hr)
    unfold markOffline
    split
    · next hexpired =>
      have hfirst := hread worker List.mem_cons_self
      refine obeys_call ⟨⟨worker, hfirst, rfl⟩, now, hclock, hexpired⟩ fun r => ?_
      cases r with
      | error e => exact ih _ hrest hclock
      | ok u => exact obeys_call trivial fun _ => ih _ hrest hclock
    · exact ih _ hrest hclock

theorem scan_licensed (config : HealthConfig) :
    Obeys (Licensed (.scan config)) (fun _ _ => True) (scanOnce config) [] := by
  refine obeys_call trivial fun candidates => ?_
  refine obeys_call trivial fun degraded => ?_
  refine obeys_call trivial fun draining => ?_
  refine obeys_call trivial fun now => ?_
  apply markOffline_licensed
  · intro r hr
    simp only [List.mem_append] at hr
    simp only [copies, List.flatMap_cons, List.flatMap_nil, Op.rows, List.mem_filter,
      List.mem_append, decide_true, and_true]
    tauto
  · rfl

theorem workers_disciplined {b : Backend} :
    (workers b).Disciplined (fun _ => Licensed) fun _ _ _ _ => True := by
  intro _ a
  cases a with
  | heartbeat req => exact obeys_map (heartbeat_licensed req)
  | register req fresh =>
    have h := register_licensed req fresh
    change Obeys _ _ (Outcome.registered <$> registerWorker req fresh) []
    -- the program is left closed
    generalize registerWorker req fresh = program at h ⊢
    exact obeys_map h
  | scan config => exact obeys_map (scan_licensed config)

end Programs

/-- Whoever writes a row back finds the last heartbeat that he has read or, to register a worker, one
from before his own look at the clock; and nobody has begun to drain the worker in between. -/
def current (a : Activity) (h : Past) (stored : WorkerRow) : Bool :=
  (match a with
    | .register _ _ => (lastClock h).all fun now => stored.lastSeen.all fun t => t ≤ now
    | _ => (copies stored.key h).all fun read => read.lastSeen = stored.lastSeen) &&
  (stored.status ≠ .draining || (copies stored.key h).all fun read => read.status = .draining)

def untouched (c : WorkersConfig) : WorkersAction → Bool
  | .run i _ =>
    match c.threads[i]? with
    | some ⟨_, a, .call (.upsertWorker row) _⟩ =>
      (c.state.workers.get row.key).all fun stored => current a (history c.log i) stored
    | _ => true
  | _ => true

/-- No time of a row lies ahead. -/
def WorkerRow.heardBy (now : ℤ) (r : WorkerRow) : Prop := ∀ t ∈ r.lastSeen, t ≤ now

structure Start (c : WorkersConfig) : Prop where
  fresh : Fresh c
  heard : ∀ id r, c.state.workers.get id = some r → r.heardBy c.state.now

/-- Neither in the table nor in what has been read. -/
structure Timely (c : WorkersConfig) : Prop where
  heard : ∀ id r, c.state.workers.get id = some r → r.heardBy c.state.now
  read : ∀ k ∈ c.log, ∀ r ∈ k.op.rows k.resp, r.heardBy c.state.now
  clock : ∀ k ∈ c.log, ∀ now, k.entry = ⟨.utcNow, now⟩ → now ≤ c.state.now

section Times

variable {b : Backend} {c₀ c c' : WorkersConfig} {i : ℕ} {rank : WorkerId → ℕ} {op : Op}
  {x : WorkersAction} {r row : WorkerRow}

theorem WorkerRow.heardBy.later {s t : ℤ} (h : r.heardBy s) (hst : s ≤ t) : r.heardBy t := by
  intro u hu
  have := h u hu
  omega

theorem ran_effect (r : (workers b).Ran c c' i rank op) :
    r.resp = (op.effect b rank c.state).1 ∧ c'.state = (op.effect b rank c.state).2 := by
  have hdone := r.done
  simp only [workers, Option.some.injEq] at hdone
  rw [hdone]
  exact ⟨rfl, rfl⟩

theorem rows_stored {w : World} (h : r ∈ op.rows (op.effect b rank w).1) :
    ∃ id, w.workers.get id = some r := by
  have mem (hr : r ∈ w.workers.rows) : ∃ id, w.workers.get id = some r :=
    ⟨r.key, Keyed.get_of_mem hr⟩
  cases op with
  | getWorker id => exact ⟨id, Option.mem_toList.mp h⟩
  | getWorkerByName name =>
    apply mem
    exact mem_inOrder.mp (List.mem_of_find?_eq_some (Option.mem_toList.mp h))
  | listWorkers filter =>
    apply mem
    have hpage := List.mem_of_mem_drop (List.mem_of_mem_take h)
    exact mem_inOrder.mp (List.mem_filter.mp (mem_newestFirst.mp hpage)).1
  | _ => cases h

/-- What is written back is as old as what was read. -/
theorem written_heard (h : Timely c) {a : Activity} (hw : Writes a (history c.log i) row) :
    row.heardBy c.state.now := by
  have read {copy : WorkerRow} (hc : copy ∈ copies row.key (history c.log i)) :
      copy.heardBy c.state.now := by
    obtain ⟨⟨e, he, hr⟩, -⟩ := mem_copies.mp hc
    obtain ⟨k, hk, -, rfl⟩ := mem_history.mp he
    exact h.read k hk copy hr
  cases a with
  | heartbeat req =>
    obtain ⟨-, copy, hc, he⟩ := hw
    have hcopy := read hc
    rw [he]
    exact hcopy
  | scan config =>
    obtain ⟨⟨copy, hc, he⟩, -⟩ := hw
    have hcopy := read hc
    rw [he]
    exact hcopy
  | register req fresh =>
    obtain ⟨now, hc, hseen⟩ := hw
    obtain ⟨k, hk, -, he⟩ := mem_history.mp (lastClock_mem hc)
    intro t ht
    rw [hseen] at ht
    cases ht
    exact h.clock k hk now he

theorem timely_run (h₀ : Fresh c₀) (hr : (workers b).Reaches always c₀ c)
    (r : (workers b).Ran c c' i rank op) (h : Timely c) : Timely c' := by
  obtain ⟨hresp, hstate⟩ := ran_effect r
  have hnow : c'.state.now = c.state.now := by rw [hstate, effect_now]
  constructor
  · intro id row hrow
    rw [hnow]
    rw [hstate] at hrow
    rcases @effect_get b rank op c.state id with hsame | ⟨n, -, hbeat⟩ | ⟨-, hbump⟩ |
      ⟨new, rfl, -, hput⟩
    · rw [hsame] at hrow
      exact h.heard id row hrow
    · rw [hbeat] at hrow
      obtain ⟨old, -, rfl⟩ := Option.map_eq_some_iff.mp hrow
      intro t ht
      cases ht
      exact le_refl _
    · rw [hbump] at hrow
      obtain ⟨old, hold, rfl⟩ := Option.map_eq_some_iff.mp hrow
      exact h.heard id old hold
    · rw [hput] at hrow
      cases hrow
      intro t ht
      rw [lastSeen_upserted] at ht
      exact written_heard h (r.licensed workers_disciplined h₀ hr) t ht
  · intro k hk row hrow
    rw [hnow]
    rw [r.log, List.mem_cons] at hk
    rcases hk with rfl | hk
    · rw [hresp] at hrow
      obtain ⟨id, hid⟩ := rows_stored hrow
      exact h.heard id row hid
    · exact h.read k hk row hrow
  · intro k hk now he
    rw [hnow]
    rw [r.log, List.mem_cons] at hk
    rcases hk with rfl | hk
    · cases op with
      | utcNow =>
        cases he
        rw [hresp]
        exact le_refl _
      | _ => cases he
    · exact h.clock k hk now he

theorem timely_env {e : Disturbance} (hs : (workers b).step c (.env e) = some c')
    (h : Timely c) : Timely c' := by
  obtain ⟨hd, -, hlog⟩ := step_env hs
  simp only [workers, Option.some.injEq] at hd
  cases e with
  | pass seconds =>
    have hle : c.state.now ≤ c'.state.now := by
      rw [← hd]
      change c.state.now ≤ c.state.now + seconds
      omega
    constructor
    · intro id r hr
      rw [← hd] at hr
      exact (h.heard id r hr).later hle
    · intro k hk r hr
      rw [hlog] at hk
      exact (h.read k hk r hr).later hle
    · intro k hk now he
      rw [hlog] at hk
      exact le_trans (h.clock k hk now he) hle
  | edit f =>
    have hnow : c'.state.now = c.state.now := by rw [← hd]; rfl
    constructor
    · intro id r hr
      rw [← hd, get_edit] at hr
      obtain ⟨old, hold, rfl⟩ := Option.map_eq_some_iff.mp hr
      rw [hnow]
      exact h.heard id old hold
    · intro k hk r hr
      rw [hlog] at hk
      rw [hnow]
      exact h.read k hk r hr
    · intro k hk now he
      rw [hlog] at hk
      rw [hnow]
      exact h.clock k hk now he

theorem reached_timely (h₀ : Start c₀) (hr : (workers b).Reaches always c₀ c) : Timely c := by
  apply hr.invariant (P := Timely)
  · refine ⟨h₀.heard, ?_, ?_⟩
    all_goals
      intro k hk
      rw [h₀.fresh.log] at hk
      cases hk
  · intro c x c' hr _ hs hc
    cases x with
    | start p a =>
      obtain ⟨ha, -, hlog⟩ := step_start hs
      simp only [workers, Option.some.injEq] at ha
      refine ⟨?_, ?_, ?_⟩
      · rw [← ha]
        exact hc.heard
      · rw [hlog, ← ha]
        exact hc.read
      · rw [hlog, ← ha]
        exact hc.clock
    | env e => exact timely_env hs hc
    | run i rank =>
      obtain ⟨op, ⟨r⟩⟩ := step_run hs
      exact timely_run h₀.fresh hr r hc

end Times

/-- The one time is known, and not later than the other. -/
def upTo (s t : Option ℤ) : Prop := ∀ x ∈ s, ∃ y ∈ t, x ≤ y

section Runs

variable {b : Backend} {c₀ c c' : WorkersConfig} {i : ℕ} {rank : WorkerId → ℕ} {op : Op}
  {x : WorkersAction} {id : WorkerId} {r row : WorkerRow}

theorem upTo_refl (s : Option ℤ) : upTo s s := fun x hx => ⟨x, hx, le_refl _⟩

theorem upTo_trans {s t u : Option ℤ} (hst : upTo s t) (htu : upTo t u) : upTo s u := by
  intro x hx
  obtain ⟨y, hy, hxy⟩ := hst x hx
  obtain ⟨z, hz, hyz⟩ := htu y hy
  exact ⟨z, hz, le_trans hxy hyz⟩

/-- What the condition says of a step that writes a row back. -/
theorem untouched_current (ran : (workers b).Ran c c' i rank (.upsertWorker row))
    (hx : untouched c (.run i rank) = true) (hid : c.state.workers.get row.key = some r) :
    current ran.act (history c.log i) r = true := by
  simp only [untouched, ran.was, hid, Option.all_some] at hx
  exact hx

theorem read_last {a : Activity} {h : Past} {read : WorkerRow} (hc : current a h r = true) (hr : read ∈ copies r.key h)
    (ha : ∀ req fresh, a ≠ .register req fresh) : read.lastSeen = r.lastSeen := by
  simp only [current, Bool.and_eq_true] at hc
  cases a with
  | register req fresh => exact absurd rfl (ha req fresh)
  | heartbeat req => simpa using List.all_eq_true.mp hc.1 read hr
  | scan config => simpa using List.all_eq_true.mp hc.1 read hr

theorem read_draining {a : Activity} {h : Past} {read : WorkerRow}
    (hc : current a h r = true) (hs : r.status = .draining)
    (hr : read ∈ copies r.key h) : read.status = .draining := by
  simp only [current, Bool.and_eq_true, hs] at hc
  simpa using List.all_eq_true.mp hc.2 read hr

/-- The row written is of no earlier heartbeat than the stored one. -/
theorem written_later {a : Activity} {h : Past} (hw : Writes a h row) (hkey : row.key = r.key)
    (hc : current a h r = true) : upTo r.lastSeen row.lastSeen := by
  have same {read : WorkerRow} {s : WorkerStatus} (hr : read ∈ copies row.key h)
      (he : row = read.withStatus s) (ha : ∀ req fresh, a ≠ .register req fresh) :
      upTo r.lastSeen row.lastSeen := by
    rw [hkey] at hr
    have hseen : row.lastSeen = read.lastSeen := by rw [he]; rfl
    rw [hseen, read_last hc hr ha]
    exact upTo_refl _
  cases a with
  | heartbeat req =>
    obtain ⟨-, read, hr, he⟩ := hw
    exact same hr he nofun
  | scan config =>
    obtain ⟨⟨read, hr, he⟩, -⟩ := hw
    exact same hr he nofun
  | register req fresh =>
    obtain ⟨now, hclock, hseen⟩ := hw
    simp only [current, hclock, Option.all_some, Bool.and_eq_true] at hc
    intro t ht
    refine ⟨now, hseen, ?_⟩
    have hle := hc.1
    rw [ht] at hle
    simpa using hle

/-- The row of a worker stays, and its last heartbeat does not move backwards. -/
theorem step_seen (h₀ : Start c₀) (hr : (workers b).Reaches always c₀ c)
    (hx : untouched c x = true) (hs : (workers b).step c x = some c')
    (hid : c.state.workers.get id = some r) :
    ∃ r', c'.state.workers.get id = some r' ∧ upTo r.lastSeen r'.lastSeen := by
  cases x with
  | start p a =>
    have ha := (step_start hs).1
    simp only [workers, Option.some.injEq] at ha
    rw [← ha]
    exact ⟨r, hid, upTo_refl _⟩
  | env e =>
    have hd := (step_env hs).1
    simp only [workers, Option.some.injEq] at hd
    rw [← hd]
    cases e with
    | pass seconds => exact ⟨r, hid, upTo_refl _⟩
    | edit f =>
      rw [get_edit, hid]
      exact ⟨_, rfl, upTo_refl _⟩
  | run i rank =>
    obtain ⟨op, ⟨ran⟩⟩ := step_run hs
    obtain ⟨-, hstate⟩ := ran_effect ran
    rw [hstate]
    rcases @effect_get b rank op c.state id with hsame | ⟨n, -, hbeat⟩ | ⟨-, hbump⟩ |
      ⟨row, rfl, hkey, hput⟩
    · exact ⟨r, hsame.trans hid, upTo_refl _⟩
    · rw [hbeat, hid]
      refine ⟨_, rfl, fun t ht => ⟨c.state.now, rfl, ?_⟩⟩
      exact (reached_timely h₀ hr).heard id r hid t ht
    · rw [hbump, hid]
      exact ⟨_, rfl, upTo_refl _⟩
    · rw [hput]
      refine ⟨_, rfl, ?_⟩
      rw [lastSeen_upserted]
      have hrkey : r.key = id := Keyed.get_key hid
      apply written_later (ran.licensed workers_disciplined h₀.fresh hr) (hkey.trans hrkey.symm)
      exact untouched_current ran hx (hkey ▸ hid)

theorem run_seen (h₀ : Start c₀) (hr : (workers b).Reaches always c₀ c)
    (h : (workers b).Reaches (fun c x => untouched c x = true) c c')
    (hid : c.state.workers.get id = some r) :
    ∃ r', c'.state.workers.get id = some r' ∧ upTo r.lastSeen r'.lastSeen := by
  induction h with
  | refl => exact ⟨r, hid, upTo_refl _⟩
  | tail x h₁ hx hs ih =>
    obtain ⟨r₁, hid₁, hle₁⟩ := ih
    obtain ⟨r₂, hid₂, hle₂⟩ := step_seen h₀ (hr.trans h₁.any) hx hs hid₁
    exact ⟨r₂, hid₂, upTo_trans hle₁ hle₂⟩

/-- Only a call that has read the worker as draining ends that. -/
theorem step_draining (hx : untouched c x = true) (hs : (workers b).step c x = some c')
    (hid : c.state.workers.get id = some r) (hd : r.status = .draining) {r' : WorkerRow}
    (hid' : c'.state.workers.get id = some r') (hd' : r'.status ≠ .draining) :
    ∃ i rank, x = .run i rank ∧
      ∀ read ∈ copies id (history c.log i), read.status = .draining := by
  have kept (hsame : r'.status = r.status) : False := hd' (hsame.trans hd)
  cases x with
  | start p a =>
    have ha := (step_start hs).1
    simp only [workers, Option.some.injEq] at ha
    rw [← ha, hid] at hid'
    cases hid'
    exact (kept rfl).elim
  | env e =>
    have he := (step_env hs).1
    simp only [workers, Option.some.injEq] at he
    rw [← he] at hid'
    cases e with
    | pass seconds =>
      rw [show (disturb (.pass seconds) c.state).workers.get id = some r from hid] at hid'
      cases hid'
      exact (kept rfl).elim
    | edit f =>
      rw [get_edit, hid] at hid'
      cases hid'
      apply (kept ?_).elim
      simp only [WorkerRow.edited, hd]
      split <;> rfl
  | run i rank =>
    obtain ⟨op, ⟨ran⟩⟩ := step_run hs
    obtain ⟨-, hstate⟩ := ran_effect ran
    rw [hstate] at hid'
    rcases @effect_get b rank op c.state id with hsame | ⟨n, -, hbeat⟩ | ⟨-, hbump⟩ |
      ⟨row, rfl, hkey, hput⟩
    · rw [hsame, hid] at hid'
      cases hid'
      exact (kept rfl).elim
    · rw [hbeat, hid] at hid'
      cases hid'
      exact (kept rfl).elim
    · rw [hbump, hid] at hid'
      cases hid'
      exact (kept rfl).elim
    · refine ⟨i, rank, rfl, fun read hread => ?_⟩
      have hrkey : r.key = id := Keyed.get_key hid
      have hc := untouched_current ran hx (hkey ▸ hid)
      exact read_draining hc hd (hrkey ▸ hread)

/-- A scan sets no worker offline that has been heard of within the grace period. -/
theorem scan_silent (h₀ : Start c₀) (hr : (workers b).Reaches always c₀ c)
    (hx : untouched c (.run i rank) = true) (ran : (workers b).Ran c c' i rank (.upsertWorker row))
    {config : HealthConfig} (ha : ran.act = .scan config) {t : ℤ}
    (hid : c.state.workers.get row.key = some r) (ht : upTo (some t) r.lastSeen) :
    config.graceDuration < c.state.now - t := by
  have hw : Writes ran.act (history c.log i) row := ran.licensed workers_disciplined h₀.fresh hr
  have hc := untouched_current ran hx hid
  rw [ha] at hw hc
  obtain ⟨⟨read, hread, he⟩, now, hclock, hexpired⟩ := hw
  have hrkey : r.key = row.key := Keyed.get_key hid
  have hseen : row.lastSeen = r.lastSeen := by
    rw [← read_last hc (hrkey ▸ hread) nofun, he]
    rfl
  obtain ⟨k, hk, -, hentry⟩ := mem_history.mp (lastClock_mem hclock)
  have hnow := (reached_timely h₀ hr).clock k hk now hentry
  obtain ⟨y, hy, hty⟩ := ht t rfl
  have hy' : r.lastSeen = some y := hy
  simp only [WorkerRow.expired, hseen, hy', Option.any_some, Bool.and_eq_true,
    decide_eq_true_eq] at hexpired
  obtain ⟨-, hlate⟩ := hexpired
  have hnow' : (now : ℤ) ≤ c.state.now := hnow
  have hlate' : config.graceDuration < (now : ℤ) - y := hlate
  generalize (now : ℤ) = n at hnow' hlate'
  omega

theorem heard_after {n : ℕ} (ran : (workers b).Ran c c' i rank (.updateWorkerHeartbeat id n))
    (hok : ran.resp = .ok ()) :
    ∃ r, c'.state.workers.get id = some r ∧ r.lastSeen = some c.state.now := by
  obtain ⟨hresp, hstate⟩ := ran_effect ran
  rw [hok] at hresp
  rw [hstate]
  simp only [Op.effect] at hresp ⊢
  by_cases hin : c.state.workers.contains id = true
  · rw [Keyed.contains_eq, Option.isSome_iff_exists] at hin
    obtain ⟨old, hold⟩ := hin
    have hin : c.state.workers.contains id = true := by rw [Keyed.contains_eq, hold]; rfl
    rw [if_pos hin]
    refine ⟨old.beaten c.state.now n, ?_, rfl⟩
    rw [Keyed.get_modify_self, hold]
    rfl
  · rw [if_neg hin] at hresp
    cases hresp

/-- In every run in which rows are written back only while nobody else has been at them, a worker's
last heartbeat never moves backwards, a draining worker is let go only by a call that has read it
as draining, and a scan takes nobody offline who has been heard of within the grace period. -/
theorem worker_rows_kept (h₀ : Start c₀)
    (h : (workers b).Reaches (fun c x => untouched c x = true) c₀ c)
    (hx : untouched c x = true) (hs : (workers b).step c x = some c') :
    (∀ id r, c.state.workers.get id = some r →
      ∃ r', c'.state.workers.get id = some r' ∧ upTo r.lastSeen r'.lastSeen) ∧
    (∀ id r r', c.state.workers.get id = some r → c'.state.workers.get id = some r' →
      r.status = .draining → r'.status ≠ .draining →
        ∃ i rank, x = .run i rank ∧
          ∀ read ∈ copies id (history c.log i), read.status = .draining) ∧
    ∀ i rank row config (ran : (workers b).Ran c c' i rank (.upsertWorker row)),
      x = .run i rank → ran.act = .scan config →
        ∀ c₁ c₂ j rank' n (beat : (workers b).Ran c₁ c₂ j rank' (.updateWorkerHeartbeat row.key n)),
          beat.resp = .ok () →
          (workers b).Reaches (fun c x => untouched c x = true) c₀ c₂ →
          (workers b).Reaches (fun c x => untouched c x = true) c₂ c →
            config.graceDuration < c.state.now - c₁.state.now := by
  refine ⟨fun id r hid => step_seen h₀ h.any hx hs hid, ?_, ?_⟩
  · intro id r r' hid hid' hd hd'
    exact step_draining hx hs hid hd hid' hd'
  · rintro i rank row config ran rfl ha c₁ c₂ j rank' n beat hok h₂ h₂c
    obtain ⟨r₂, hid₂, hseen₂⟩ := heard_after beat hok
    obtain ⟨r, hid, hle⟩ := run_seen h₀ h₂.any h₂c hid₂
    rw [hseen₂] at hle
    exact scan_silent h₀ h.any hx ran ha hid hle

end Runs

section Examples

/-- Both were heard of at the start. -/
def worker (uuid : ℕ) (name : String) : WorkerRow :=
  { id := ⟨uuid⟩, name, lastSeen := some 0, registeredAt := 0, incarnationStartedAt := 0 }

def twoWorkers : WorkersConfig :=
  ⟨⟨(Keyed.empty.put (worker 1 "a")).put (worker 2 "b"), 0, []⟩, [], []⟩

def runs (i n : ℕ) : List WorkersAction := List.replicate n (.run i fun id => id.uuid)

/-- One worker sends a heartbeat; when the scan comes the other one has been silent for too long. -/
def beatThenScan : List WorkersAction :=
  [.env (.pass 30), .start () (.heartbeat { workerId := ⟨1⟩ })] ++ runs 0 2 ++
    [.env (.pass 30), .start () (.scan {})] ++ runs 1 4

theorem silent_worker_offline :
    let c' := (workers .pg).after twoWorkers (beatThenScan ++ runs 1 1)
    (c'.state.workers.get ⟨2⟩).map (fun r => r.status) = some .offline ∧
      ∃ r', c'.state.workers.get ⟨1⟩ = some r' ∧ upTo (some 30) r'.lastSeen := by
  have hstart : Start twoWorkers := by
    refine ⟨⟨rfl, rfl⟩, fun id r hid t ht => ?_⟩
    have hrow : r.lastSeen = some 0 := by
      rcases List.mem_append.mp (Keyed.get_eq_some.mp hid).1 with hm | hm
      · rcases List.mem_append.mp (List.mem_filter.mp hm).1 with hm | hm
        · cases (List.mem_filter.mp hm).1
        · rw [List.mem_singleton.mp hm]
          rfl
      · rw [List.mem_singleton.mp hm]
        rfl
    rw [hrow] at ht
    cases ht
    exact le_refl _
  have hreach : (workers .pg).replayWhile untouched twoWorkers beatThenScan =
      some ((workers .pg).after twoWorkers beatThenScan) := rfl
  refine ⟨rfl, ?_⟩
  exact (worker_rows_kept hstart (replayWhile_reaches hreach)
    (x := .run 1 fun id => id.uuid) rfl rfl).1 ⟨1⟩ _ rfl

/-- A heartbeat that changes the status takes back the time that it has just recorded. -/
def unhealthyBeat : List WorkersAction :=
  [.env (.pass 30), .start () (.heartbeat { workerId := ⟨1⟩, agentHealthy := false })] ++ runs 0 2

theorem heartbeat_taken_back : ∃ c c' : WorkersConfig,
    (workers .pg).Reaches always twoWorkers c ∧
      (workers .pg).step c (.run 0 fun id => id.uuid) = some c' ∧
      (c.state.workers.get ⟨1⟩).bind (fun r => r.lastSeen) = some 30 ∧
      (c'.state.workers.get ⟨1⟩).bind (fun r => r.lastSeen) = some 0 :=
  ⟨(workers .pg).after twoWorkers unhealthyBeat,
    (workers .pg).after twoWorkers (unhealthyBeat ++ runs 0 1), after_reaches _, rfl, rfl, rfl⟩

end Examples

end FleetOrchestrator.Health
