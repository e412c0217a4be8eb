import FleetOrchestrator.Store.Submissions

/-! What every client of the store can rely on, whatever the others do between its statements. -/

namespace FleetOrchestrator.Store

open Core Tables Interleaving Machine Prog

section Scopes

variable {s s' : StoreState} {t t' a a' b b' : Task}

theorem sameScope_iff : sameScope t a = true ↔
    a.createdBy = t.createdBy ∧ a.idempotencyKey = t.idempotencyKey ∧ t.idempotencyKey ≠ none := by
  cases hk : t.idempotencyKey <;> simp [sameScope, sameKey, hk]

theorem sameScope_stamp (ha : stamp a' = stamp a) (hb : stamp b' = stamp b) :
    sameScope a' b' = sameScope a b := by
  simp only [stamp, Prod.mk.injEq] at ha hb
  rw [Bool.eq_iff_iff, sameScope_iff, sameScope_iff, ha.2.1, ha.2.2.1, hb.2.1, hb.2.2.1]

theorem sameScope_symm (h : sameScope a b = true) : sameScope b a = true := by
  obtain ⟨hc, hk, hn⟩ := sameScope_iff.mp h
  exact sameScope_iff.mpr ⟨hc.symm, hk.symm, hk ▸ hn⟩

/-- No row of `s'` carries a stamp that `s` does not have. -/
def NoNewStamp (s s' : StoreState) : Prop :=
  ∀ a' ∈ s'.tasks.rows, ∃ a ∈ s.tasks.rows, stamp a' = stamp a

theorem NoNewStamp.refl (s : StoreState) : NoNewStamp s s := fun a ha => ⟨a, ha, rfl⟩

theorem KeysUnique.of_noNewStamp (h : KeysUnique s) (hs : NoNewStamp s s') : KeysUnique s' := by
  intro a' ha' b' hb' hab
  obtain ⟨a, ha, hsa⟩ := hs a' ha'
  obtain ⟨b, hb, hsb⟩ := hs b' hb'
  rw [sameScope_stamp hsa hsb] at hab
  have he : stamp a' = stamp b' := by rw [hsa, hsb, h a ha b hb hab]
  exact List.inj_on_of_nodup_map s'.tasks.nodup ha' hb' (congrArg Prod.fst he)

theorem KeysUnique.withTask (h : KeysUnique s) (hn : ∀ a ∈ s.tasks.rows, sameScope t a = false) :
    KeysUnique (withTask s t) := by
  have row (a : Task) (ha : a ∈ (Store.withTask s t).tasks.rows) : a = t ∨ a ∈ s.tasks.rows := by
    rcases List.mem_append.mp ha with ha | ha
    · exact .inr (List.mem_of_mem_filter ha)
    · exact .inl (List.mem_singleton.mp ha)
  intro a ha b hb hab
  have hab' := sameScope_symm hab
  rcases row a ha with rfl | ha₁ <;> rcases row b hb with rfl | hb₁
  · rfl
  · rw [hn b hb₁] at hab
    cases hab
  · rw [hn a ha₁] at hab'
    cases hab'
  · exact h a ha₁ b hb₁ hab

theorem noNewStamp_erase (id : TaskId) :
    NoNewStamp s { s with tasks := s.tasks.erase id } :=
  fun a ha => ⟨a, List.mem_of_mem_filter ha, rfl⟩

theorem noNewStamp_orphan (id : TaskId) : NoNewStamp s (MemStore.orphanChildren s id) := by
  intro a' ha'
  obtain ⟨a, ha, rfl⟩ := List.mem_map.mp ha'
  refine ⟨a, ha, ?_⟩
  simp only [if_pos]
  unfold dropParent
  split <;> rfl

/-- No row has the creator and the key of the task. -/
def Unclaimed (s : StoreState) (t : Task) : Prop := ∀ a ∈ s.tasks.rows, sameScope t a = false

theorem unclaimed_of_no_key (h : t.idempotencyKey = none) : Unclaimed s t := by
  intro a _
  simp [sameScope, h]

theorem any_sameScope : s.tasks.rows.any (sameScope t) = false ↔ Unclaimed s t := by
  simp [Unclaimed]

theorem Unclaimed.stamp (h : Unclaimed s t) (ht : Store.stamp t' = Store.stamp t) :
    Unclaimed s t' := by
  intro a ha
  rw [sameScope_stamp ht rfl]
  exact h a ha

/-- The verdict on a task whose creator and key a row has. -/
def Judged (s : StoreState) (t : Task) : IdempotentInsert → Prop
  | .inserted => False
  | .duplicate existing => existing ∈ s.tasks.rows ∧ sameScope t existing = true ∧
      existing.idempotencyPayloadHash = t.idempotencyPayloadHash
  | .conflict id => ∃ existing ∈ s.tasks.rows, existing.id = id ∧ sameScope t existing = true ∧
      existing.idempotencyPayloadHash ≠ t.idempotencyPayloadHash

theorem judged_existing (ha : a ∈ s.tasks.rows) (hs : sameScope t a = true) :
    Judged s t (judgeExisting t a) := by
  unfold judgeExisting
  split
  · next hh => exact ⟨ha, hs, hh⟩
  · next hh => exact ⟨a, ha, rfl, hs, hh⟩

theorem Judged.claimed {o : IdempotentInsert} (h : Judged s t o) : ¬ Unclaimed s t := by
  intro hn
  cases o with
  | inserted => exact h
  | duplicate existing =>
    obtain ⟨he, hs, -⟩ := h
    rw [hn existing he] at hs
    cases hs
  | conflict id =>
    obtain ⟨existing, he, -, hs, -⟩ := h
    rw [hn existing he] at hs
    cases hs

/-- What the schema does not admit, apart from its unique indexes. -/
def Refused (s : StoreState) (t : Task) : Prop :=
  PgStore.pairComplete t = false ∨ PgStore.parentExists s t = false ∨
    PgStore.agentExists s t = false

end Scopes

section Statements

variable {s : StoreState} {rank : TaskId → ℕ} {t : Task}

theorem find_scope (s : StoreState) (rank : TaskId → ℕ) {key : String} (hk : t.idempotencyKey = some key) :
    (∃ a, (inOrder rank Task.id s.tasks.rows).find? (sameKey t key) = some a ∧
      a ∈ s.tasks.rows ∧ sameScope t a = true) ∨
    (inOrder rank Task.id s.tasks.rows).find? (sameKey t key) = none ∧ Unclaimed s t := by
  have hscope (a : Task) : sameScope t a = sameKey t key a := by simp [sameScope, hk]
  cases hf : (inOrder rank Task.id s.tasks.rows).find? (sameKey t key) with
  | some a =>
    refine .inl ⟨a, rfl, mem_inOrder.mp (List.mem_of_find?_eq_some hf), ?_⟩
    rw [hscope]
    exact List.find?_some hf
  | none =>
    refine .inr ⟨rfl, ?_⟩
    intro a ha
    have hn := List.find?_eq_none.mp hf a (mem_inOrder.mpr ha)
    rw [hscope]
    simpa using hn

/-- The answers under one lock. -/
theorem insertLocked_cases (s : StoreState) (rank : TaskId → ℕ) (t : Task) :
    (Unclaimed s t ∧ s.tasks.get t.id = none ∧
      MemStore.insertTaskIdempotent s rank t = (.ok .inserted, withTask s t)) ∨
    (∃ o, Judged s t o ∧ MemStore.insertTaskIdempotent s rank t = (.ok o, s)) ∨
    s.tasks.contains t.id = true ∧
      MemStore.insertTaskIdempotent s rank t = (.error (taskAlreadyExists t.id), s) := by
  unfold MemStore.insertTaskIdempotent
  by_cases hc : s.tasks.contains t.id = true
  · exact .inr (.inr ⟨hc, if_pos hc⟩)
  · have hfree : s.tasks.get t.id = none := by simpa [Keyed.contains_eq] using hc
    rw [if_neg hc]
    cases hk : t.idempotencyKey with
    | none => exact .inl ⟨unclaimed_of_no_key hk, hfree, rfl⟩
    | some key =>
      rcases find_scope s rank hk with ⟨a, hf, ha, hs⟩ | ⟨hf, hn⟩
      · refine .inr (.inl ⟨judgeExisting t a, judged_existing ha hs, ?_⟩)
        simp only [hf]
      · refine .inl ⟨hn, hfree, ?_⟩
        simp only [hf]

/-- The answers of the insertion statement. -/
theorem insertTaskRow_cases (s : StoreState) (t : Task) (doNothing : Bool) :
    (Unclaimed s t ∧ s.tasks.get t.id = none ∧
      PgStore.insertTaskRow s t doNothing = (.ok 1, withTask s (PgStore.insertedRow t))) ∨
    (¬ Unclaimed s t ∧ PgStore.insertTaskRow s t doNothing = (.ok 0, s)) ∨
    (s.tasks.contains t.id = true ∨ Refused s t ∨ doNothing = false ∧ ¬ Unclaimed s t) ∧
      ∃ e, PgStore.insertTaskRow s t doNothing = (.error e, s) := by
  have claimed (ha : s.tasks.rows.any (sameScope t) = true) : ¬ Unclaimed s t := by
    rw [← any_sameScope, ha]
    exact Bool.noConfusion
  unfold PgStore.insertTaskRow
  cases hp : PgStore.pairComplete t with
  | false => exact .inr (.inr ⟨.inr (.inl (.inl hp)), _, rfl⟩)
  | true =>
    cases ha : s.tasks.rows.any (sameScope t) with
    | true =>
      cases doNothing with
      | true => exact .inr (.inl ⟨claimed ha, rfl⟩)
      | false =>
        refine .inr (.inr ⟨.inr (.inr ⟨rfl, claimed ha⟩), ?_⟩)
        cases s.tasks.contains t.id <;> exact ⟨_, rfl⟩
    | false =>
      simp only [Bool.and_false, Bool.not_true, Bool.false_eq_true, if_false]
      cases hc : s.tasks.contains t.id with
      | true => exact .inr (.inr ⟨.inl rfl, _, rfl⟩)
      | false =>
        cases hf : PgStore.parentExists s t with
        | false => exact .inr (.inr ⟨.inr (.inl (.inr (.inl hf))), _, rfl⟩)
        | true =>
          cases hg : PgStore.agentExists s t with
          | false => exact .inr (.inr ⟨.inr (.inl (.inr (.inr hg))), _, rfl⟩)
          | true =>
            refine .inl ⟨any_sameScope.mp ha, ?_, rfl⟩
            simpa [Keyed.contains_eq] using hc

theorem selectByKey_cases (s : StoreState) (rank : TaskId → ℕ) {key : String} (hk : t.idempotencyKey = some key) :
    (∃ a, selectByKey s rank t.createdBy key = some a ∧ a ∈ s.tasks.rows ∧
      sameScope t a = true) ∨ selectByKey s rank t.createdBy key = none ∧ Unclaimed s t :=
  find_scope s rank hk

theorem noNewStamp_without (id : TaskId) : NoNewStamp s (withoutTask s id) := by
  intro a' ha'
  obtain ⟨a, ha, hs⟩ := noNewStamp_orphan (s := { s with tasks := s.tasks.erase id }) id a' ha'
  exact ⟨a, List.mem_of_mem_filter ha, hs⟩

/-- What one statement can do to the rows. -/
theorem exec_rows (rank : TaskId → ℕ) (op : Statement) (s : StoreState) :
    NoNewStamp s (op.exec rank s).2 ∨
      ∃ t, Unclaimed s t ∧ (op.exec rank s).2 = withTask s t := by
  cases op with
  | insertLocked t =>
    rcases insertLocked_cases s rank t with ⟨hn, -, he⟩ | ⟨o, -, he⟩ | ⟨-, he⟩
    · exact .inr ⟨t, hn, congrArg Prod.snd he⟩
    · exact .inl (congrArg Prod.snd he ▸ .refl s)
    · exact .inl (congrArg Prod.snd he ▸ .refl s)
  | insertTaskRow t doNothing =>
    rcases insertTaskRow_cases s t doNothing with ⟨hn, -, he⟩ | ⟨-, he⟩ | ⟨-, e, he⟩
    · exact .inr ⟨PgStore.insertedRow t, hn.stamp rfl, congrArg Prod.snd he⟩
    · exact .inl (congrArg Prod.snd he ▸ .refl s)
    · exact .inl (congrArg Prod.snd he ▸ .refl s)
  | selectByKey | selectDependents | selectPhase | removeOutputs => exact .inl (.refl s)
  | orphanChildren id => exact .inl (noNewStamp_orphan id)
  | removeLocked id =>
    refine .inl ?_
    simp only [Statement.exec, MemStore.removeLocked]
    cases s.tasks.get id with
    | none => exact .refl s
    | some t =>
      dsimp only
      split
      · exact .refl s
      · exact noNewStamp_erase id
  | deleteTerminal id =>
    refine .inl ?_
    simp only [Statement.exec, PgStore.deleteTerminal]
    cases s.tasks.get id with
    | none => exact .refl s
    | some t =>
      dsimp only
      split
      · exact noNewStamp_without id
      · exact .refl s

end Statements

section Runs

variable {b : Backend} {cond : ClientConfig → Action ℕ Request (TaskId → ℕ) StoreState → Prop}
  {c₀ c c' : ClientConfig} {x : Action ℕ Request (TaskId → ℕ) StoreState}

theorem ran_exec {i : ℕ} {rank : TaskId → ℕ} {op : Statement}
    (r : (clients b).Ran c c' i rank op) : op.exec rank c.state = (r.resp, c'.state) :=
  Option.some.inj r.done

theorem keysUnique_step (hs : (clients b).step c x = some c') (h : KeysUnique c.state) :
    KeysUnique c'.state := by
  cases x with
  | start p request =>
    have ha : some c.state = some c'.state := (step_start hs).1
    rw [← Option.some.inj ha]
    exact h
  | env s =>
    have hd := (step_env hs).1
    simp only [clients, Option.ite_none_right_eq_some] at hd
    obtain ⟨hst, he⟩ := hd
    cases he
    apply h.of_noNewStamp
    intro a' ha'
    have hm : stamp a' ∈ c.state.tasks.rows.map stamp := hst ▸ List.mem_map_of_mem ha'
    obtain ⟨a, ha, hs⟩ := List.mem_map.mp hm
    exact ⟨a, ha, hs.symm⟩
  | run i rank =>
    obtain ⟨op, ⟨r⟩⟩ := step_run hs
    have he := exec_rows rank op c.state
    rw [ran_exec r] at he
    rcases he with hn | ⟨t, hn, he⟩
    · exact h.of_noNewStamp hn
    · exact (congrArg KeysUnique he).mpr (h.withTask hn)

theorem keysUnique_reaches (h₀ : Start c₀) (h : (clients b).Reaches cond c₀ c) :
    KeysUnique c.state :=
  h.invariant (P := fun c => KeysUnique c.state) h₀.unique
    fun _ _ _ _ _ hs hp => keysUnique_step hs hp

/-- What a finished insertion has done, newest statement first. -/
inductive InsertTrace (t : Task) :
    Backend → Except StoreError IdempotentInsert → List (Entry Statement Statement.Resp) → Prop
  | locked (r : Except StoreError IdempotentInsert) :
    InsertTrace t .mem r [⟨.insertLocked t, r⟩]
  | refused (doNothing : Bool) (e : StoreError)
    (hd : doNothing = false → t.idempotencyKey = none) :
    InsertTrace t .pg (.error e) [⟨.insertTaskRow t doNothing, .error e⟩]
  | inserted (doNothing : Bool) (n : ℕ) (hn : 0 < n ∨ t.idempotencyKey = none) :
    InsertTrace t .pg (.ok .inserted) [⟨.insertTaskRow t doNothing, .ok n⟩]
  | vanished (key : String) (hk : t.idempotencyKey = some key) (e : StoreError) :
    InsertTrace t .pg (.error e)
      [⟨.selectByKey t.createdBy key, none⟩, ⟨.insertTaskRow t true, .ok 0⟩]
  | existing (key : String) (hk : t.idempotencyKey = some key) (a : Task) :
    InsertTrace t .pg (.ok (judgeExisting t a))
      [⟨.selectByKey t.createdBy key, some a⟩, ⟨.insertTaskRow t true, .ok 0⟩]

/-- The statements that an insertion issues, and what comes before each. -/
inductive InsertUses (t : Task) :
    Backend → List (Entry Statement Statement.Resp) → Statement → Prop
  | locked : InsertUses t .mem [] (.insertLocked t)
  | row (doNothing : Bool) (hd : doNothing = false → t.idempotencyKey = none) :
    InsertUses t .pg [] (.insertTaskRow t doNothing)
  | lookup (key : String) (hk : t.idempotencyKey = some key) :
    InsertUses t .pg [⟨.insertTaskRow t true, .ok 0⟩] (.selectByKey t.createdBy key)

def Issues (b : Backend) : Request → List (Entry Statement Statement.Resp) → Statement → Prop
  | .insert t => InsertUses t b
  | .delete _ => fun _ _ => True

def Served (b : Backend) : Request → Reply → List (Entry Statement Statement.Resp) → Prop
  | .insert t, .inserted r, h => InsertTrace t b r h
  | .insert _, .deleted _, _ => False
  | .delete _, .inserted _, _ => False
  | .delete _, .deleted _, _ => True

theorem serveInsert_trace (t : Task) :
    Obeys (InsertUses t .pg) (InsertTrace t .pg) (PgStore.serveInsert t) [] := by
  unfold PgStore.serveInsert
  cases hk : t.idempotencyKey with
  | none =>
    apply obeys_call (.row false fun _ => hk)
    intro r
    cases r with
    | error e => exact .refused false e fun _ => hk
    | ok n => exact .inserted false n (.inr hk)
  | some key =>
    apply obeys_call (.row true fun h => by cases h)
    intro r
    cases r with
    | error e => exact .refused true e fun h => by cases h
    | ok n =>
      change Obeys _ _ (if 0 < n then _ else _) _
      by_cases hn : 0 < n
      · rw [if_pos hn]
        exact .inserted true n (.inl hn)
      · rw [if_neg hn]
        obtain rfl : n = 0 := by omega
        apply obeys_call (.lookup key hk)
        intro row
        cases row with
        | none => exact .vanished key hk _
        | some a => exact .existing key hk a

theorem clients_disciplined (b : Backend) :
    Disciplined (clients b) (fun _ => Issues b) (fun _ => Served b) := by
  intro p request
  cases request with
  | insert t =>
    cases b with
    | mem =>
      apply obeys_map
      exact ⟨.locked, fun r => InsertTrace.locked r⟩
    | pg => exact obeys_map (serveInsert_trace t)
  | delete id =>
    cases b <;> exact obeys_map (obeys_any (fun _ _ => trivial) fun _ _ => trivial)

/-- The outcome of an insertion against the store at its first and at its last statement. -/
def InsertOutcome (b : Backend) (t : Task) (first last : StoreState) :
    Except StoreError IdempotentInsert → Prop
  | .ok .inserted => Unclaimed first t ∧ first.tasks.get t.id = none
  | .ok o => ¬ Unclaimed first t ∧ Judged last t o
  | .error _ => first.tasks.contains t.id = true ∨
      b = .pg ∧ (Refused first t ∨ ¬ Unclaimed first t ∧ Unclaimed last t)

theorem insertOutcome_judged {t : Task} {first last : StoreState} {o : IdempotentInsert}
    (hn : ¬ Unclaimed first t) (ho : Judged last t o) : InsertOutcome b t first last (.ok o) := by
  cases o with
  | inserted => exact absurd ho id
  | duplicate a => exact ⟨hn, ho⟩
  | conflict id => exact ⟨hn, ho⟩

theorem locked_outcome {s s' : StoreState} {rank : TaskId → ℕ} {t : Task}
    {r : Except StoreError IdempotentInsert}
    (he : MemStore.insertTaskIdempotent s rank t = (r, s')) : InsertOutcome b t s s r := by
  rcases insertLocked_cases s rank t with ⟨hn, hf, hi⟩ | ⟨o, ho, hi⟩ | ⟨hid, hi⟩
  · rw [hi] at he
    cases he
    exact ⟨hn, hf⟩
  · rw [hi] at he
    cases he
    exact insertOutcome_judged ho.claimed ho
  · rw [hi] at he
    cases he
    exact .inl hid

theorem inserted_of_row {s s' : StoreState} {t : Task} {doNothing : Bool} {n : ℕ}
    (he : PgStore.insertTaskRow s t doNothing = (.ok n, s')) (hn : 0 < n ∨ Unclaimed s t) :
    Unclaimed s t ∧ s.tasks.get t.id = none ∧ s' = withTask s (PgStore.insertedRow t) := by
  rcases insertTaskRow_cases s t doNothing with ⟨hu, hf, hi⟩ | ⟨hcl, hi⟩ | ⟨-, e, hi⟩
  · rw [hi] at he
    cases he
    exact ⟨hu, hf, rfl⟩
  · rw [hi] at he
    cases he
    rcases hn with hn | hn
    · exact absurd hn (Nat.lt_irrefl 0)
    · exact absurd hn hcl
  · rw [hi] at he
    cases he

theorem claimed_of_row {s s' : StoreState} {t : Task} {doNothing : Bool}
    (he : PgStore.insertTaskRow s t doNothing = (.ok 0, s')) : ¬ Unclaimed s t ∧ s' = s := by
  rcases insertTaskRow_cases s t doNothing with ⟨-, -, hi⟩ | ⟨hcl, hi⟩ | ⟨-, e, hi⟩
  · rw [hi] at he
    cases he
  · rw [hi] at he
    cases he
    exact ⟨hcl, rfl⟩
  · rw [hi] at he
    cases he

theorem refused_of_row {s s' : StoreState} {t : Task} {doNothing : Bool} {e : StoreError}
    (he : PgStore.insertTaskRow s t doNothing = (.error e, s'))
    (hd : doNothing = false → t.idempotencyKey = none) :
    (s.tasks.contains t.id = true ∨ Refused s t) ∧ s' = s := by
  rcases insertTaskRow_cases s t doNothing with ⟨-, -, hi⟩ | ⟨-, hi⟩ | ⟨hwhy, e', hi⟩
  · rw [hi] at he
    cases he
  · rw [hi] at he
    cases he
  · rw [hi] at he
    cases he
    rcases hwhy with hid | href | ⟨hf, hcl⟩
    · exact ⟨.inl hid, rfl⟩
    · exact ⟨.inr href, rfl⟩
    · exact absurd (unclaimed_of_no_key (hd hf)) hcl

/-- A statement in the history of a request was executed by a step of the run. -/
theorem statement_ran (h₀ : Start c₀) (h : (clients b).Reaches cond c₀ c) {i p : ℕ}
    {request : Request} {prog : Client Reply} (ht : c.threads[i]? = some ⟨p, request, prog⟩)
    {e : Entry Statement Statement.Resp} {h' : List (Entry Statement Statement.Resp)}
    (hs : e :: h' <:+ history c.log i) :
    ∃ (c₁ : ClientConfig) (s₂ : StoreState) (rank : TaskId → ℕ),
      (clients b).Reaches cond c₀ c₁ ∧ (clients b).Reaches cond c₁ c ∧
      (∃ prog, c₁.threads[i]? = some ⟨p, request, prog⟩) ∧ history c₁.log i = h' ∧
      e.op.exec rank c₁.state = (e.resp, s₂) := by
  obtain ⟨c₁, c₂, rank, r, hr, hh, h₁, h₁₂, h₂⟩ := h.at_history h₀.fresh hs
  have hc := h₁₂.trans h₂
  obtain ⟨t', ht', hp, ha⟩ := hc.thread r.was
  rw [ht] at ht'
  cases ht'
  change p = r.party at hp
  change request = r.act at ha
  subst hp ha
  exact ⟨c₁, c₂.state, rank, h₁, hc, ⟨_, r.was⟩, hh, hr ▸ ran_exec r⟩

theorem insert_outcome (h₀ : Start c₀) (h : (clients b).Reaches cond c₀ c) {i p : ℕ} {t : Task}
    {r : Except StoreError IdempotentInsert}
    (ht : c.threads[i]? = some ⟨p, .insert t, .ret (.inserted r)⟩) :
    ∃ c₁ c₃, (clients b).Reaches cond c₀ c₁ ∧ (clients b).Reaches cond c₁ c₃ ∧
      (clients b).Reaches cond c₃ c ∧ (∃ prog, c₁.threads[i]? = some ⟨p, .insert t, prog⟩) ∧
      InsertOutcome b t c₁.state c₃.state r := by
  have htrace : InsertTrace t b r (history c.log i) :=
    returned (clients_disciplined b) h₀.fresh h ht
  generalize hh : history c.log i = trace at htrace
  obtain ⟨e, h', rfl⟩ : ∃ e h', trace = e :: h' := by
    cases htrace <;> exact ⟨_, _, rfl⟩
  have hlast : e :: h' <:+ history c.log i := by rw [hh]
  obtain ⟨c₃, s₄, rank, h₃, hc, hthread, hbefore, he⟩ := statement_ran h₀ h ht hlast
  cases htrace with
  | locked => exact ⟨c₃, c₃, h₃, .refl, hc, hthread, locked_outcome he⟩
  | refused doNothing e hd =>
    refine ⟨c₃, c₃, h₃, .refl, hc, hthread, ?_⟩
    rcases (refused_of_row he hd).1 with hid | href
    · exact .inl hid
    · exact .inr ⟨rfl, .inl href⟩
  | inserted doNothing n hn =>
    refine ⟨c₃, c₃, h₃, .refl, hc, hthread, ?_⟩
    obtain ⟨hu, hf, -⟩ := inserted_of_row he (hn.imp_right unclaimed_of_no_key)
    exact ⟨hu, hf⟩
  | vanished key hk e =>
    obtain ⟨prog, hp⟩ := hthread
    have hfirst : [⟨.insertTaskRow t true, .ok 0⟩] <:+ history c₃.log i := by rw [hbefore]
    obtain ⟨c₁, s₂, rank', h₁, h₁₃, hthread, -, hrow⟩ := statement_ran h₀ h₃ hp hfirst
    refine ⟨c₁, c₃, h₁, h₁₃, hc, hthread, .inr ⟨rfl, .inr ⟨(claimed_of_row hrow).1, ?_⟩⟩⟩
    rcases selectByKey_cases c₃.state rank hk with ⟨a, hs, -, -⟩ | ⟨-, hn⟩
    · cases hs.symm.trans (congrArg Prod.fst he)
    · exact hn
  | existing key hk a =>
    obtain ⟨prog, hp⟩ := hthread
    have hfirst : [⟨.insertTaskRow t true, .ok 0⟩] <:+ history c₃.log i := by rw [hbefore]
    obtain ⟨c₁, s₂, rank', h₁, h₁₃, hthread, -, hrow⟩ := statement_ran h₀ h₃ hp hfirst
    refine ⟨c₁, c₃, h₁, h₁₃, hc, hthread, ?_⟩
    rcases selectByKey_cases c₃.state rank hk with ⟨a', hs, ha, hsame⟩ | ⟨hs, -⟩
    · cases hs.symm.trans (congrArg Prod.fst he)
      exact insertOutcome_judged (claimed_of_row hrow).1 (judged_existing ha hsame)
    · cases hs.symm.trans (congrArg Prod.fst he)

theorem answered_locked {t : Task} {prog : Client Reply}
    (h : Obeys (Issues .mem (.insert t)) (Served .mem (.insert t)) prog
      [⟨.insertLocked t, .ok .inserted⟩]) : prog = .ret (.inserted (.ok .inserted)) := by
  cases prog with
  | call op k => cases h.1
  | ret reply =>
    cases reply with
    | deleted r => exact absurd h id
    | inserted r =>
      change InsertTrace t .mem r _ at h
      cases h
      rfl

theorem answered_row {t : Task} {prog : Client Reply} {doNothing : Bool}
    (h : Obeys (Issues .pg (.insert t)) (Served .pg (.insert t)) prog
      [⟨.insertTaskRow t doNothing, .ok 1⟩]) : prog = .ret (.inserted (.ok .inserted)) := by
  cases prog with
  | call op k =>
    have hu : InsertUses t .pg _ op := h.1
    cases hu
  | ret reply =>
    cases reply with
    | deleted r => exact absurd h id
    | inserted r =>
      change InsertTrace t .pg r _ at h
      cases h
      rfl

/-- A statement of an insertion leaves the store as it is, or it inserts the task and is the
last. -/
theorem insert_step (h₀ : Start c₀) (h : (clients b).Reaches cond c₀ c) {i p : ℕ} {t : Task}
    {rank : TaskId → ℕ} {prog : Client Reply} (ht : c.threads[i]? = some ⟨p, .insert t, prog⟩)
    (hs : (clients b).step c (.run i rank) = some c') :
    c'.state = c.state ∨
      c'.threads[i]? = some ⟨p, .insert t, .ret (.inserted (.ok .inserted))⟩ ∧
        c'.state = withTask c.state (b.insertedRow t) := by
  obtain ⟨op, ⟨r⟩⟩ := step_run hs
  obtain ⟨hthread, hhist⟩ := r.after
  have hissues : Issues b r.act (history c.log i) op :=
    r.licensed (clients_disciplined b) h₀.fresh h
  have hobey : Obeys (Issues b r.act) (Served b r.act) (r.cont r.resp) (history c'.log i) :=
    threads_obey (clients_disciplined b) h₀.fresh (h.any.tail _ trivial hs) i _ hthread
  have hexec := ran_exec r
  obtain ⟨hp, ha⟩ : r.party = p ∧ r.act = .insert t := by
    have hwas := r.was
    rw [ht, Option.some.injEq, Thread.mk.injEq] at hwas
    exact ⟨hwas.1.symm, hwas.2.1.symm⟩
  rw [hp, ha] at hthread
  rw [hhist, ha] at hobey
  rw [ha] at hissues
  change InsertUses t b _ op at hissues
  generalize history c.log i = before at hissues hobey
  cases hissues with
  | locked =>
    rcases insertLocked_cases c.state rank t with ⟨-, -, hi⟩ | ⟨o, -, hi⟩ | ⟨-, hi⟩
    · obtain ⟨hr, hst⟩ := Prod.mk.inj (hi.symm.trans hexec)
      rw [← hr] at hobey hthread
      refine .inr ⟨?_, hst.symm⟩
      rw [hthread, answered_locked hobey]
    · exact .inl (Prod.mk.inj (hi.symm.trans hexec)).2.symm
    · exact .inl (Prod.mk.inj (hi.symm.trans hexec)).2.symm
  | row doNothing hd =>
    rcases insertTaskRow_cases c.state t doNothing with ⟨-, -, hi⟩ | ⟨-, hi⟩ | ⟨-, e, hi⟩
    · obtain ⟨hr, hst⟩ := Prod.mk.inj (hi.symm.trans hexec)
      rw [← hr] at hobey hthread
      refine .inr ⟨?_, hst.symm⟩
      rw [hthread, answered_row hobey]
    · exact .inl (Prod.mk.inj (hi.symm.trans hexec)).2.symm
    · exact .inl (Prod.mk.inj (hi.symm.trans hexec)).2.symm
  | lookup key hk => exact .inl (congrArg Prod.snd hexec).symm

end Runs

section Agreement

variable {s : StoreState} {rank : TaskId → ℕ} {t : Task} {id : TaskId}

/-- A submission with a fresh id that the schema admits. -/
def Admissible (s : StoreState) : Request → Prop
  | .insert t => s.tasks.get t.id = none ∧ ¬ Refused s t ∧ PgStore.insertedRow t = t
  | .delete _ => True

theorem serveInsert_agree (hfree : s.tasks.get t.id = none) (href : ¬ Refused s t)
    (hrow : PgStore.insertedRow t = t) :
    (PgStore.serveInsert t).alone (Statement.exec rank) s =
      (MemStore.serveInsert t).alone (Statement.exec rank) s := by
  have hid : s.tasks.contains t.id = false := by simp [Keyed.contains_eq, hfree]
  have free (d : Bool) (hn : Unclaimed s t) :
      PgStore.insertTaskRow s t d = (.ok 1, withTask s t) := by
    rcases insertTaskRow_cases s t d with ⟨-, -, hi⟩ | ⟨hcl, -⟩ | ⟨hin | hno | ⟨-, hcl⟩, -⟩
    · rw [hi, hrow]
    · exact absurd hn hcl
    · rw [hid] at hin
      cases hin
    · exact absurd hno href
    · exact absurd hn hcl
  have taken (hcl : ¬ Unclaimed s t) : PgStore.insertTaskRow s t true = (.ok 0, s) := by
    rcases insertTaskRow_cases s t true with ⟨hn, -⟩ | ⟨-, hi⟩ | ⟨hin | hno | ⟨hd, -⟩, -⟩
    · exact absurd hn hcl
    · exact hi
    · rw [hid] at hin
      cases hin
    · exact absurd hno href
    · cases hd
  change _ = MemStore.insertTaskIdempotent s rank t
  unfold MemStore.insertTaskIdempotent PgStore.serveInsert
  rw [if_neg (by rw [hid]; exact Bool.false_ne_true)]
  cases hk : t.idempotencyKey with
  | none =>
    have hrow := free false (unclaimed_of_no_key hk)
    simp [execute, Prog.alone, Statement.exec, hrow]
  | some key =>
    rcases find_scope s rank hk with ⟨a, hf, ha, hs⟩ | ⟨hf, hn⟩
    · have hcl : ¬ Unclaimed s t := (judged_existing ha hs).claimed
      have hsel : selectByKey s rank t.createdBy key = some a := hf
      simp [execute, Prog.alone, Statement.exec, taken hcl, hsel, hf]
    · simp [execute, Prog.alone, Statement.exec, free true hn, hf]

theorem serveDelete_agree :
    (PgStore.serveDelete id).alone (Statement.exec rank) s =
      (MemStore.serveDelete id).alone (Statement.exec rank) s := by
  unfold PgStore.serveDelete MemStore.serveDelete
  by_cases hd : pendingDependents s rank id = []
  · cases ht : s.tasks.get id with
    | none =>
      simp [execute, Prog.alone, Statement.exec, hd, ht, PgStore.deleteTerminal,
        MemStore.removeLocked]
    | some t =>
      cases hp : t.phase.isTerminal with
      | false =>
        simp [execute, Prog.alone, Statement.exec, hd, ht, hp, PgStore.deleteTerminal,
          MemStore.removeLocked]
      | true =>
        simp [execute, Prog.alone, Statement.exec, hd, ht, hp, PgStore.deleteTerminal,
          MemStore.removeLocked, MemStore.removeOutputs, MemStore.orphanChildren, withoutTask]
  · simp [execute, Prog.alone, Statement.exec, hd]

/-- The requests served one after the other. -/
def serveAll (b : Backend) (rank : TaskId → ℕ) : List Request → StoreState → List Reply × StoreState
  | [], s => ([], s)
  | request :: requests, s =>
    let served := (serve b request).alone (Statement.exec rank) s
    let rest := serveAll b rank requests served.2
    (served.1 :: rest.1, rest.2)

def AllAdmissible (rank : TaskId → ℕ) : List Request → StoreState → Prop
  | [], _ => True
  | request :: requests, s => Admissible s request ∧
      AllAdmissible rank requests ((serve .mem request).alone (Statement.exec rank) s).2

theorem serve_agree {request : Request} (h : Admissible s request) :
    (serve .pg request).alone (Statement.exec rank) s =
      (serve .mem request).alone (Statement.exec rank) s := by
  cases request with
  | insert t =>
    obtain ⟨hfree, href, hrow⟩ := h
    simp only [serve, alone_map, serveInsert_agree hfree href hrow]
  | delete id => simp only [serve, alone_map, serveDelete_agree]

theorem serveAll_agree {requests : List Request} (h : AllAdmissible rank requests s) :
    serveAll .pg rank requests s = serveAll .mem rank requests s := by
  induction requests generalizing s with
  | nil => rfl
  | cons request requests ih =>
    obtain ⟨hfirst, hrest⟩ := h
    simp only [serveAll, serve_agree hfirst, ih hrest]

end Agreement

section Results

/-- Idempotent submission, with the statements of all clients interleaved. The backends agree
whenever they serve admissible requests one after the other. -/
theorem submissions_idempotent {b : Backend} {c₀ c : ClientConfig} (h₀ : Start c₀)
    (h : (clients b).Reaches always c₀ c) :
    KeysUnique c.state ∧
    (∀ (i p : ℕ) (t : Task) (r : Except StoreError IdempotentInsert),
      c.threads[i]? = some ⟨p, .insert t, .ret (.inserted r)⟩ →
        ∃ c₁ c₃, (clients b).Reaches always c₀ c₁ ∧ (clients b).Reaches always c₁ c₃ ∧
          (clients b).Reaches always c₃ c ∧
          (∃ prog : Client Reply, c₁.threads[i]? = some ⟨p, .insert t, prog⟩) ∧
          InsertOutcome b t c₁.state c₃.state r) ∧
    (∀ (i p : ℕ) (t : Task) (prog : Client Reply) (rank : TaskId → ℕ) (c' : ClientConfig),
      c.threads[i]? = some ⟨p, .insert t, prog⟩ →
      (clients b).step c (.run i rank) = some c' →
        c'.state = c.state ∨
          c'.threads[i]? = some ⟨p, .insert t, .ret (.inserted (.ok .inserted))⟩ ∧
            c'.state = withTask c.state (b.insertedRow t)) ∧
    ∀ rank requests, AllAdmissible rank requests c.state →
      serveAll .pg rank requests c.state = serveAll .mem rank requests c.state :=
  ⟨keysUnique_reaches h₀ h, fun _ _ _ _ ht => insert_outcome h₀ h ht,
    fun _ _ _ _ _ _ ht hs => insert_step h₀ h ht hs, fun _ _ ha => serveAll_agree ha⟩

def noClients : ClientConfig := ⟨.empty, [], []⟩

theorem noClients_start : Start noClients :=
  ⟨⟨rfl, rfl⟩, by intro a ha; cases ha⟩

/-- A submission of one client under the key `k`. -/
def keyed (n : ℕ) : Task where
  id := ⟨n⟩
  prompt := "prompt"
  createdAt := 0
  createdBy := "client"
  threadId := ⟨n⟩
  idempotencyKey := some "k"
  idempotencyPayloadHash := some "h"

def keyedCancelled : StoreState :=
  { StoreState.empty with
    tasks := ⟨[{ keyed 1 with status := .cancelled "reason" 0 }], List.nodup_singleton _⟩ }

/-- Between the two statements of the second insertion the first task is cancelled and deleted. -/
def raced : List (Action ℕ Request (TaskId → ℕ) StoreState) :=
  [.start 0 (.insert (keyed 1)), .run 0 fun _ => 0, .start 1 (.insert (keyed 2)),
    .run 1 fun _ => 0, .env keyedCancelled, .start 2 (.delete ⟨1⟩), .run 2 fun _ => 0,
    .run 2 fun _ => 0, .run 1 fun _ => 0]

/-- With a used id the backends answer differently, and a key can vanish before it is looked up. -/
theorem submissions_not_idempotent :
    ((serve .mem (.insert (keyed 1))).alone (Statement.exec fun _ => 0) keyedCancelled).1 =
        .inserted (.error (taskAlreadyExists ⟨1⟩)) ∧
      ((serve .pg (.insert (keyed 1))).alone (Statement.exec fun _ => 0) keyedCancelled).1 =
        .inserted (.ok (.duplicate { keyed 1 with status := .cancelled "reason" 0 })) ∧
      ((clients .pg).after noClients raced).threads[1]? =
        some ⟨1, .insert (keyed 2), .ret (.inserted (.error (PgStore.vanished "k" "client")))⟩ :=
  ⟨rfl, rfl, rfl⟩

theorem raced_submissions_keep_keys :
    KeysUnique ((clients .pg).after noClients raced).state :=
  (submissions_idempotent noClients_start (after_reaches raced)).1

end Results

end FleetOrchestrator.Store
