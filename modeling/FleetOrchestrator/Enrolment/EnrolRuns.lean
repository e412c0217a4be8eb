import FleetOrchestrator.Enrolment.Enrolling

/-! What any number of enrolments under way at once leave behind. -/

namespace FleetOrchestrator.Enrolment

open Core Tables Store Interleaving Machine

abbrev History := List (Entry Statement Statement.Resp)

/-- What the statement makes of its connection's transaction. -/
def Statement.settle (p : ℕ) : (op : Statement) → op.Resp → Option Tx → Option Tx
  | .begin_, .ok (), _ => some { connection := p }
  | .useToken digest usedBy now, .ok true, t =>
    t.map fun t => { t with use := some ⟨digest, usedBy, now⟩ }
  | .insertWorker worker, .ok (), t => t.map fun t => { t with worker := some worker }
  | .insertCredential credential, .ok (), t =>
    t.map fun t => { t with credential := some credential }
  | .commit, _, _ => none
  | .rollback, _, _ => none
  | _, _, t => t

/-- The transaction that a call has open after its statements so far. -/
def pending (p : ℕ) (h : History) : Option Tx :=
  h.foldr (fun e t => e.op.settle p e.resp t) none

/-- The statement makes its call succeed. -/
def Statement.succeeds : (op : Statement) → op.Resp → Bool
  | .enrollLocked _ _ _ _, .ok () => true
  | .consumeLocked _ _, .ok () => true
  | .commit, .ok () => true
  | .useTokenNow _ _ _, .ok true => true
  | _, _ => false

section Steps

variable {ch : Choice} {p q : ℕ} {op : Statement} {r : op.Resp} {s s' : Db}

/-- What one statement does to the transactions: its own as it should, no other. -/
structure Moves (p : ℕ) (op : Statement) (r : op.Resp) (s s' : Db) : Prop where
  own : s'.transactions.get p = op.settle p r (s.transactions.get p)
  others : ∀ q, q ≠ p → s'.transactions.get q = s.transactions.get q
  connections : s'.connections = s.connections

theorem moves_same (tables : Registry) (hr : op.settle p r (s.transactions.get p) =
    s.transactions.get p) : Moves p op r s { s with tables } := ⟨hr.symm, fun _ _ => rfl, rfl⟩

theorem moves_change {f : Tx → Tx} {hf : ∀ t, (f t).connection = t.connection}
    (hr : op.settle p r (s.transactions.get p) = (s.transactions.get p).map f) :
    Moves p op r s (s.change p f hf) := by
  refine ⟨?_, fun q hq => ?_, rfl⟩
  · rw [hr]
    exact @Keyed.get_modify_self _ _ _ _ s.transactions f hf p
  · exact @Keyed.get_modify_ne _ _ _ _ s.transactions f hf p q hq

theorem moves_close (tables : Registry) (hr : op.settle p r (s.transactions.get p) = none) :
    Moves p op r s { s.close p with tables } :=
  ⟨Keyed.get_erase_self.trans hr.symm, fun _ hq => Keyed.get_erase_ne hq, rfl⟩

theorem attempt_cases {α : Type} {k : Option (Except StoreError α × Db)}
    {r : Except StoreError α} (h : attempt ch s k = some (r, s')) :
    (∃ e, r = .error e ∧ s' = s) ∨ k = some (r, s') := by
  unfold attempt at h
  cases hf : ch.fault with
  | some e =>
    rw [hf] at h
    cases h
    exact .inl ⟨e, rfl, rfl⟩
  | none =>
    rw [hf] at h
    exact .inr h

theorem exec_moves (h : exec ch p op s = some (r, s')) : Moves p op r s s' := by
  cases op with
  | enrollLocked digest usedBy worker credential => cases h; exact moves_same _ rfl
  | consumeLocked digest usedBy => cases h; exact moves_same _ rfl
  | readClock => cases h; exact moves_same _ rfl
  | rollback => cases h; exact moves_close _ rfl
  | begin_ =>
    rcases attempt_cases h with ⟨e, rfl, rfl⟩ | h
    · exact moves_same _ rfl
    · cases h
      exact ⟨Keyed.get_put_self, fun _ hq => Keyed.get_put_ne hq, rfl⟩
  | useToken digest usedBy now =>
    rcases attempt_cases h with ⟨e, rfl, rfl⟩ | h
    · exact moves_same _ rfl
    · split_ifs at h
      · cases h; exact moves_change rfl
      · cases h; exact moves_same _ rfl
  | selectToken digest =>
    rcases attempt_cases h with ⟨e, rfl, rfl⟩ | h
    · exact moves_same _ rfl
    · cases h; exact moves_same _ rfl
  | insertWorker worker =>
    rcases attempt_cases h with ⟨e, rfl, rfl⟩ | h
    · exact moves_same _ rfl
    · split_ifs at h
      cases hw : PgStore.insertWorkerRefusal (s.seen p) worker with
      | some e => rw [hw] at h; cases h; exact moves_same _ rfl
      | none => rw [hw] at h; cases h; exact moves_change rfl
  | insertCredential credential =>
    rcases attempt_cases h with ⟨e, rfl, rfl⟩ | h
    · exact moves_same _ rfl
    · split_ifs at h
      cases hc : PgStore.insertCredentialRefusal (s.seen p) credential with
      | some e => rw [hc] at h; cases h; exact moves_same _ rfl
      | none => rw [hc] at h; cases h; exact moves_change rfl
  | commit =>
    simp only [exec] at h
    cases hf : ch.fault with
    | some e => rw [hf] at h; cases h; exact moves_close _ rfl
    | none => rw [hf] at h; cases h; exact moves_close _ rfl
  | useTokenNow digest usedBy now =>
    rcases attempt_cases h with ⟨e, rfl, rfl⟩ | h
    · exact moves_same _ rfl
    · split_ifs at h
      cases h
      refine moves_same _ ?_
      cases (PgStore.useToken s.tables now digest usedBy).1 <;> rfl

end Steps

/-- The state of the program is a call that has not yet succeeded, or has just done so. -/
def Settles : Call → Prop
  | .ret _ => True
  | .call op k => ∀ r, succeeded (k r) = op.succeeds r ∧ Settles (k r)

theorem settles_giveUp (e : StoreError) : Settles (PgStore.giveUp e) := fun _ => ⟨rfl, trivial⟩

theorem settles_serve (digestFor : String → String) (b : Backend) (request : Request) :
    Settles (serve digestFor b request) ∧ succeeded (serve digestFor b request) = false := by
  cases b with
  | mem =>
    cases request with
    | enroll token usedBy worker credential =>
      refine ⟨fun r => ?_, rfl⟩
      rcases r with e | u <;> exact ⟨rfl, trivial⟩
    | consume token usedBy =>
      refine ⟨fun r => ?_, rfl⟩
      rcases r with e | u <;> exact ⟨rfl, trivial⟩
  | pg =>
    cases request with
    | enroll token usedBy worker credential =>
      refine ⟨fun r => ?_, rfl⟩
      rcases r with e | ⟨⟩
      · exact ⟨rfl, trivial⟩
      refine ⟨rfl, fun now => ⟨rfl, fun r => ?_⟩⟩
      rcases r with e | consumed
      · exact ⟨rfl, settles_giveUp e⟩
      cases consumed with
      | false =>
        refine ⟨rfl, fun r => ?_⟩
        rcases r with e | exists_
        · exact ⟨rfl, settles_giveUp e⟩
        · exact ⟨rfl, settles_giveUp _⟩
      | true =>
        refine ⟨rfl, fun r => ?_⟩
        rcases r with e | ⟨⟩
        · exact ⟨rfl, settles_giveUp e⟩
        refine ⟨rfl, fun r => ?_⟩
        rcases r with e | ⟨⟩
        · exact ⟨rfl, settles_giveUp e⟩
        refine ⟨rfl, fun r => ?_⟩
        rcases r with e | ⟨⟩ <;> exact ⟨rfl, trivial⟩
    | consume token usedBy =>
      refine ⟨fun now => ⟨rfl, fun r => ?_⟩, rfl⟩
      rcases r with e | consumed
      · exact ⟨rfl, trivial⟩
      cases consumed with
      | true => exact ⟨rfl, trivial⟩
      | false =>
        refine ⟨rfl, fun r => ?_⟩
        rcases r with e | exists_ <;> exact ⟨rfl, trivial⟩

/-- All that the transaction of an enrolment has done when it may commit. -/
def prepared (digest usedBy : String) (worker : Worker) (credential : WorkerOperationalCredential)
    (now : ℤ) : History :=
  [⟨.insertCredential credential, .ok ()⟩, ⟨.insertWorker worker, .ok ()⟩,
    ⟨.useToken digest usedBy now, .ok true⟩, ⟨.readClock, now⟩, ⟨.begin_, .ok ()⟩]

/-- What a call of each backend issues, and after what. -/
def Licensed (digestFor : String → String) : Backend → Request → History → Statement → Prop
  | .mem, .enroll token usedBy worker credential, _, op =>
    op = .enrollLocked (digestFor token) usedBy worker credential
  | .mem, .consume token usedBy, _, op => op = .consumeLocked (digestFor token) usedBy
  | .pg, .consume token usedBy, _, op =>
    op = .readClock ∨ (∃ now, op = .useTokenNow (digestFor token) usedBy now) ∨
      op = .selectToken (digestFor token)
  | .pg, .enroll token usedBy worker credential, h, op =>
    match op with
    | .commit => ∃ now, h = prepared (digestFor token) usedBy worker credential now
    | .useToken digest _ _ => digest = digestFor token
    | .enrollLocked _ _ _ _ | .consumeLocked _ _ | .useTokenNow _ _ _ => False
    | _ => True

theorem disciplined (digestFor : String → String) (b : Backend) :
    (enrolment digestFor b).Disciplined (fun _ => Licensed digestFor b) fun _ _ _ _ => True := by
  have giveUp {φ : History → Statement → Prop} {h : History} {e : StoreError}
      (hφ : ∀ h, φ h .rollback) : Obeys φ (fun _ _ => True) (PgStore.giveUp e) h :=
    ⟨hφ h, fun _ => trivial⟩
  intro p request
  cases b with
  | mem =>
    cases request with
    | enroll token usedBy worker credential => exact ⟨rfl, fun _ => trivial⟩
    | consume token usedBy => exact ⟨rfl, fun _ => trivial⟩
  | pg =>
    cases request with
    | enroll token usedBy worker credential =>
      refine ⟨trivial, fun r => ?_⟩
      rcases r with e | ⟨⟩
      · trivial
      refine ⟨trivial, fun now => ⟨rfl, fun r => ?_⟩⟩
      rcases r with e | consumed
      · exact giveUp fun _ => trivial
      cases consumed with
      | false =>
        refine ⟨trivial, fun r => ?_⟩
        rcases r with e | exists_
        · exact giveUp fun _ => trivial
        · exact giveUp fun _ => trivial
      | true =>
        refine ⟨trivial, fun r => ?_⟩
        rcases r with e | ⟨⟩
        · exact giveUp fun _ => trivial
        refine ⟨trivial, fun r => ?_⟩
        rcases r with e | ⟨⟩
        · exact giveUp fun _ => trivial
        exact ⟨⟨now, rfl⟩, fun _ => trivial⟩
    | consume token usedBy =>
      refine ⟨.inl rfl, fun now => ⟨.inr (.inl ⟨now, rfl⟩), fun r => ?_⟩⟩
      rcases r with e | consumed
      · trivial
      cases consumed with
      | true => trivial
      | false =>
        refine ⟨.inr (.inr rfl), fun r => ?_⟩
        rcases r with e | exists_ <;> trivial

/-- The row of the token can be used once more. -/
def Usable (r : Registry) (digest : String) : Prop :=
  ∃ row, r.tokens.get digest = some row ∧ row.useCount < row.maxUses

theorem usable_of_isUsable {t : BootstrapToken} {now : ℤ} (h : t.isUsable now = true) :
    t.useCount < t.maxUses := by
  unfold BootstrapToken.isUsable at h
  by_contra hn
  rw [if_pos (by omega)] at h
  cases h

theorem usable_of_matches {r : Registry} {digest : String} {now : ℤ}
    (h : (r.tokens.get digest).any (fun t => t.matchesUse now) = true) : Usable r digest := by
  obtain ⟨row, hrow, hm⟩ := (Option.any_eq_true _ _).mp h
  simp only [BootstrapToken.matchesUse, Bool.and_eq_true, decide_eq_true_eq] at hm
  exact ⟨row, hrow, hm.1⟩

theorem enrollWorker_cases (r : Registry) (now : ℤ) (digest usedBy : String) (worker : Worker)
    (credential : WorkerOperationalCredential) :
    (∃ e, MemStore.enrollWorker r now digest usedBy worker credential = (.error e, r)) ∨
      MemStore.enrollWorker r now digest usedBy worker credential =
          (.ok (), r.enrolled digest usedBy now worker credential) ∧ Usable r digest := by
  unfold MemStore.enrollWorker
  cases hrow : r.tokens.get digest with
  | none => exact .inl ⟨_, rfl⟩
  | some row =>
    dsimp only
    split_ifs with hu hname hdigest
    · exact .inl ⟨_, rfl⟩
    · exact .inl ⟨_, rfl⟩
    · exact .inl ⟨_, rfl⟩
    · exact .inr ⟨rfl, row, hrow, usable_of_isUsable (by simpa using hu)⟩

theorem consumeToken_cases (r : Registry) (now : ℤ) (digest usedBy : String) :
    (∃ e, MemStore.consumeBootstrapToken r now digest usedBy = (.error e, r)) ∨
      MemStore.consumeBootstrapToken r now digest usedBy =
          (.ok (), r.useToken digest usedBy now) ∧ Usable r digest := by
  unfold MemStore.consumeBootstrapToken
  cases hrow : r.tokens.get digest with
  | none => exact .inl ⟨_, rfl⟩
  | some row =>
    dsimp only
    split_ifs with hu
    · exact .inl ⟨_, rfl⟩
    · exact .inr ⟨rfl, row, hrow, usable_of_isUsable (by simpa using hu)⟩

theorem useToken_cases (r : Registry) (now : ℤ) (digest usedBy : String) :
    PgStore.useToken r now digest usedBy = (false, r) ∨
      PgStore.useToken r now digest usedBy = (true, r.useToken digest usedBy now) ∧
        Usable r digest := by
  unfold PgStore.useToken
  split_ifs with h
  · exact .inr ⟨rfl, usable_of_matches h⟩
  · exact .inl rfl

section Tables

variable {ch : Choice} {p q : ℕ} {op : Statement} {r : op.Resp} {s s' : Db}

/-- A statement that does not make its call succeed leaves the tables alone. -/
theorem exec_tables (h : exec ch p op s = some (r, s')) (hr : op.succeeds r = false) :
    s'.tables = s.tables := by
  cases op with
  | enrollLocked digest usedBy worker credential =>
    simp only [exec, Option.some.injEq, Prod.mk.injEq] at h
    obtain ⟨rfl, rfl⟩ := h
    rcases enrollWorker_cases s.tables ch.now digest usedBy worker credential with ⟨e, he⟩ | ⟨he, -⟩
    · rw [he]
    · rw [he] at hr
      cases hr
  | consumeLocked digest usedBy =>
    simp only [exec, Option.some.injEq, Prod.mk.injEq] at h
    obtain ⟨rfl, rfl⟩ := h
    rcases consumeToken_cases s.tables ch.now digest usedBy with ⟨e, he⟩ | ⟨he, -⟩
    · rw [he]
    · rw [he] at hr
      cases hr
  | readClock => cases h; rfl
  | rollback => cases h; rfl
  | begin_ =>
    rcases attempt_cases h with ⟨e, rfl, rfl⟩ | h
    · rfl
    · cases h
      rfl
  | useToken digest usedBy now =>
    rcases attempt_cases h with ⟨e, rfl, rfl⟩ | h
    · rfl
    · split_ifs at h <;> cases h <;> rfl
  | selectToken digest =>
    rcases attempt_cases h with ⟨e, rfl, rfl⟩ | h
    · rfl
    · cases h
      rfl
  | insertWorker worker =>
    rcases attempt_cases h with ⟨e, rfl, rfl⟩ | h
    · rfl
    · split_ifs at h
      cases hw : PgStore.insertWorkerRefusal (s.seen p) worker with
      | some e => rw [hw] at h; cases h; rfl
      | none => rw [hw] at h; cases h; rfl
  | insertCredential credential =>
    rcases attempt_cases h with ⟨e, rfl, rfl⟩ | h
    · rfl
    · split_ifs at h
      cases hc : PgStore.insertCredentialRefusal (s.seen p) credential with
      | some e => rw [hc] at h; cases h; rfl
      | none => rw [hc] at h; cases h; rfl
  | commit =>
    simp only [exec] at h
    cases hf : ch.fault with
    | some e => rw [hf] at h; cases h; rfl
    | none =>
      rw [hf] at h
      cases h
      cases hr
  | useTokenNow digest usedBy now =>
    rcases attempt_cases h with ⟨e, rfl, rfl⟩ | h
    · rfl
    · split_ifs at h
      rcases useToken_cases s.tables now digest usedBy with he | ⟨he, -⟩
      · rw [he] at h
        cases h
        rfl
      · rw [he] at h
        cases h
        cases hr

end Tables

abbrev Caller := Thread Statement Statement.Resp ℕ Request (Except StoreError Unit)

/-- Each call has its own connection, whose transaction holds what the call has written. -/
structure Sound (c : Enrolments) : Prop where
  connected : ∀ (i : ℕ) (t : Caller), c.threads[i]? = some t → t.party ∈ c.state.connections
  own : ∀ (i : ℕ) (t : Caller), c.threads[i]? = some t →
    c.state.transactions.get t.party = pending t.party (history c.log i)
  apart : ∀ (i j : ℕ) (t u : Caller), c.threads[i]? = some t → c.threads[j]? = some u →
    t.party = u.party → i = j
  closed : ∀ p, p ∉ c.state.connections → c.state.transactions.get p = none
  settles : ∀ (i : ℕ) (t : Caller), c.threads[i]? = some t → Settles t.prog

variable {digestFor : String → String} {b : Backend} {c c' : Enrolments}

theorem accept_some {p : ℕ} (request : Request) {s s' : Db} (h : accept p request s = some s') :
    p ∉ s.connections ∧ s' = { s with connections := p :: s.connections } := by
  unfold accept at h
  by_cases hp : s.connections.contains p = true
  · rw [if_pos hp] at h
    cases h
  · rw [if_neg hp] at h
    cases h
    exact ⟨by simpa using hp, rfl⟩

theorem revoke_some {digest : String} {s s' : Db} (h : revokeToken digest s = some s') :
    s.tokenUsed digest = false ∧
      s' = { s with tables := { s.tables with tokens := s.tables.tokens.erase digest } } := by
  unfold revokeToken at h
  cases hu : s.tokenUsed digest with
  | true =>
    rw [hu] at h
    cases h
  | false =>
    rw [hu] at h
    cases h
    exact ⟨rfl, rfl⟩

theorem sound_start {p : ℕ} {request : Request} (h : Sound c) (hw : LogWithin c)
    (hs : (enrolment digestFor b).step c (.start p request) = some c') : Sound c' := by
  obtain ⟨hacc, hthreads, hlog⟩ := step_start hs
  obtain ⟨hnew, hstate⟩ := accept_some request hacc
  have hfresh : pending p (history c'.log c.threads.length) = none := by
    rw [hlog, history_of_within hw le_rfl]
    rfl
  have split {i : ℕ} {t : Caller}
      (ht : c'.threads[i]? = some t) : c.threads[i]? = some t ∨
        i = c.threads.length ∧ t = (enrolment digestFor b).thread p request := by
    rw [hthreads] at ht
    rcases Nat.lt_or_ge i c.threads.length with hi | hi
    · exact .inl (by rwa [List.getElem?_append_left hi] at ht)
    · rw [List.getElem?_append_right hi] at ht
      have hz := (List.getElem?_eq_some_iff.mp ht).1
      rw [List.length_singleton] at hz
      exact .inr ⟨by omega, List.mem_singleton.mp (List.mem_of_getElem? ht)⟩
  constructor
  · intro i t ht
    rw [hstate]
    rcases split ht with ht | ⟨-, rfl⟩
    · exact List.mem_cons_of_mem _ (h.connected i t ht)
    · exact List.mem_cons_self
  · intro i t ht
    rcases split ht with ht | ⟨rfl, rfl⟩
    · rw [hstate, hlog]
      exact h.own i t ht
    · rw [hstate]
      exact (h.closed p hnew).trans hfresh.symm
  · intro i j t u ht hu he
    rcases split ht with ht | ⟨rfl, rfl⟩
    · rcases split hu with hu | ⟨rfl, rfl⟩
      · exact h.apart i j t u ht hu he
      · have hp : t.party = p := he
        exact absurd (hp ▸ h.connected i t ht) hnew
    · rcases split hu with hu | ⟨rfl, rfl⟩
      · have hp : p = u.party := he
        exact absurd (hp ▸ h.connected j u hu) hnew
      · rfl
  · intro q hq
    rw [hstate] at hq ⊢
    exact h.closed q fun hm => hq (List.mem_cons_of_mem _ hm)
  · intro i t ht
    rcases split ht with ht | ⟨-, rfl⟩
    · exact h.settles i t ht
    · exact (settles_serve digestFor b request).1

theorem sound_run {i : ℕ} {ch : Choice} {op : Statement} (h : Sound c)
    (r : (enrolment digestFor b).Ran c c' i ch op) : Sound c' := by
  have hmoves : Moves r.party op r.resp c.state c'.state := exec_moves r.done
  have hthreads : c'.threads = c.threads.set i ⟨r.party, r.act, r.cont r.resp⟩ := by
    rw [r.threads]
    exact List.append_nil _
  have hi := (List.getElem?_eq_some_iff.mp r.was).1
  -- a thread is the one that ran, or it is where it was
  have split {j : ℕ} {t : Caller} (ht : c'.threads[j]? = some t) :
      j = i ∧ t = ⟨r.party, r.act, r.cont r.resp⟩ ∨ j ≠ i ∧ c.threads[j]? = some t := by
    rw [hthreads] at ht
    by_cases hj : j = i
    · subst hj
      rw [List.getElem?_set_self hi] at ht
      exact .inl ⟨rfl, (Option.some.inj ht).symm⟩
    · rw [List.getElem?_set_ne (Ne.symm hj)] at ht
      exact .inr ⟨hj, ht⟩
  have apart {j : ℕ} {t : Caller} (hj : j ≠ i) (ht : c.threads[j]? = some t) :
      t.party ≠ r.party := fun he => hj (h.apart j i t _ ht r.was he)
  constructor
  · intro j t ht
    rw [hmoves.connections]
    rcases split ht with ⟨-, rfl⟩ | ⟨-, ht⟩
    · exact h.connected i ⟨r.party, r.act, .call op r.cont⟩ r.was
    · exact h.connected j t ht
  · intro j t ht
    rcases split ht with ⟨rfl, rfl⟩ | ⟨hj, ht⟩
    · rw [r.after.2, hmoves.own, h.own j _ r.was]
      rfl
    · rw [r.log, history_cons_ne _ (Ne.symm hj), hmoves.others _ (apart hj ht)]
      exact h.own j t ht
  · intro j k t u ht hu he
    rcases split ht with ⟨rfl, rfl⟩ | ⟨hj, ht⟩
    · rcases split hu with ⟨rfl, -⟩ | ⟨hk, hu⟩
      · rfl
      · exact absurd he.symm (apart hk hu)
    · rcases split hu with ⟨rfl, rfl⟩ | ⟨hk, hu⟩
      · exact absurd he (apart hj ht)
      · exact h.apart j k t u ht hu he
  · intro q hq
    rw [hmoves.connections] at hq
    have hne : q ≠ r.party := by
      rintro rfl
      exact hq (h.connected i _ r.was)
    rw [hmoves.others q hne]
    exact h.closed q hq
  · intro j t ht
    rcases split ht with ⟨rfl, rfl⟩ | ⟨-, ht⟩
    · exact (h.settles j _ r.was r.resp).2
    · exact h.settles j t ht

theorem sound_step {x : Action ℕ Request Choice String} (h : Sound c) (hw : LogWithin c)
    (hs : (enrolment digestFor b).step c x = some c') : Sound c' := by
  cases x with
  | start p request => exact sound_start h hw hs
  | run i ch =>
    obtain ⟨op, ⟨r⟩⟩ := step_run hs
    exact sound_run h r
  | env digest =>
    obtain ⟨hrevoke, hthreads, hlog⟩ := step_env hs
    obtain ⟨-, hstate⟩ := revoke_some hrevoke
    constructor
    · rw [hthreads, hstate]
      exact h.connected
    · rw [hthreads, hlog, hstate]
      exact h.own
    · rw [hthreads]
      exact h.apart
    · rw [hstate]
      exact h.closed
    · rw [hthreads]
      exact h.settles

variable {r₀ : Registry}

theorem fresh_atRest (r : Registry) : Fresh (atRest r) := ⟨rfl, rfl⟩

theorem sound (h : (enrolment digestFor b).Reaches always (atRest r₀) c) : Sound c := by
  apply h.invariant
  · exact ⟨by rintro _ _ ⟨⟩, by rintro _ _ ⟨⟩, by rintro _ _ _ _ ⟨⟩, fun _ _ => rfl, by rintro _ _ ⟨⟩⟩
  · intro c x c' hr _ hs hp
    exact sound_step hp (within_of_reaches (fresh_atRest r₀) hr) hs

/-- A token that an open transaction has used is used by no other, and still there to be used. -/
structure Held (s : Db) : Prop where
  usable : ∀ p t u, s.transactions.get p = some t → t.use = some u → Usable s.tables u.digest
  single : ∀ p q t t' u u', s.transactions.get p = some t → s.transactions.get q = some t' →
    t.use = some u → t'.use = some u' → u.digest = u'.digest → p = q

theorem not_tokenHeld {s : Db} {p q : ℕ} {digest : String} {t : Tx} {u : TokenUse}
    (h : s.tokenHeld p digest = false) (ht : s.transactions.get q = some t)
    (hu : t.use = some u) (hq : q ≠ p) : u.digest ≠ digest := by
  obtain ⟨hmem, hkey⟩ := Keyed.get_eq_some.mp ht
  have hn := List.any_eq_false.mp h t hmem
  simpa [hu, hkey, hq] using hn

theorem not_tokenUsed {s : Db} {q : ℕ} {digest : String} {t : Tx} {u : TokenUse}
    (h : s.tokenUsed digest = false) (ht : s.transactions.get q = some t)
    (hu : t.use = some u) : u.digest ≠ digest := by
  have hn := List.any_eq_false.mp h t (Keyed.get_eq_some.mp ht).1
  simpa [hu] using hn

theorem get_useToken_ne {r : Registry} {digest digest' usedBy : String} {now : ℤ}
    (hne : digest ≠ digest') :
    (r.useToken digest' usedBy now).tokens.get digest = r.tokens.get digest := by
  simp only [Registry.useToken]
  rw [Keyed.get_modify_ne hne]

theorem usable_useToken {r : Registry} {digest digest' usedBy : String} {now : ℤ}
    (hne : digest ≠ digest') (h : Usable r digest) :
    Usable (r.useToken digest' usedBy now) digest := by
  obtain ⟨row, hrow, hlt⟩ := h
  refine ⟨row, ?_, hlt⟩
  rw [← hrow]
  exact get_useToken_ne hne

/-- What is open after a statement, if its own transaction has gained no use. -/
theorem held_of {s s' : Db} {p : ℕ} {op : Statement} {r : op.Resp} (h : Held s)
    (hm : Moves p op r s s')
    (hown : ∀ t u, s'.transactions.get p = some t → t.use = some u →
      ∃ t₀, s.transactions.get p = some t₀ ∧ t₀.use = some u)
    (hrow : ∀ q t u, s'.transactions.get q = some t → t.use = some u →
      Usable s.tables u.digest → Usable s'.tables u.digest) : Held s' := by
  -- every use that is open now was open before
  have before {q : ℕ} {t : Tx} {u : TokenUse} (ht : s'.transactions.get q = some t)
      (huse : t.use = some u) : ∃ t₀, s.transactions.get q = some t₀ ∧ t₀.use = some u := by
    by_cases hq : q = p
    · subst hq
      exact hown t u ht huse
    · rw [hm.others q hq] at ht
      exact ⟨t, ht, huse⟩
  constructor
  · intro q t u ht huse
    obtain ⟨t₀, ht₀, hu₀⟩ := before ht huse
    exact hrow q t u ht huse (h.usable q t₀ u ht₀ hu₀)
  · intro q q' t t' u u' ht ht' hut hut' he
    obtain ⟨t₀, ht₀, hu₀⟩ := before ht hut
    obtain ⟨t₁, ht₁, hu₁⟩ := before ht' hut'
    exact h.single q q' t₀ t₁ u u' ht₀ ht₁ hu₀ hu₁ he

theorem apply_tokens (t : Tx) (r : Registry) :
    (t.apply r).tokens = (t.use.elim r fun u => r.useToken u.digest u.usedBy u.now).tokens := by
  unfold Tx.apply
  cases t.worker <;> cases t.credential <;> rfl

theorem usable_tokens {r r' : Registry} {digest : String} (ht : r'.tokens = r.tokens)
    (h : Usable r digest) : Usable r' digest := by
  obtain ⟨row, hrow, hlt⟩ := h
  exact ⟨row, by rw [ht, hrow], hlt⟩

section Holding

variable {ch : Choice} {p : ℕ} {s s' : Db} {request : Request} {h : History}

/-- Statements that use no token and commit nothing. -/
theorem held_kept {op : Statement} {r : op.Resp} (hh : Held s) (hm : Moves p op r s s')
    (htables : s'.tables = s.tables)
    (hown : ∀ t u, s'.transactions.get p = some t → t.use = some u →
      ∃ t₀, s.transactions.get p = some t₀ ∧ t₀.use = some u) : Held s' :=
  held_of hh hm hown fun _ _ _ _ _ hu => usable_tokens (congrArg Registry.tokens htables) hu

theorem held_useToken {digest usedBy : String} {now : ℤ} {r : Except StoreError Bool}
    (hh : Held s) (he : exec ch p (.useToken digest usedBy now) s = some (r, s')) : Held s' := by
  rcases attempt_cases he with ⟨e, rfl, rfl⟩ | he
  · exact hh
  split_ifs at he with hheld hm
  · cases he
    have hheld : s.tokenHeld p digest = false := by simpa using hheld
    have split {q : ℕ} {t : Tx} {u : TokenUse}
        (ht : (s.transactions.modify p (fun t => { t with use := some ⟨digest, usedBy, now⟩ })
          fun _ => rfl).get q = some t) (hu : t.use = some u) :
        q = p ∧ u.digest = digest ∨ q ≠ p ∧ s.transactions.get q = some t ∧ u.digest ≠ digest := by
      by_cases hq : q = p
      · subst hq
        rw [Keyed.get_modify_self] at ht
        obtain ⟨t₀, -, rfl⟩ := Option.map_eq_some_iff.mp ht
        cases hu
        exact .inl ⟨rfl, rfl⟩
      · rw [Keyed.get_modify_ne hq] at ht
        exact .inr ⟨hq, ht, not_tokenHeld hheld ht hu hq⟩
    constructor
    · intro q t u ht hu
      rcases split ht hu with ⟨rfl, hd⟩ | ⟨-, ht, -⟩
      · rw [hd]
        exact usable_of_matches hm
      · exact hh.usable q t u ht hu
    · intro q q' t t' u u' ht ht' hu hu' hd
      rcases split ht hu with ⟨rfl, hq⟩ | ⟨-, ht, hq⟩
      · rcases split ht' hu' with ⟨rfl, -⟩ | ⟨-, -, hq'⟩
        · rfl
        · exact absurd (hd ▸ hq) hq'
      · rcases split ht' hu' with ⟨rfl, hq'⟩ | ⟨-, ht', -⟩
        · exact absurd (hd.trans hq') hq
        · exact hh.single q q' t t' u u' ht ht' hu hu' hd
  · cases he
    exact hh

theorem held_commit {r : Except StoreError Unit} (hh : Held s)
    (he : exec ch p .commit s = some (r, s')) : Held s' := by
  have hm := exec_moves he
  have hgone : s'.transactions.get p = none := hm.own
  refine held_of hh hm (fun t u ht => by rw [hgone] at ht; cases ht) ?_
  intro q t u ht hu husable
  have hq : q ≠ p := by
    rintro rfl
    rw [hgone] at ht
    cases ht
  rw [hm.others q hq] at ht
  simp only [exec] at he
  cases hf : ch.fault with
  | some e =>
    rw [hf] at he
    cases he
    exact husable
  | none =>
    rw [hf] at he
    cases he
    change Usable (s.seen p) u.digest
    unfold Db.seen
    cases hp : s.transactions.get p with
    | none => exact husable
    | some t₀ =>
      apply usable_tokens (apply_tokens t₀ s.tables)
      cases hu₀ : t₀.use with
      | none => exact husable
      | some u₀ =>
        refine usable_useToken ?_ husable
        intro hd
        exact hq (hh.single q p t t₀ u u₀ ht hp hu hu₀ hd)

theorem held_useTokenNow {digest usedBy : String} {now : ℤ} {r : Except StoreError Bool}
    (hh : Held s) (he : exec ch p (.useTokenNow digest usedBy now) s = some (r, s')) :
    Held s' := by
  rcases attempt_cases he with ⟨e, rfl, rfl⟩ | he
  · exact hh
  split_ifs at he with hused
  rcases useToken_cases s.tables now digest usedBy with hc | ⟨hc, -⟩
  · rw [hc] at he
    cases he
    exact hh
  · rw [hc] at he
    cases he
    have hused : s.tokenUsed digest = false := by simpa using hused
    exact ⟨fun q t u ht hu => usable_useToken (not_tokenUsed hused ht hu) (hh.usable q t u ht hu),
      hh.single⟩

theorem held_exec {op : Statement} {r : op.Resp} (hh : Held s)
    (hl : Licensed digestFor .pg request h op) (he : exec ch p op s = some (r, s')) : Held s' := by
  have hm := exec_moves he
  have kept (hr : op.succeeds r = false)
      (hown : ∀ t u, op.settle p r (s.transactions.get p) = some t → t.use = some u →
        ∃ t₀, s.transactions.get p = some t₀ ∧ t₀.use = some u) : Held s' := by
    apply held_kept hh hm (exec_tables he hr)
    rw [hm.own]
    exact hown
  cases op with
  | enrollLocked digest usedBy worker credential => cases request <;> simp [Licensed] at hl
  | consumeLocked digest usedBy => cases request <;> simp [Licensed] at hl
  | useToken digest usedBy now => exact held_useToken hh he
  | useTokenNow digest usedBy now => exact held_useTokenNow hh he
  | commit => exact held_commit hh he
  | readClock => exact kept rfl fun t u ht hu => ⟨t, ht, hu⟩
  | selectToken digest => exact kept rfl fun t u ht hu => ⟨t, ht, hu⟩
  | rollback => exact kept rfl (by rintro t u ⟨⟩)
  | begin_ =>
    apply kept rfl
    intro t u ht hu
    rcases r with e | ⟨⟩
    · exact ⟨t, ht, hu⟩
    · cases ht
      cases hu
  | insertWorker worker =>
    apply kept rfl
    intro t u ht hu
    rcases r with e | ⟨⟩
    · exact ⟨t, ht, hu⟩
    · obtain ⟨t₀, ht₀, rfl⟩ := Option.map_eq_some_iff.mp ht
      exact ⟨t₀, ht₀, hu⟩
  | insertCredential credential =>
    apply kept rfl
    intro t u ht hu
    rcases r with e | ⟨⟩
    · exact ⟨t, ht, hu⟩
    · obtain ⟨t₀, ht₀, rfl⟩ := Option.map_eq_some_iff.mp ht
      exact ⟨t₀, ht₀, hu⟩

end Holding

theorem held_revoke {digest : String} {s s' : Db} (hh : Held s)
    (h : revokeToken digest s = some s') : Held s' := by
  obtain ⟨hused, rfl⟩ := revoke_some h
  refine ⟨fun q t u ht hu => ?_, hh.single⟩
  obtain ⟨row, hrow, hlt⟩ := hh.usable q t u ht hu
  exact ⟨row, (Keyed.get_erase_ne (not_tokenUsed hused ht hu)).trans hrow, hlt⟩

theorem held (h : (enrolment digestFor .pg).Reaches always (atRest r₀) c) : Held c.state := by
  apply h.invariant (P := fun c => Held c.state)
  · exact ⟨by rintro _ _ _ ⟨⟩, by rintro _ _ _ _ _ _ ⟨⟩⟩
  · intro c x c' hr _ hs hh
    cases x with
    | start p request =>
      obtain ⟨-, hstate⟩ := accept_some request (step_start hs).1
      rw [hstate]
      exact ⟨hh.usable, hh.single⟩
    | env digest => exact held_revoke hh (step_env hs).1
    | run i ch =>
      obtain ⟨op, ⟨r⟩⟩ := step_run hs
      have hl := r.licensed (disciplined digestFor .pg) (fresh_atRest r₀) hr
      exact held_exec hh hl r.done

theorem pending_prepared (p : ℕ) (digest usedBy : String) (worker : Worker)
    (credential : WorkerOperationalCredential) (now : ℤ) :
    pending p (prepared digest usedBy worker credential now) =
      some ⟨p, some ⟨digest, usedBy, now⟩, some worker, some credential⟩ := rfl

/-- The one statement that makes a call succeed writes all that the request asks for, on a token that
could still be used. -/
theorem exec_success {ch : Choice} {p : ℕ} {op : Statement} {r : op.Resp} {s s' : Db}
    {request : Request} {h : History} (hl : Licensed digestFor b request h op)
    (hown : s.transactions.get p = pending p h) (hh : b = .pg → Held s)
    (he : exec ch p op s = some (r, s')) (hok : op.succeeds r = true) :
    (∃ now, s'.tables = request.writes digestFor now s.tables) ∧
      Usable s.tables (digestFor request.token) := by
  cases b with
  | mem =>
    cases request with
    | enroll token usedBy worker credential =>
      obtain rfl := hl
      simp only [exec, Option.some.injEq, Prod.mk.injEq] at he
      obtain ⟨rfl, rfl⟩ := he
      rcases enrollWorker_cases s.tables ch.now (digestFor token) usedBy worker credential with
        ⟨e, hc⟩ | ⟨hc, hu⟩
      · rw [hc] at hok
        cases hok
      · exact ⟨⟨ch.now, by rw [hc]; rfl⟩, hu⟩
    | consume token usedBy =>
      obtain rfl := hl
      simp only [exec, Option.some.injEq, Prod.mk.injEq] at he
      obtain ⟨rfl, rfl⟩ := he
      rcases consumeToken_cases s.tables ch.now (digestFor token) usedBy with
        ⟨e, hc⟩ | ⟨hc, hu⟩
      · rw [hc] at hok
        cases hok
      · exact ⟨⟨ch.now, by rw [hc]; rfl⟩, hu⟩
  | pg =>
    cases request with
    | consume token usedBy =>
      rcases hl with rfl | ⟨now, rfl⟩ | rfl
      · cases hok
      · rcases attempt_cases he with ⟨e, rfl, -⟩ | he
        · cases hok
        split_ifs at he
        rcases useToken_cases s.tables now (digestFor token) usedBy with hc | ⟨hc, hu⟩
        · rw [hc] at he
          cases he
          cases hok
        · rw [hc] at he
          cases he
          exact ⟨⟨now, rfl⟩, hu⟩
      · cases hok
    | enroll token usedBy worker credential =>
      cases op with
      | commit =>
        obtain ⟨now, rfl⟩ := hl
        rw [pending_prepared] at hown
        simp only [exec] at he
        cases hf : ch.fault with
        | some e =>
          rw [hf] at he
          cases he
          cases hok
        | none =>
          rw [hf] at he
          cases he
          refine ⟨⟨now, ?_⟩, (hh rfl).usable p _ _ hown rfl⟩
          change s.seen p = _
          rw [Db.seen, hown]
          rfl
      | enrollLocked | consumeLocked | useTokenNow => exact hl.elim
      | begin_ | readClock | useToken | selectToken | insertWorker | insertCredential | rollback =>
        cases hok

/-- What a step of a run does to the tables, and to the caller whose step it is. -/
theorem run_writes (h : (enrolment digestFor b).Reaches always (atRest r₀) c) {i : ℕ} {ch : Choice}
    {op : Statement} (r : (enrolment digestFor b).Ran c c' i ch op) :
    succeeded (r.cont r.resp) = false ∧ c'.state.tables = c.state.tables ∨
      succeeded (r.cont r.resp) = true ∧
        (∃ now, c'.state.tables = r.act.writes digestFor now c.state.tables) ∧
        Usable c.state.tables (digestFor r.act.token) := by
  have hsettles := ((sound h).settles i _ r.was r.resp).1
  rw [hsettles]
  cases hok : op.succeeds r.resp with
  | false => exact .inl ⟨rfl, exec_tables r.done hok⟩
  | true =>
    have hl := r.licensed (disciplined digestFor b) (fresh_atRest r₀) h
    have hown := (sound h).own i _ r.was
    refine .inr ⟨rfl, exec_success hl hown ?_ r.done hok⟩
    rintro rfl
    exact held h

theorem successes_run {i : ℕ} {ch : Choice} {op : Statement}
    (r : (enrolment digestFor b).Ran c c' i ch op) (digest : String) :
    successes digestFor digest c' = successes digestFor digest c +
      if digestFor r.act.token = digest && succeeded (r.cont r.resp) then 1 else 0 := by
  obtain ⟨hi, hwas⟩ := List.getElem?_eq_some_iff.mp r.was
  have hthreads : c'.threads = c.threads.set i ⟨r.party, r.act, r.cont r.resp⟩ := by
    rw [r.threads]
    exact List.append_nil _
  unfold successes
  rw [hthreads, List.countP_set hi, hwas]
  simp [succeeded]

/-- What a step does for one token: nothing that could be seen, one more use of a row that allowed it, or
the end of the row. -/
inductive Used (digest : String) (c c' : Enrolments) (n : ℕ) : Prop
  | same (ht : c'.state.tables.tokens.get digest = c.state.tables.tokens.get digest) (hn : n = 0)
  | used (row : BootstrapToken) (usedBy : String) (now : ℤ)
    (hrow : c.state.tables.tokens.get digest = some row) (hlt : row.useCount < row.maxUses)
    (ht : c'.state.tables.tokens.get digest = some (row.used usedBy now)) (hn : n = 1)
  | revoked (ht : c'.state.tables.tokens.get digest = none) (hn : n = 0)

theorem writes_tokens (request : Request) (now : ℤ) (r : Registry) : ∃ usedBy,
    (request.writes digestFor now r).tokens =
      (r.useToken (digestFor request.token) usedBy now).tokens := by
  cases request with
  | enroll token usedBy worker credential => exact ⟨usedBy, rfl⟩
  | consume token usedBy => exact ⟨usedBy, rfl⟩

theorem used_step (h : (enrolment digestFor b).Reaches always (atRest r₀) c)
    {x : Action ℕ Request Choice String} (hs : (enrolment digestFor b).step c x = some c')
    (digest : String) : ∃ n, successes digestFor digest c' = successes digestFor digest c + n ∧
      Used digest c c' n := by
  cases x with
  | start p request =>
    obtain ⟨hacc, hthreads, -⟩ := step_start hs
    obtain ⟨-, hstate⟩ := accept_some request hacc
    refine ⟨0, ?_, .same (by rw [hstate]) rfl⟩
    unfold successes
    rw [hthreads, List.countP_append, List.countP_singleton]
    simp [thread, enrolment, (settles_serve digestFor b request).2]
  | env revoked =>
    obtain ⟨hrevoke, hthreads, -⟩ := step_env hs
    obtain ⟨-, hstate⟩ := revoke_some hrevoke
    refine ⟨0, by unfold successes; rw [hthreads]; rfl, ?_⟩
    by_cases hd : digest = revoked
    · refine .revoked ?_ rfl
      rw [hstate, hd]
      exact Keyed.get_erase_self
    · refine .same ?_ rfl
      rw [hstate]
      exact Keyed.get_erase_ne hd
  | run i ch =>
    obtain ⟨op, ⟨r⟩⟩ := step_run hs
    refine ⟨_, successes_run r digest, ?_⟩
    rcases run_writes h r with ⟨hno, htables⟩ | ⟨hyes, ⟨now, htables⟩, row, hrow, hlt⟩
    · rw [hno]
      exact .same (by rw [htables]) (by simp)
    · obtain ⟨usedBy, htokens⟩ := @writes_tokens digestFor r.act now c.state.tables
      by_cases hd : digestFor r.act.token = digest
      · subst hd
        refine .used row usedBy now hrow hlt ?_ (by simp [hyes])
        rw [htables, htokens, Registry.useToken, Keyed.get_modify_self, hrow]
        rfl
      · refine .same ?_ (by simp [hd])
        rw [htables, htokens, get_useToken_ne (Ne.symm hd)]

/-- How far a token has been used since the beginning, while it is there and when it is gone. -/
def Counted (digest : String) (r₀ : Registry) (n : ℕ) (r : Registry) : Prop :=
  match r₀.tokens.get digest with
  | none => n = 0 ∧ r.tokens.get digest = none
  | some row₀ =>
    n ≤ row₀.maxUses - row₀.useCount ∧ ∀ row, r.tokens.get digest = some row →
      row.maxUses = row₀.maxUses ∧ row.useCount = row₀.useCount + n

theorem counted_step {digest : String} {m n : ℕ} (h : Counted digest r₀ m c.state.tables)
    (hu : Used digest c c' n) : Counted digest r₀ (m + n) c'.state.tables := by
  unfold Counted at h ⊢
  cases h₀ : r₀.tokens.get digest with
  | none =>
    simp only [h₀] at h ⊢
    cases hu with
    | same ht hn => exact ⟨by omega, ht.trans h.2⟩
    | used row usedBy now hrow hlt ht hn =>
      rw [h.2] at hrow
      cases hrow
    | revoked ht hn => exact ⟨by omega, ht⟩
  | some row₀ =>
    simp only [h₀] at h ⊢
    cases hu with
    | same ht hn =>
      rw [ht, hn]
      exact h
    | used row usedBy now hrow hlt ht hn =>
      obtain ⟨hmax, hcount⟩ := h.2 row hrow
      refine ⟨by omega, ?_⟩
      rw [ht]
      rintro _ ⟨⟩
      refine ⟨hmax, ?_⟩
      change row.useCount + 1 = _
      omega
    | revoked ht hn =>
      refine ⟨by omega, ?_⟩
      rw [ht]
      rintro _ ⟨⟩

theorem counted (h : (enrolment digestFor b).Reaches always (atRest r₀) c) (digest : String) :
    Counted digest r₀ (successes digestFor digest c) c.state.tables := by
  apply h.invariant (P := fun c => Counted digest r₀ (successes digestFor digest c) c.state.tables)
  · change Counted digest r₀ 0 r₀
    unfold Counted
    cases h₀ : r₀.tokens.get digest with
    | none => exact ⟨rfl, rfl⟩
    | some row₀ =>
      refine ⟨Nat.zero_le _, ?_⟩
      rintro _ ⟨⟩
      exact ⟨rfl, rfl⟩
  · intro c x c' hr _ hs hc
    obtain ⟨n, hn, hu⟩ := used_step hr hs digest
    rw [hn]
    exact counted_step hc hu

theorem prog_of_succeeded {p : Call} (h : succeeded p = true) : p = .ret (.ok ()) := by
  cases p with
  | call op k => cases h
  | ret a =>
    cases a with
    | error e => cases h
    | ok u => rfl

/-- The writes of the `i`th call, all of them at once, in one step of the run up to `c`. -/
def Wrote (digestFor : String → String) (b : Backend) (r₀ : Registry) (i : ℕ) (request : Request)
    (c : Enrolments) : Prop :=
  ∃ c₁ c₂ ch now, (enrolment digestFor b).Reaches always (atRest r₀) c₁ ∧
    (enrolment digestFor b).step c₁ (.run i ch) = some c₂ ∧
    (enrolment digestFor b).Reaches always c₂ c ∧
    c₂.state.tables = request.writes digestFor now c₁.state.tables

/-- No step of the `i`th call has changed a table. -/
def WroteNothing (digestFor : String → String) (b : Backend) (r₀ : Registry) (i : ℕ)
    (c : Enrolments) : Prop :=
  ∀ c₁ c₂ ch, (enrolment digestFor b).Reaches always (atRest r₀) c₁ →
    (enrolment digestFor b).step c₁ (.run i ch) = some c₂ →
    (enrolment digestFor b).Reaches always c₂ c → c₂.state.tables = c₁.state.tables

theorem wrote_of_succeeded (h : (enrolment digestFor b).Reaches always (atRest r₀) c) :
    ∀ (i : ℕ) (t : Caller), c.threads[i]? = some t → succeeded t.prog = true →
      Wrote digestFor b r₀ i t.act c := by
  apply h.invariant (P := fun c => ∀ (i : ℕ) (t : Caller), c.threads[i]? = some t →
    succeeded t.prog = true → Wrote digestFor b r₀ i t.act c)
  · rintro i t ⟨⟩
  intro c x c' hr _ hs ih i t ht hok
  have still (ht : c.threads[i]? = some t) : Wrote digestFor b r₀ i t.act c' := by
    obtain ⟨c₁, c₂, ch, now, h₁, hstep, h₂, hw⟩ := ih i t ht hok
    exact ⟨c₁, c₂, ch, now, h₁, hstep, h₂.tail x trivial hs, hw⟩
  cases x with
  | env digest =>
    rw [(step_env hs).2.1] at ht
    exact still ht
  | start p request =>
    rw [(step_start hs).2.1] at ht
    rcases Nat.lt_or_ge i c.threads.length with hi | hi
    · exact still (by rwa [List.getElem?_append_left hi] at ht)
    · rw [List.getElem?_append_right hi] at ht
      obtain rfl := List.mem_singleton.mp (List.mem_of_getElem? ht)
      change succeeded (serve digestFor b request) = true at hok
      rw [(settles_serve digestFor b request).2] at hok
      cases hok
  | run j ch =>
    obtain ⟨op, ⟨r⟩⟩ := step_run hs
    by_cases hj : j = i
    · subst hj
      rw [r.after.1] at ht
      cases ht
      rcases run_writes hr r with ⟨hno, -⟩ | ⟨-, ⟨now, hw⟩, -⟩
      · rw [hno] at hok
        cases hok
      · exact ⟨c, c', ch, now, hr, hs, .refl, hw⟩
    · have hi := (List.getElem?_eq_some_iff.mp r.was).1
      have hthreads : c'.threads = c.threads.set j ⟨r.party, r.act, r.cont r.resp⟩ := by
        rw [r.threads]
        exact List.append_nil _
      rw [hthreads, List.getElem?_set_ne hj] at ht
      exact still ht

theorem wroteNothing_of_error {i : ℕ} {p : ℕ} {request : Request} {e : StoreError}
    (ht : c.threads[i]? = some ⟨p, request, .ret (.error e)⟩) :
    WroteNothing digestFor b r₀ i c := by
  intro c₁ c₂ ch h₁ hs h₂
  obtain ⟨op, ⟨r⟩⟩ := step_run hs
  rcases run_writes h₁ r with ⟨-, hsame⟩ | ⟨hyes, -⟩
  · exact hsame
  · have hdone := r.after.1
    rw [prog_of_succeeded hyes] at hdone
    have hstill := (h₂.finished hdone).1
    rw [ht] at hstill
    cases hstill

/-- In every interleaving, of either backend: a step changes the tables by all the writes of one call,
which then returns success, or not at all; a call that returned an error has changed nothing; a token is
used successfully at most as often as it allows. -/
theorem enrolments_all_or_nothing (digestFor : String → String) (b : Backend) (r₀ : Registry)
    {c : Enrolments} (h : (enrolment digestFor b).Reaches always (atRest r₀) c) :
    (∀ i ch c', (enrolment digestFor b).step c (.run i ch) = some c' →
      c'.state.tables = c.state.tables ∨
        ∃ p request now, c'.threads[i]? = some ⟨p, request, .ret (.ok ())⟩ ∧
          c'.state.tables = request.writes digestFor now c.state.tables) ∧
      (∀ i p request, c.threads[i]? = some ⟨p, request, .ret (.ok ())⟩ →
        Wrote digestFor b r₀ i request c) ∧
      (∀ i p request e, c.threads[i]? = some ⟨p, request, .ret (.error e)⟩ →
        WroteNothing digestFor b r₀ i c) ∧
      ∀ token, successes digestFor (digestFor token) c ≤
        (r₀.tokens.get (digestFor token)).elim 0 BootstrapToken.maxUses := by
  refine ⟨?_, fun i p request ht => wrote_of_succeeded h i _ ht rfl,
    fun i p request e ht => wroteNothing_of_error ht, ?_⟩
  · intro i ch c' hs
    obtain ⟨op, ⟨r⟩⟩ := step_run hs
    rcases run_writes h r with ⟨-, hsame⟩ | ⟨hyes, ⟨now, hw⟩, -⟩
    · exact .inl hsame
    · have hdone := r.after.1
      rw [prog_of_succeeded hyes] at hdone
      exact .inr ⟨r.party, r.act, now, hdone, hw⟩
  · intro token
    have hc := counted h (digestFor token)
    unfold Counted at hc
    cases h₀ : r₀.tokens.get (digestFor token) with
    | none =>
      simp only [h₀] at hc
      exact hc.1.le
    | some row₀ =>
      simp only [h₀] at hc
      exact hc.1.trans (Nat.sub_le _ _)

section Runs

def joining (name : String) (n : ℕ) : Request :=
  .enroll "token" name { id := ⟨n⟩, name, registeredAt := 0, incarnationStartedAt := 0 }
    { workerId := ⟨n⟩, credentialDigest := name, issuedAt := 0 }

def oneUse : Registry := { tokens := Keyed.empty.put { tokenDigest := "token", maxUses := 1 } }

/-- Two workers join with a token for one: the second waits for the first, and is refused. -/
def racingJoins : List (Action ℕ Request Choice String) :=
  [.start 0 (joining "a" 1), .start 1 (joining "b" 2)] ++ List.replicate 3 (.run 0 {}) ++
    List.replicate 2 (.run 1 {}) ++ List.replicate 3 (.run 0 {}) ++ List.replicate 3 (.run 1 {})

def afterRace : Enrolments := (enrolment id .pg).after (atRest oneUse) racingJoins

theorem one_join_of_two : successes id "token" afterRace = 1 ∧
    successes id "token" afterRace ≤ (oneUse.tokens.get "token").elim 0 BootstrapToken.maxUses :=
  ⟨by decide, (enrolments_all_or_nothing id .pg oneUse (after_reaches racingJoins)).2.2.2 "token"⟩

end Runs

end FleetOrchestrator.Enrolment
