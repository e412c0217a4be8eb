import FleetOrchestrator.Enrolment.Credentials

/-! Which credentials authenticate after any sequence of changes, and when both backends agree. -/

namespace FleetOrchestrator.Enrolment

open Core Tables Store

inductive CredentialOp where
  | upsert (credential : WorkerOperationalCredential)
  | rotate (w : WorkerId) (digest : String) (expiresAt : Option ℤ)
  | revoke (w : WorkerId)
  /-- The token is given by its digest. -/
  | enroll (digest usedBy : String) (worker : Worker) (credential : WorkerOperationalCredential)

inductive Answer where
  | done (r : Except StoreError Unit)
  | rotated (r : Except StoreError WorkerOperationalCredential)
  | revoked (found : Bool)

/-- A change, when it is made, and the order in which the map lists its entries then. -/
structure Change where
  now : ℤ
  rank : String → ℕ
  op : CredentialOp

def Change.apply (x : Change) (r : Registry) : Backend → Answer × Registry
  | .mem =>
    match x.op with
    | .upsert c => (MemStore.upsertWorkerOperationalCredential r c).map .done id
    | .rotate w digest expiresAt =>
      (MemStore.rotateWorkerOperationalCredential x.rank r x.now w digest expiresAt).map .rotated id
    | .revoke w => (MemStore.revokeWorkerOperationalCredential x.rank r x.now w).map .revoked id
    | .enroll digest usedBy worker credential =>
      (MemStore.enrollWorker r x.now digest usedBy worker credential).map .done id
  | .pg =>
    match x.op with
    | .upsert c => (PgStore.upsertWorkerOperationalCredential r c).map .done id
    | .rotate w digest expiresAt =>
      (PgStore.rotateWorkerOperationalCredential r x.now w digest expiresAt).map .rotated id
    | .revoke w => (PgStore.revokeWorkerOperationalCredential r x.now w).map .revoked id
    | .enroll digest usedBy worker credential =>
      (PgStore.enrollWorker r x.now digest usedBy worker credential).map .done id

def findActive (r : Registry) (now : ℤ) (digest : String) :
    Backend → Option WorkerOperationalCredential
  | .mem => MemStore.findActiveWorkerOperationalCredential r now digest
  | .pg => PgStore.findActiveWorkerOperationalCredential r now digest

abbrev Last := WorkerId → Option WorkerOperationalCredential

def Last.set (l : Last) (w : WorkerId) (c : Option WorkerOperationalCredential) : Last :=
  fun v => if v = w then c else l v

/-- The last credential written for each worker and not revoked since, going by the answers. -/
def remember (l : Last) : CredentialOp → Answer → Last
  | .upsert c, .done (.ok ()) => l.set c.workerId (some c)
  | .enroll _ _ _ c, .done (.ok ()) => l.set c.workerId (some c)
  | .rotate w _ _, .rotated (.ok c) => l.set w (some c)
  | .revoke w, .revoked true => l.set w none
  | _, _ => l

structure Watched where
  registry : Registry
  last : Last := fun _ => none

def Watched.step (b : Backend) (s : Watched) (x : Change) : Watched :=
  let (answer, registry) := x.apply s.registry b
  { registry, last := remember s.last x.op answer }

def Watched.run (b : Backend) (s : Watched) (xs : List Change) : Watched := xs.foldl (step b) s

/-- No credential is stored yet. -/
def noCredentials (tokens : TokenTable) (workers : WorkerTable) : Watched :=
  { registry := { tokens, workers } }

/-- A digest authenticates as a worker exactly if it is of the worker's last credential, and that is
neither revoked nor expired. -/
def Authenticates (b : Backend) (s : Watched) : Prop :=
  ∀ now digest c, findActive s.registry now digest b = some c ↔
    s.last c.workerId = some c ∧ c.credentialDigest = digest ∧ c.isActive now = true

/-- The change replaces no credential by another digest, takes no digest from another worker, and
meets what the database checks and the map does not. -/
def Plain (r : Registry) (x : Change) : Prop :=
  match x.op with
  | .upsert c => 1 ≤ c.rotationGeneration ∧ r.workers.contains c.workerId = true ∧
    ∀ y ∈ r.credentials.rows, y.workerId = c.workerId ↔ y.credentialDigest = c.credentialDigest
  | .rotate w digest _ => ∀ y ∈ r.credentials.rows, y.credentialDigest = digest → y.workerId = w
  | .revoke _ => True
  | .enroll digest _ worker credential =>
    (∀ t, r.tokens.get digest = some t → t.expiresAt ≠ some x.now) ∧
      r.workers.contains worker.id = false ∧ 1 ≤ credential.rotationGeneration ∧
      (credential.workerId = worker.id ∨ r.workers.contains credential.workerId = true) ∧
      ∀ y ∈ r.credentials.rows, y.workerId ≠ credential.workerId

/-- Every change of the run is plain where it is made. -/
def PlainRun (s : Watched) : List Change → Prop
  | [] => True
  | x :: xs => Plain s.registry x ∧ PlainRun (s.step .mem x) xs

/-- No worker has two credentials. -/
def OneEach (r : Registry) : Prop :=
  ∀ x ∈ r.credentials.rows, ∀ y ∈ r.credentials.rows, x.workerId = y.workerId → x = y

section Pg

variable {r : Registry} {l : Last} {s : Watched}

theorem rowOf_some {w : WorkerId} {c : WorkerOperationalCredential}
    (h : PgStore.rowOf r w = some c) : c ∈ r.credentials.rows ∧ c.workerId = w :=
  ⟨List.mem_of_find?_eq_some h, by simpa using List.find?_some h⟩

theorem rowOf_none {w : WorkerId} (h : PgStore.rowOf r w = none) :
    ∀ c ∈ r.credentials.rows, c.workerId ≠ w := by
  intro c hc
  have := List.find?_eq_none.mp h c hc
  simpa using this

theorem mem_put {t : CredentialTable} {c x : WorkerOperationalCredential} :
    x ∈ (t.put c).rows ↔ x = c ∨ x ∈ t.rows ∧ x.credentialDigest ≠ c.credentialDigest := by
  simp only [Keyed.put, Keyed.erase, Keyed.eraseWhere, List.mem_append, List.mem_filter,
    List.mem_singleton, Bool.not_eq_true', decide_eq_false_iff_not]
  tauto

/-- With no other holder of the digest, the rows are the others' and the new one. -/
theorem mem_replaceRow {c x : WorkerOperationalCredential}
    (h : PgStore.heldByOther r c.workerId c.credentialDigest = false) :
    x ∈ (PgStore.replaceRow r c).credentials.rows ↔
      x = c ∨ x ∈ r.credentials.rows ∧ x.workerId ≠ c.workerId := by
  have hfree : ∀ y ∈ r.credentials.rows, y.credentialDigest = c.credentialDigest →
      y.workerId = c.workerId := by
    intro y hy hd
    have hget : r.credentials.get c.credentialDigest = some y := by
      rw [← hd]
      exact Keyed.get_of_mem hy
    rw [PgStore.heldByOther, hget] at h
    simpa using h
  simp only [PgStore.replaceRow, mem_put, Keyed.eraseWhere, List.mem_filter, Bool.not_eq_true',
    decide_eq_false_iff_not]
  constructor
  · rintro (rfl | ⟨⟨hx, hw⟩, -⟩)
    · exact .inl rfl
    · exact .inr ⟨hx, hw⟩
  · rintro (rfl | ⟨hx, hw⟩)
    · exact .inl rfl
    · exact .inr ⟨⟨hx, hw⟩, fun hd => hw (hfree x hx hd)⟩

/-- What the memory of the answers and the rows have to do with each other. -/
structure Kept (s : Watched) : Prop where
  one : OneEach s.registry
  last : ∀ c, c.revokedAt = none →
    (c ∈ s.registry.credentials.rows ↔ s.last c.workerId = some c)

theorem kept_replaced {c : WorkerOperationalCredential} {registry : Registry} (h : Kept s)
    (hrows : ∀ x, x ∈ registry.credentials.rows ↔
      x = c ∨ x ∈ s.registry.credentials.rows ∧ x.workerId ≠ c.workerId) :
    Kept { registry, last := s.last.set c.workerId (some c) } := by
  constructor
  · intro x hx y hy he
    rcases (hrows x).mp hx with rfl | ⟨hx, hxw⟩
    · rcases (hrows y).mp hy with rfl | ⟨-, hyw⟩
      · rfl
      · exact absurd he.symm hyw
    · rcases (hrows y).mp hy with rfl | ⟨hy, -⟩
      · exact absurd he hxw
      · exact h.one x hx y hy he
  · intro x hx
    rw [hrows]
    simp only [Last.set]
    by_cases hw : x.workerId = c.workerId
    · rw [if_pos hw]
      constructor
      · rintro (rfl | ⟨-, hne⟩)
        · rfl
        · exact absurd hw hne
      · intro he
        exact .inl (Option.some.inj he).symm
    · rw [if_neg hw, ← h.last x hx]
      constructor
      · rintro (rfl | ⟨hm, -⟩)
        · exact absurd rfl hw
        · exact hm
      · exact fun hm => .inr ⟨hm, hw⟩

theorem mem_revoke {now : ℤ} {w : WorkerId} {x : WorkerOperationalCredential}
    (hx : x.revokedAt = none) :
    x ∈ (PgStore.revokeWorkerOperationalCredential r now w).2.credentials.rows ↔
      x ∈ r.credentials.rows ∧ x.workerId ≠ w := by
  simp only [PgStore.revokeWorkerOperationalCredential, Keyed.updateWhere, List.mem_map]
  constructor
  · rintro ⟨y, hy, he⟩
    split_ifs at he with hw
    · rw [← he] at hx
      cases hx
    · subst he
      refine ⟨hy, fun hw' => hw ?_⟩
      simp [hw', hx]
  · rintro ⟨hm, hw⟩
    exact ⟨x, hm, if_neg (by simp [hw])⟩

theorem one_revoke {now : ℤ} {w : WorkerId} (h : OneEach r) :
    OneEach (PgStore.revokeWorkerOperationalCredential r now w).2 := by
  have worker (y : WorkerOperationalCredential) :
      (if (y.workerId = w && y.revokedAt.isNone) = true then y.revoked now else y).workerId =
        y.workerId := by
    split_ifs <;> rfl
  intro x hx y hy he
  simp only [PgStore.revokeWorkerOperationalCredential, Keyed.updateWhere, List.mem_map] at hx hy
  obtain ⟨x, hx, rfl⟩ := hx
  obtain ⟨y, hy, rfl⟩ := hy
  rw [worker, worker] at he
  rw [h x hx y hy he]

theorem kept_revoke (h : Kept s) (now : ℤ) (w : WorkerId) :
    Kept
      { registry := (PgStore.revokeWorkerOperationalCredential s.registry now w).2,
        last := remember s.last (.revoke w)
          (.revoked (PgStore.revokeWorkerOperationalCredential s.registry now w).1) } := by
  refine ⟨one_revoke h.one, fun c hc => ?_⟩
  rw [mem_revoke hc]
  cases hfound : (PgStore.revokeWorkerOperationalCredential s.registry now w).1 with
  | true =>
    simp only [remember, Last.set]
    by_cases hw : c.workerId = w
    · simp [hw]
    · rw [if_neg hw, ← h.last c hc]
      exact and_iff_left hw
  | false =>
    -- nothing was revoked because nothing was active
    have hnone : ∀ y ∈ s.registry.credentials.rows, y.workerId = w → y.revokedAt ≠ none := by
      intro y hy hw hr
      have hactive : (decide (y.workerId = w) && y.revokedAt.isNone) = true := by simp [hw, hr]
      have hzero := of_decide_eq_false hfound
      exact hzero (Keyed.rowsAffected_pos.mpr ⟨y, hy, hactive⟩)
    change _ ↔ s.last c.workerId = some c
    rw [← h.last c hc]
    exact and_iff_left_of_imp fun hm hw => hnone c hm hw hc

theorem enrollPg_cases (now : ℤ) (digest usedBy : String) (worker : Worker)
    (c : WorkerOperationalCredential) :
    (∃ e, PgStore.enrollWorker r now digest usedBy worker c = (.error e, r)) ∨
      PgStore.enrollWorker r now digest usedBy worker c =
          (.ok (), r.enrolled digest usedBy now worker c) ∧
        PgStore.rowOf r c.workerId = none ∧ r.credentials.contains c.credentialDigest = false := by
  unfold PgStore.enrollWorker
  rcases hu : PgStore.useToken r now digest usedBy with ⟨consumed, used⟩
  unfold PgStore.useToken at hu
  dsimp only
  split_ifs at hu with hm
  · cases hu
    rw [if_neg (by simp)]
    cases hw : PgStore.insertWorkerRefusal (r.useToken digest usedBy now) worker with
    | some e => exact .inl ⟨e, rfl⟩
    | none =>
      dsimp only
      cases hc : PgStore.insertCredentialRefusal
          { r.useToken digest usedBy now with workers := (r.useToken digest usedBy now).workers.put worker }
          c with
      | some e => exact .inl ⟨e, rfl⟩
      | none =>
        unfold PgStore.insertCredentialRefusal at hc
        split_ifs at hc with hg hrow hd hf
        exact .inr ⟨rfl, Option.not_isSome_iff_eq_none.mp hrow, Bool.eq_false_of_not_eq_true hd⟩
  · cases hu
    exact .inl ⟨_, rfl⟩

theorem kept_enrolled {now : ℤ} {digest usedBy : String} {worker : Worker}
    {c : WorkerOperationalCredential} (h : Kept s)
    (hrow : PgStore.rowOf s.registry c.workerId = none)
    (hd : s.registry.credentials.contains c.credentialDigest = false) :
    Kept
      { registry := s.registry.enrolled digest usedBy now worker c,
        last := s.last.set c.workerId (some c) } := by
  apply kept_replaced h
  intro x
  change x ∈ (s.registry.credentials.put c).rows ↔ _
  rw [mem_put]
  apply or_congr_right
  constructor
  · rintro ⟨hx, -⟩
    exact ⟨hx, rowOf_none hrow x hx⟩
  · rintro ⟨hx, -⟩
    refine ⟨hx, fun he => ?_⟩
    have hn := List.any_eq_false.mp hd x hx
    simp [he] at hn

theorem kept_pg (h : Kept s) (x : Change) : Kept (s.step .pg x) := by
  obtain ⟨now, rank, op⟩ := x
  have same {a : Answer} (ha : remember s.last op a = s.last) :
      Kept { registry := s.registry, last := remember s.last op a } := by
    rw [ha]
    exact ⟨h.one, h.last⟩
  simp only [Watched.step, Change.apply]
  cases op with
  | revoke w => exact kept_revoke h now w
  | upsert c =>
    dsimp only
    unfold PgStore.upsertWorkerOperationalCredential
    split_ifs with hg hheld hf
    · exact same rfl
    · exact same rfl
    · exact same rfl
    · exact kept_replaced h fun x => mem_replaceRow (by simpa using hheld)
  | rotate w digest expiresAt =>
    dsimp only
    unfold PgStore.rotateWorkerOperationalCredential
    cases hrow : PgStore.rowOf s.registry w with
    | none => exact same rfl
    | some c =>
      obtain rfl := (rowOf_some hrow).2
      dsimp only
      split_ifs with hheld
      · exact same rfl
      · exact kept_replaced (c := c.rotated digest expiresAt now) h fun x =>
          mem_replaceRow (c := c.rotated digest expiresAt now) (Bool.eq_false_of_not_eq_true hheld)
  | enroll digest usedBy worker c =>
    dsimp only
    rcases enrollPg_cases (r := s.registry) now digest usedBy worker c with ⟨e, he⟩ | ⟨he, hrow, hd⟩
    · rw [he]
      exact same rfl
    · rw [he]
      exact kept_enrolled h hrow hd

theorem findActive_some {b : Backend} {now : ℤ} {digest : String} {c : WorkerOperationalCredential} :
    findActive r now digest b = some c ↔
      c ∈ r.credentials.rows ∧ c.credentialDigest = digest ∧ c.isActive now = true := by
  have hget : r.credentials.get digest = some c ↔
      c ∈ r.credentials.rows ∧ c.credentialDigest = digest := Keyed.get_eq_some
  cases b with
  | mem =>
    change (r.credentials.get digest).filter _ = some c ↔ _
    rw [Option.filter_eq_some_iff, hget, and_assoc]
  | pg =>
    change r.credentials.rows.find? _ = some c ↔ _
    constructor
    · intro hf
      have hp := List.find?_some hf
      simp only [Bool.and_eq_true, decide_eq_true_eq] at hp
      exact ⟨List.mem_of_find?_eq_some hf, hp⟩
    · rintro ⟨hm, hd, ha⟩
      cases hf : r.credentials.rows.find? fun c => c.credentialDigest = digest && c.isActive now with
      | none =>
        have hn := List.find?_eq_none.mp hf c hm
        simp [hd, ha] at hn
      | some c' =>
        have hp := List.find?_some hf
        simp only [Bool.and_eq_true, decide_eq_true_eq] at hp
        have hsame := Keyed.get_of_mem (List.mem_of_find?_eq_some hf)
        rw [hp.1, hget.mpr ⟨hm, hd⟩] at hsame
        exact hsame.symm

theorem authenticates_of_kept (b : Backend) (h : Kept s) : Authenticates b s := by
  intro now digest c
  rw [findActive_some]
  constructor
  · rintro ⟨hm, hd, ha⟩
    have hr : c.revokedAt = none := by
      simp only [WorkerOperationalCredential.isActive, Bool.and_eq_true, Option.isNone_iff_eq_none]
        at ha
      exact ha.1
    exact ⟨(h.last c hr).mp hm, hd, ha⟩
  · rintro ⟨hl, hd, ha⟩
    have hr : c.revokedAt = none := by
      simp only [WorkerOperationalCredential.isActive, Bool.and_eq_true, Option.isNone_iff_eq_none]
        at ha
      exact ha.1
    exact ⟨(h.last c hr).mpr hl, hd, ha⟩

end Pg

section Agreement

variable {r : Registry}

/-- Where no worker has two credentials, the order of the map's entries does not matter. -/
theorem credentialOf_eq (h : OneEach r) (rank : String → ℕ) (w : WorkerId)
    (p : WorkerOperationalCredential → Bool) :
    r.credentialOf rank w p = (PgStore.rowOf r w).filter p := by
  have hmem (c : WorkerOperationalCredential) :
      c ∈ inOrder rank WorkerOperationalCredential.credentialDigest r.credentials.rows ↔
        c ∈ r.credentials.rows := mem_inOrder
  cases hrow : PgStore.rowOf r w with
  | none =>
    apply List.find?_eq_none.mpr
    intro c hc
    simp [rowOf_none hrow c ((hmem c).mp hc)]
  | some c =>
    obtain ⟨hc, hw⟩ := rowOf_some hrow
    have honly : ∀ y ∈ r.credentials.rows, y.workerId = w → y = c :=
      fun y hy he => h y hy c hc (he.trans hw.symm)
    rw [Option.filter_some]
    unfold Registry.credentialOf
    split_ifs with hp
    · cases hf : (inOrder rank WorkerOperationalCredential.credentialDigest
          r.credentials.rows).find? fun c => c.workerId = w && p c with
      | none =>
        have hn := List.find?_eq_none.mp hf c ((hmem c).mpr hc)
        simp [hw, hp] at hn
      | some y =>
        have hy := List.find?_some hf
        simp only [Bool.and_eq_true, decide_eq_true_eq] at hy
        rw [honly y ((hmem y).mp (List.mem_of_find?_eq_some hf)) hy.1]
    · apply List.find?_eq_none.mpr
      intro y hy
      by_cases he : y.workerId = w
      · simp [honly y ((hmem y).mp hy) he, hp]
      · simp [he]

theorem upsert_agrees {c : WorkerOperationalCredential} {now : ℤ} {rank : String → ℕ}
    (hp : Plain r ⟨now, rank, .upsert c⟩) :
    PgStore.upsertWorkerOperationalCredential r c =
      MemStore.upsertWorkerOperationalCredential r c := by
  obtain ⟨hg, hworker, hrows⟩ := hp
  have hheld : PgStore.heldByOther r c.workerId c.credentialDigest = false := by
    unfold PgStore.heldByOther
    cases hget : r.credentials.get c.credentialDigest with
    | none => rfl
    | some y =>
      obtain ⟨hy, hd⟩ := Keyed.get_eq_some.mp hget
      simp [(hrows y hy).mpr hd]
  have hsame : (r.credentials.eraseWhere fun x => x.workerId = c.workerId).put c =
      r.credentials.put c := by
    apply Keyed.ext
    simp only [Keyed.put, Keyed.erase, Keyed.eraseWhere, List.filter_filter]
    congr 1
    apply List.filter_congr
    intro y hy
    have := hrows y hy
    by_cases hd : y.credentialDigest = c.credentialDigest <;> simp [hd, this]
  unfold PgStore.upsertWorkerOperationalCredential
  rw [if_neg (by omega), if_neg (by simp [hheld]), if_neg (by simp [hworker]), PgStore.replaceRow,
    hsame]
  rfl

theorem rotate_agrees (h : OneEach r) {w : WorkerId} {digest : String} {expiresAt : Option ℤ}
    {now : ℤ} {rank : String → ℕ} (hp : Plain r ⟨now, rank, .rotate w digest expiresAt⟩) :
    PgStore.rotateWorkerOperationalCredential r now w digest expiresAt =
      MemStore.rotateWorkerOperationalCredential rank r now w digest expiresAt := by
  unfold PgStore.rotateWorkerOperationalCredential MemStore.rotateWorkerOperationalCredential
  rw [credentialOf_eq h]
  cases hrow : PgStore.rowOf r w with
  | none => rfl
  | some c =>
    obtain ⟨hc, hw⟩ := rowOf_some hrow
    have hheld : PgStore.heldByOther r w digest = false := by
      unfold PgStore.heldByOther
      cases hget : r.credentials.get digest with
      | none => rfl
      | some y =>
        obtain ⟨hy, hd⟩ := Keyed.get_eq_some.mp hget
        simp [hp y hy hd]
    have hsame : (r.credentials.eraseWhere fun x => x.workerId = c.workerId) =
        r.credentials.erase c.credentialDigest := by
      apply Keyed.ext
      apply List.filter_congr
      intro y hy
      by_cases hd : y.credentialDigest = c.credentialDigest
      · have he := Keyed.get_of_mem hy
        rw [hd, Keyed.get_of_mem hc] at he
        cases he
        simp
      · have hne : y.workerId ≠ c.workerId := fun he => hd (by rw [h y hy c hc he])
        simp [hd, hne]
    simp only [Option.filter_some, if_true, hheld]
    rw [if_neg (by simp), PgStore.replaceRow]
    change _ = ((Except.ok (c.rotated digest expiresAt now) : Except StoreError _),
      { r with credentials :=
          (r.credentials.erase c.credentialDigest).put (c.rotated digest expiresAt now) })
    rw [← hsame]
    rfl

theorem revoke_agrees (h : OneEach r) (now : ℤ) (rank : String → ℕ) (w : WorkerId) :
    PgStore.revokeWorkerOperationalCredential r now w =
      MemStore.revokeWorkerOperationalCredential rank r now w := by
  unfold PgStore.revokeWorkerOperationalCredential MemStore.revokeWorkerOperationalCredential
  rw [credentialOf_eq h]
  cases hf : (PgStore.rowOf r w).filter fun c => c.revokedAt.isNone with
  | none =>
    have hnone : ∀ x ∈ r.credentials.rows, (decide (x.workerId = w) && x.revokedAt.isNone) =
        false := by
      intro x hx
      by_cases hw : x.workerId = w
      · cases hrow : PgStore.rowOf r w with
        | none => exact absurd hw (rowOf_none hrow x hx)
        | some c =>
          obtain ⟨hc, hcw⟩ := rowOf_some hrow
          rw [hrow, h c hc x hx (hcw.trans hw.symm)] at hf
          simp only [Option.filter_eq_none_iff, Option.some.injEq, forall_eq'] at hf
          rw [Bool.eq_false_of_not_eq_true hf, Bool.and_false]
      · simp [hw]
    have hzero : ¬ 0 < r.credentials.rowsAffected fun x =>
        decide (x.workerId = w) && x.revokedAt.isNone := by
      rw [Keyed.rowsAffected_pos]
      rintro ⟨x, hx, hu⟩
      rw [hnone x hx] at hu
      cases hu
    dsimp only
    rw [decide_eq_false hzero, Keyed.updateWhere_of_none hnone]
  | some c =>
    obtain ⟨hrow, hactive⟩ := Option.filter_eq_some_iff.mp hf
    obtain ⟨hc, rfl⟩ := rowOf_some hrow
    have hpos : 0 < r.credentials.rowsAffected fun x =>
        decide (x.workerId = c.workerId) && x.revokedAt.isNone :=
      Keyed.rowsAffected_pos.mpr ⟨c, hc, by simpa using hactive⟩
    have hkey : ∀ x ∈ r.credentials.rows,
        (decide (x.workerId = c.workerId) && x.revokedAt.isNone) = true ↔
          x.credentialDigest = c.credentialDigest := by
      intro x hx
      constructor
      · intro hu
        simp only [Bool.and_eq_true, decide_eq_true_eq] at hu
        rw [h x hx c hc hu.1]
      · intro hd
        have he := Keyed.get_of_mem hx
        rw [hd, Keyed.get_of_mem hc] at he
        cases he
        simpa using hactive
    dsimp only
    rw [decide_eq_true hpos, Keyed.updateWhere_eq_modify _ hkey]

theorem isUsable_eq {t : BootstrapToken} {now : ℤ} (h : t.expiresAt ≠ some now) :
    t.matchesUse now = t.isUsable now := by
  unfold BootstrapToken.matchesUse BootstrapToken.isUsable
  by_cases hu : t.useCount ≥ t.maxUses
  · rw [if_pos hu, decide_eq_false (by omega), Bool.false_and]
  · rw [if_neg hu, decide_eq_true (by omega), Bool.true_and]
    cases he : t.expiresAt with
    | none => rfl
    | some exp =>
      have hne : exp ≠ now := fun hn => h (by rw [he, hn])
      by_cases hlt : now > exp
      · simp [hlt, hlt.le]
      · have hgt : now < exp := lt_of_le_of_ne (not_lt.mp hlt) (Ne.symm hne)
        simp [hgt, hgt.le]

/-- Both refuse, in their own words and without a trace, or both make the same writes. -/
theorem enroll_agrees {now : ℤ} {rank : String → ℕ} {digest usedBy : String} {worker : Worker}
    {c : WorkerOperationalCredential} (hp : Plain r ⟨now, rank, .enroll digest usedBy worker c⟩) :
    PgStore.enrollWorker r now digest usedBy worker c =
        MemStore.enrollWorker r now digest usedBy worker c ∨
      ∃ e e', PgStore.enrollWorker r now digest usedBy worker c = (.error e, r) ∧
        MemStore.enrollWorker r now digest usedBy worker c = (.error e', r) := by
  obtain ⟨htoken, hworker, hg, hknown, hnew⟩ := hp
  unfold PgStore.enrollWorker MemStore.enrollWorker PgStore.useToken
  cases hrow : r.tokens.get digest with
  | none => exact .inr ⟨_, _, rfl, rfl⟩
  | some t =>
    rw [Option.any_some, isUsable_eq (htoken t hrow)]
    dsimp only
    cases t.isUsable now with
    | false => exact .inr ⟨_, _, rfl, rfl⟩
    | true =>
      have hrefused : PgStore.insertWorkerRefusal (r.useToken digest usedBy now) worker =
          if r.workers.rows.any fun w => w.name = worker.name then
            some (.conflict ("worker name already exists: " ++
              PgStore.duplicateKey "workers_name_key"))
          else none := by
        change (if r.workers.contains worker.id = true then _ else _) = _
        rw [if_neg (by simp [hworker])]
        rfl
      simp only [if_true, Bool.not_true, Bool.false_eq_true, if_false, hrefused]
      by_cases hname : (r.workers.rows.any fun w => w.name = worker.name) = true
      · rw [if_pos hname, if_pos hname]
        exact .inr ⟨_, _, rfl, rfl⟩
      · rw [if_neg hname, if_neg hname]
        have hnone : PgStore.rowOf r c.workerId = none := by
          apply List.find?_eq_none.mpr
          intro y hy
          simpa using hnew y hy
        have hthere : (r.workers.put worker).contains c.workerId = true := by
          rw [Keyed.contains_eq]
          rcases hknown with hw | hw
          · rw [hw, Keyed.get_put_self]
            rfl
          · have hne : c.workerId ≠ worker.id := by
              intro he
              rw [he, hworker] at hw
              cases hw
            rw [Keyed.get_put_ne hne, ← Keyed.contains_eq]
            exact hw
        have hrefusal : PgStore.insertCredentialRefusal
            { r.useToken digest usedBy now with
              workers := (r.useToken digest usedBy now).workers.put worker } c =
            if r.credentials.contains c.credentialDigest then
              some (.conflict ("credential digest already exists: " ++ PgStore.digestKey))
            else none := by
          change (if c.rotationGeneration < 1 then _ else
            if (PgStore.rowOf r c.workerId).isSome = true then _ else
            if r.credentials.contains c.credentialDigest = true then _ else
            if (!(r.workers.put worker).contains c.workerId) = true then _ else _) = _
          rw [if_neg (by omega), if_neg (by simp [hnone])]
          congr 1
          rw [hthere]
          rfl
        dsimp only
        rw [hrefusal]
        by_cases hd : r.credentials.contains c.credentialDigest = true
        · rw [if_pos hd, if_pos hd]
          exact .inr ⟨_, _, rfl, rfl⟩
        · rw [if_neg hd, if_neg hd]
          exact .inl rfl

end Agreement

section Runs

variable {s : Watched} {x : Change} {xs : List Change}

@[simp] theorem run_cons (b : Backend) : s.run b (x :: xs) = (s.step b x).run b xs := rfl

theorem step_agrees (h : OneEach s.registry) (hp : Plain s.registry x) :
    s.step .mem x = s.step .pg x := by
  obtain ⟨now, rank, op⟩ := x
  unfold Watched.step Change.apply
  cases op with
  | upsert c =>
    dsimp only
    rw [upsert_agrees hp]
  | rotate w digest expiresAt =>
    dsimp only
    rw [rotate_agrees h hp]
  | revoke w =>
    dsimp only
    rw [revoke_agrees h]
  | enroll digest usedBy worker c =>
    dsimp only
    rcases enroll_agrees hp with he | ⟨e, e', hpg, hmem⟩
    · rw [he]
    · rw [hpg, hmem]
      rfl

theorem kept_run (h : Kept s) : Kept (s.run .pg xs) := by
  induction xs generalizing s with
  | nil => exact h
  | cons x xs ih => exact ih (kept_pg h x)

theorem run_agrees (h : Kept s) (hp : PlainRun s xs) : s.run .mem xs = s.run .pg xs := by
  induction xs generalizing s with
  | nil => rfl
  | cons x xs ih =>
    obtain ⟨hx, hxs⟩ := hp
    have hstep := step_agrees h.one hx
    rw [run_cons, run_cons, ih (hstep ▸ kept_pg h x) hxs, hstep]

theorem kept_noCredentials (tokens : TokenTable) (workers : WorkerTable) :
    Kept (noCredentials tokens workers) := by
  constructor
  · intro x hx
    cases hx
  · intro c hc
    constructor <;> intro hn <;> cases hn

end Runs

theorem only_last_authenticates (tokens : TokenTable) (workers : WorkerTable) (xs : List Change) :
    let start := noCredentials tokens workers
    Authenticates .pg (start.run .pg xs) ∧
      (PlainRun start xs → Authenticates .mem (start.run .mem xs) ∧
        ∀ now digest, findActive (start.run .mem xs).registry now digest .mem =
          findActive (start.run .pg xs).registry now digest .pg) := by
  have hkept : Kept ((noCredentials tokens workers).run .pg xs) :=
    kept_run (kept_noCredentials tokens workers)
  refine ⟨authenticates_of_kept .pg hkept, fun hp => ?_⟩
  rw [run_agrees (kept_noCredentials tokens workers) hp]
  refine ⟨authenticates_of_kept .mem hkept, fun now digest => ?_⟩
  apply Option.ext
  intro c
  rw [findActive_some, findActive_some]

section Examples

def known (w : WorkerId) : Worker :=
  { id := w, name := "w", registeredAt := 0, incarnationStartedAt := 0 }

def credential (digest : String) : WorkerOperationalCredential :=
  { workerId := ⟨1⟩, credentialDigest := digest, issuedAt := 0 }

def startWith : Watched := noCredentials .empty (Keyed.empty.put (known ⟨1⟩))

def upserting (digest : String) : Change := ⟨0, fun _ => 0, .upsert (credential digest)⟩

/-- A rotation leaves one credential, and a revocation none. -/
theorem rotated_then_revoked :
    let xs := [upserting "a", ⟨1, fun _ => 0, .rotate ⟨1⟩ "b" none⟩]
    PlainRun startWith xs ∧ Authenticates .mem (startWith.run .mem xs) ∧
      (startWith.run .mem xs).last ⟨1⟩ = some ((credential "a").rotated "b" none 1) := by
  intro xs
  have hp : PlainRun startWith xs := by
    refine ⟨⟨le_refl _, rfl, fun y hy => ?_⟩, fun y hy hd => ?_, trivial⟩
    · cases hy
    · rw [List.mem_singleton.mp (show y ∈ [credential "a"] from hy)] at hd ⊢
      rfl
  exact ⟨hp, ((only_last_authenticates _ _ xs).2 hp).1, rfl⟩

/-- The secret an upsert replaces still opens the door in memory. -/
theorem replaced_still_authenticates :
    ¬ ∀ b tokens workers xs, Authenticates b ((noCredentials tokens workers).run b xs) := by
  intro h
  have hold := (h .mem .empty (Keyed.empty.put (known ⟨1⟩)) [upserting "a", upserting "b"] 0 "a"
    (credential "a")).mp (by decide)
  exact absurd hold.1 (by decide)

end Examples

end FleetOrchestrator.Enrolment
