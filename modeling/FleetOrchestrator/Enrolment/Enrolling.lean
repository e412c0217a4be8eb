import FleetOrchestrator.Enrolment.Credentials
import FleetOrchestrator.Interleaving.Discipline

/-! Enrolments by any number of callers at once. In memory one locked section does all of it; in the
database it is a transaction, whose writes nobody else sees before its end and which holds the rows
it has written until then. -/

namespace FleetOrchestrator.Enrolment

open Core Tables Store Interleaving

inductive Statement where
  | enrollLocked (digest usedBy : String) (worker : Worker)
    (credential : WorkerOperationalCredential)
  | consumeLocked (digest usedBy : String)
  | begin_
  | readClock
  | useToken (digest usedBy : String) (now : ℤ)
  | selectToken (digest : String)
  | insertWorker (worker : Worker)
  | insertCredential (credential : WorkerOperationalCredential)
  | commit
  | rollback
  /-- The same update as a transaction of its own. -/
  | useTokenNow (digest usedBy : String) (now : ℤ)

abbrev Statement.Resp : Statement → Type
  | .readClock => ℤ
  | .useToken _ _ _ | .selectToken _ | .useTokenNow _ _ _ => Except StoreError Bool
  | .rollback => Unit
  | _ => Except StoreError Unit

abbrev Call := Prog Statement Statement.Resp (Except StoreError Unit)

def execute (op : Statement) : Prog Statement Statement.Resp op.Resp := Prog.perform op

namespace MemStore

def enroll (digest usedBy : String) (worker : Worker) (credential : WorkerOperationalCredential) :
    Call := execute (.enrollLocked digest usedBy worker credential)

def consume (digest usedBy : String) : Call := execute (.consumeLocked digest usedBy)

end MemStore

namespace PgStore

/-- The transaction is dropped, and rolls back. -/
def giveUp (e : StoreError) : Call := do
  execute .rollback
  return .error e

def enroll (digest usedBy : String) (worker : Worker) (credential : WorkerOperationalCredential) :
    Call := do
  match ← execute .begin_ with
  | .error e => return .error e
  | .ok () =>
    let now ← execute .readClock
    match ← execute (.useToken digest usedBy now) with
    | .error e => giveUp e
    | .ok false =>
      match ← execute (.selectToken digest) with
      | .error e => giveUp e
      | .ok exists_ => giveUp (useRefused exists_)
    | .ok true =>
      match ← execute (.insertWorker worker) with
      | .error e => giveUp e
      | .ok () =>
        match ← execute (.insertCredential credential) with
        | .error e => giveUp e
        | .ok () => execute .commit

def consume (digest usedBy : String) : Call := do
  let now ← execute .readClock
  match ← execute (.useTokenNow digest usedBy now) with
  | .error e => return .error e
  | .ok true => return .ok ()
  | .ok false =>
    match ← execute (.selectToken digest) with
    | .error e => return .error e
    | .ok exists_ => return .error (useRefused exists_)

end PgStore

inductive Request where
  | enroll (token usedBy : String) (worker : Worker) (credential : WorkerOperationalCredential)
  | consume (token usedBy : String)

def Request.token : Request → String
  | enroll token _ _ _ | consume token _ => token

def serve (digestFor : String → String) : Backend → Request → Call
  | .mem, .enroll token usedBy worker credential =>
    MemStore.enroll (digestFor token) usedBy worker credential
  | .pg, .enroll token usedBy worker credential =>
    PgStore.enroll (digestFor token) usedBy worker credential
  | .mem, .consume token usedBy => MemStore.consume (digestFor token) usedBy
  | .pg, .consume token usedBy => PgStore.consume (digestFor token) usedBy

structure TokenUse where
  digest : String
  usedBy : String
  now : ℤ

/-- What a transaction has written and not yet committed. -/
structure Tx where
  connection : ℕ
  use : Option TokenUse := none
  worker : Option Worker := none
  credential : Option WorkerOperationalCredential := none

abbrev TxTable := Keyed ℕ Tx Tx.connection

def Tx.apply (t : Tx) (r : Registry) : Registry :=
  let r := t.use.elim r fun u => r.useToken u.digest u.usedBy u.now
  let r := t.worker.elim r fun w => { r with workers := r.workers.put w }
  t.credential.elim r fun c => { r with credentials := r.credentials.put c }

structure Db where
  tables : Registry
  transactions : TxTable := .empty
  connections : List ℕ := []

namespace Db

def change (s : Db) (p : ℕ) (f : Tx → Tx) (hf : ∀ t, (f t).connection = t.connection) : Db :=
  { s with transactions := s.transactions.modify p f hf }

def close (s : Db) (p : ℕ) : Db := { s with transactions := s.transactions.erase p }

/-- Another transaction has written the row, or a row of the same key. -/
def heldByOther (s : Db) (p : ℕ) (holds : Tx → Bool) : Bool :=
  s.transactions.rows.any fun t => t.connection ≠ p && holds t

/-- Some open transaction has used the token. -/
def tokenUsed (s : Db) (digest : String) : Bool :=
  s.transactions.rows.any fun t => t.use.any fun u => u.digest = digest

def tokenHeld (s : Db) (p : ℕ) (digest : String) : Bool :=
  s.heldByOther p fun t => t.use.any fun u => u.digest = digest

def workerHeld (s : Db) (p : ℕ) (worker : Worker) : Bool :=
  s.heldByOther p fun t => t.worker.any fun w => w.id = worker.id || w.name = worker.name

def credentialHeld (s : Db) (p : ℕ) (credential : WorkerOperationalCredential) : Bool :=
  s.heldByOther p fun t => t.credential.any fun c =>
    c.workerId = credential.workerId || c.credentialDigest = credential.credentialDigest

/-- The tables as the transaction sees them. -/
def seen (s : Db) (p : ℕ) : Registry := (s.transactions.get p).elim s.tables fun t => t.apply s.tables

end Db

/-- The clock that a statement reads, and the error of a statement that fails for other reasons. -/
structure Choice where
  now : ℤ := 0
  fault : Option StoreError := none

/-- A statement that fails for reasons of its own leaves everything as it was. -/
def attempt {α : Type} (ch : Choice) (s : Db) (k : Option (Except StoreError α × Db)) :
    Option (Except StoreError α × Db) :=
  match ch.fault with
  | some e => some (.error e, s)
  | none => k

/-- What the statement answers and leaves; a statement on a row that is held waits. -/
def exec (ch : Choice) (p : ℕ) : (op : Statement) → Db → Option (op.Resp × Db)
  | .enrollLocked digest usedBy worker credential, s =>
    let (answer, tables) := MemStore.enrollWorker s.tables ch.now digest usedBy worker credential
    some (answer, { s with tables })
  | .consumeLocked digest usedBy, s =>
    let (answer, tables) := MemStore.consumeBootstrapToken s.tables ch.now digest usedBy
    some (answer, { s with tables })
  | .readClock, s => some (ch.now, s)
  | .rollback, s => some ((), s.close p)
  | .begin_, s =>
    attempt ch s (some (.ok (), { s with transactions := s.transactions.put { connection := p } }))
  | .useToken digest usedBy now, s =>
    attempt ch s <|
      if s.tokenHeld p digest then none
      else if (s.tables.tokens.get digest).any fun t => t.matchesUse now then
        some (.ok true,
          s.change p (fun t => { t with use := some ⟨digest, usedBy, now⟩ }) fun _ => rfl)
      else some (.ok false, s)
  | .selectToken digest, s => attempt ch s (some (.ok (s.tables.tokens.contains digest), s))
  | .insertWorker worker, s =>
    attempt ch s <|
      if s.workerHeld p worker then none
      else match PgStore.insertWorkerRefusal (s.seen p) worker with
        | some e => some (.error e, s)
        | none => some (.ok (), s.change p (fun t => { t with worker := some worker }) fun _ => rfl)
  | .insertCredential credential, s =>
    attempt ch s <|
      if s.credentialHeld p credential then none
      else match PgStore.insertCredentialRefusal (s.seen p) credential with
        | some e => some (.error e, s)
        | none =>
          some (.ok (), s.change p (fun t => { t with credential := some credential }) fun _ => rfl)
  | .commit, s =>
    match ch.fault with
    | some e => some (.error e, s.close p)
    | none => some (.ok (), { s.close p with tables := s.seen p })
  | .useTokenNow digest usedBy now, s =>
    attempt ch s <|
      if s.tokenUsed digest then none
      else
        let (answer, tables) := PgStore.useToken s.tables now digest usedBy
        some (.ok answer, { s with tables })

/-- Every call has a connection of its own. -/
def accept (p : ℕ) (_ : Request) (s : Db) : Option Db :=
  if s.connections.contains p then none else some { s with connections := p :: s.connections }

/-- Somebody revokes a token; the deletion waits for the row. -/
def revokeToken (digest : String) (s : Db) : Option Db :=
  if s.tokenUsed digest then none
  else some { s with tables := { s.tables with tokens := s.tables.tokens.erase digest } }

def enrolment (digestFor : String → String) (b : Backend) :
    Machine Statement Statement.Resp ℕ Request (Except StoreError Unit) Db Choice String where
  program _ request := serve digestFor b request
  exec := exec
  spawned _ _ := []
  accept := accept
  disturb := revokeToken

abbrev Enrolments := Config Statement Statement.Resp ℕ Request (Except StoreError Unit) Db

/-- The store with no call under way. -/
def atRest (r : Registry) : Enrolments := ⟨{ tables := r }, [], []⟩

/-- Everything that the request writes when it succeeds. -/
def Request.writes (digestFor : String → String) (now : ℤ) (r : Registry) : Request → Registry
  | .enroll token usedBy worker credential =>
    r.enrolled (digestFor token) usedBy now worker credential
  | .consume token usedBy => r.useToken (digestFor token) usedBy now

def succeeded : Call → Bool
  | .ret (.ok _) => true
  | _ => false

/-- How many calls have used the token successfully. -/
def successes (digestFor : String → String) (digest : String) (c : Enrolments) : ℕ :=
  c.threads.countP fun t => digestFor t.act.token = digest && succeeded t.prog

end FleetOrchestrator.Enrolment
