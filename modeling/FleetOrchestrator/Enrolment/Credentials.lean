import FleetOrchestrator.Store.Tasks

/-! Bootstrap tokens and operational credentials in both backends. -/

namespace FleetOrchestrator.Enrolment

open Core Tables Store

structure BootstrapToken where
  tokenDigest : String
  expiresAt : Option ℤ := none
  maxUses : ℕ := 1
  useCount : ℕ := 0
  lastUsedBy : Option String := none
  lastUsedAt : Option ℤ := none
  deriving DecidableEq

structure WorkerOperationalCredential where
  workerId : WorkerId
  credentialDigest : String
  issuedAt : ℤ
  expiresAt : Option ℤ := none
  revokedAt : Option ℤ := none
  rotationGeneration : ℤ := 1
  deriving DecidableEq

abbrev TokenTable := Keyed String BootstrapToken BootstrapToken.tokenDigest
abbrev CredentialTable :=
  Keyed String WorkerOperationalCredential WorkerOperationalCredential.credentialDigest

/-- What an enrolment writes to. No digest is held twice in either backend. -/
structure Registry where
  tokens : TokenTable := .empty
  workers : WorkerTable := .empty
  credentials : CredentialTable := .empty

def BootstrapToken.isUsable (t : BootstrapToken) (now : ℤ) : Bool :=
  if t.useCount ≥ t.maxUses then false
  else match t.expiresAt with
    | some exp => !decide (now > exp)
    | none => true

/-- The condition of the query; a token expires at its very instant here. -/
def BootstrapToken.matchesUse (t : BootstrapToken) (now : ℤ) : Bool :=
  t.useCount < t.maxUses && t.expiresAt.all fun exp => exp > now

def BootstrapToken.used (t : BootstrapToken) (usedBy : String) (now : ℤ) : BootstrapToken :=
  { t with useCount := t.useCount + 1, lastUsedBy := some usedBy, lastUsedAt := some now }

@[simp] theorem BootstrapToken.used_digest (t : BootstrapToken) (usedBy : String) (now : ℤ) :
    (t.used usedBy now).tokenDigest = t.tokenDigest := rfl

/-- It opens the door at that time. -/
def WorkerOperationalCredential.isActive (c : WorkerOperationalCredential) (now : ℤ) : Bool :=
  c.revokedAt.isNone && c.expiresAt.all fun exp => exp > now

def WorkerOperationalCredential.rotated (c : WorkerOperationalCredential) (digest : String)
    (expiresAt : Option ℤ) (now : ℤ) : WorkerOperationalCredential :=
  { c with
    credentialDigest := digest, issuedAt := now, expiresAt, revokedAt := none,
    rotationGeneration := c.rotationGeneration + 1 }

def WorkerOperationalCredential.revoked (c : WorkerOperationalCredential) (now : ℤ) :
    WorkerOperationalCredential := { c with revokedAt := some now }

@[simp] theorem WorkerOperationalCredential.revoked_digest (c : WorkerOperationalCredential)
    (now : ℤ) : (c.revoked now).credentialDigest = c.credentialDigest := rfl

namespace Registry

def useToken (r : Registry) (digest usedBy : String) (now : ℤ) : Registry :=
  let tokens := r.tokens.modify digest (fun t => t.used usedBy now) fun t => t.used_digest usedBy now
  { r with tokens }

/-- All writes of an enrolment. -/
def enrolled (r : Registry) (digest usedBy : String) (now : ℤ) (worker : Worker)
    (credential : WorkerOperationalCredential) : Registry :=
  { r.useToken digest usedBy now with
    workers := r.workers.put worker, credentials := r.credentials.put credential }

/-- The credential of a worker is the one with the least rank, where a backend may hold several. -/
def credentialOf (r : Registry) (rank : String → ℕ) (w : WorkerId)
    (p : WorkerOperationalCredential → Bool) : Option WorkerOperationalCredential :=
  (inOrder rank WorkerOperationalCredential.credentialDigest r.credentials.rows).find? fun c =>
    c.workerId = w && p c

end Registry

def tokenNotFound : StoreError := .bootstrapTokenInvalid "token not found"

namespace MemStore

def tokenRefused (t : BootstrapToken) : StoreError :=
  .bootstrapTokenInvalid ("token " ++ if t.useCount ≥ t.maxUses then "exhausted" else "expired")

def consumeBootstrapToken (r : Registry) (now : ℤ) (digest usedBy : String) :
    Except StoreError Unit × Registry :=
  match r.tokens.get digest with
  | none => (.error tokenNotFound, r)
  | some entry =>
    if !entry.isUsable now then (.error (tokenRefused entry), r)
    else (.ok (), r.useToken digest usedBy now)

def workerNameTaken (name : String) : StoreError :=
  .conflict ("worker name already exists: " ++ name)

def digestTaken : StoreError := .conflict "credential digest already exists"

/-- All three locks are held; every check comes before the first write. -/
def enrollWorker (r : Registry) (now : ℤ) (digest usedBy : String) (worker : Worker)
    (credential : WorkerOperationalCredential) : Except StoreError Unit × Registry :=
  match r.tokens.get digest with
  | none => (.error tokenNotFound, r)
  | some entry =>
    if !entry.isUsable now then (.error (tokenRefused entry), r)
    else if r.workers.rows.any fun w => w.name = worker.name then
      (.error (workerNameTaken worker.name), r)
    else if r.credentials.contains credential.credentialDigest then (.error digestTaken, r)
    else (.ok (), r.enrolled digest usedBy now worker credential)

def upsertWorkerOperationalCredential (r : Registry) (c : WorkerOperationalCredential) :
    Except StoreError Unit × Registry :=
  (.ok (), { r with credentials := r.credentials.put c })

def findActiveWorkerOperationalCredential (r : Registry) (now : ℤ) (digest : String) :
    Option WorkerOperationalCredential :=
  (r.credentials.get digest).filter fun c => c.isActive now

def revokeWorkerOperationalCredential (rank : String → ℕ) (r : Registry) (now : ℤ) (w : WorkerId) :
    Bool × Registry :=
  match r.credentialOf rank w fun c => c.revokedAt.isNone with
  | none => (false, r)
  | some c =>
    let credentials := r.credentials.modify c.credentialDigest (fun c => c.revoked now)
      fun c => c.revoked_digest now
    (true, { r with credentials })

def rotateWorkerOperationalCredential (rank : String → ℕ) (r : Registry) (now : ℤ) (w : WorkerId)
    (digest : String) (expiresAt : Option ℤ) :
    Except StoreError WorkerOperationalCredential × Registry :=
  match r.credentialOf rank w fun _ => true with
  | none => (.error .notFound, r)
  | some c =>
    let rotated := c.rotated digest expiresAt now
    (.ok rotated, { r with credentials := (r.credentials.erase c.credentialDigest).put rotated })

end MemStore

namespace PgStore

def duplicateKey (constraint : String) : String :=
  "duplicate key value violates unique constraint \"" ++ constraint ++ "\""

def databaseError (msg : String) : StoreError := .sqlx ("error returned from database: " ++ msg)

def generationCheck : StoreError := databaseError
  ("new row for relation \"worker_operational_credentials\" violates check constraint " ++
    "\"worker_operational_credentials_rotation_generation_check\"")

def unknownWorker : StoreError := databaseError
  ("insert or update on table \"worker_operational_credentials\" violates foreign key " ++
    "constraint \"worker_operational_credentials_worker_id_fkey\"")

def digestKey : String := duplicateKey "worker_operational_credentials_credential_digest_key"

def workerKey : String := duplicateKey "worker_operational_credentials_pkey"

def tokenRefused : StoreError := .bootstrapTokenInvalid "token is exhausted or expired"

/-- Another worker's row has the digest. -/
def heldByOther (r : Registry) (w : WorkerId) (digest : String) : Bool :=
  (r.credentials.get digest).any fun c => c.workerId ≠ w

def rowOf (r : Registry) (w : WorkerId) : Option WorkerOperationalCredential :=
  r.credentials.rows.find? fun c => c.workerId = w

/-- The worker's row is the given one from now on. -/
def replaceRow (r : Registry) (c : WorkerOperationalCredential) : Registry :=
  { r with credentials := (r.credentials.eraseWhere fun x => x.workerId = c.workerId).put c }

def upsertWorkerOperationalCredential (r : Registry) (c : WorkerOperationalCredential) :
    Except StoreError Unit × Registry :=
  if c.rotationGeneration < 1 then (.error generationCheck, r)
  else if heldByOther r c.workerId c.credentialDigest then (.error (databaseError digestKey), r)
  else if !r.workers.contains c.workerId then (.error unknownWorker, r)
  else (.ok (), replaceRow r c)

def findActiveWorkerOperationalCredential (r : Registry) (now : ℤ) (digest : String) :
    Option WorkerOperationalCredential :=
  r.credentials.rows.find? fun c => c.credentialDigest = digest && c.isActive now

def revokeWorkerOperationalCredential (r : Registry) (now : ℤ) (w : WorkerId) : Bool × Registry :=
  let unrevoked (c : WorkerOperationalCredential) : Bool := c.workerId = w && c.revokedAt.isNone
  let credentials := r.credentials.updateWhere unrevoked (fun c => c.revoked now)
    fun c => c.revoked_digest now
  (0 < r.credentials.rowsAffected unrevoked, { r with credentials })

def rotateWorkerOperationalCredential (r : Registry) (now : ℤ) (w : WorkerId) (digest : String)
    (expiresAt : Option ℤ) : Except StoreError WorkerOperationalCredential × Registry :=
  match rowOf r w with
  | none => (.error .notFound, r)
  | some c =>
    if heldByOther r w digest then (.error (databaseError digestKey), r)
    else
      let rotated := c.rotated digest expiresAt now
      (.ok rotated, replaceRow r rotated)

/-- A single statement that checks and counts. -/
def useToken (r : Registry) (now : ℤ) (digest usedBy : String) : Bool × Registry :=
  if (r.tokens.get digest).any fun t => t.matchesUse now then
    (true, r.useToken digest usedBy now)
  else (false, r)

/-- Why nothing was consumed, from a second look at the row. -/
def useRefused (exists_ : Bool) : StoreError := if exists_ then tokenRefused else tokenNotFound

/-- Whether a new worker or credential row is refused, and how. -/
def insertWorkerRefusal (r : Registry) (worker : Worker) : Option StoreError :=
  if r.workers.contains worker.id then
    some (.conflict ("worker name already exists: " ++ duplicateKey "workers_pkey"))
  else if r.workers.rows.any fun w => w.name = worker.name then
    some (.conflict ("worker name already exists: " ++ duplicateKey "workers_name_key"))
  else none

def insertCredentialRefusal (r : Registry) (c : WorkerOperationalCredential) :
    Option StoreError :=
  if c.rotationGeneration < 1 then some generationCheck
  else if (rowOf r c.workerId).isSome then
    some (.conflict ("credential digest already exists: " ++ workerKey))
  else if r.credentials.contains c.credentialDigest then
    some (.conflict ("credential digest already exists: " ++ digestKey))
  else if !r.workers.contains c.workerId then some unknownWorker
  else none

/-- The transaction of an enrolment with nobody in between; what it refuses it rolls back. -/
def enrollWorker (r : Registry) (now : ℤ) (digest usedBy : String) (worker : Worker)
    (credential : WorkerOperationalCredential) : Except StoreError Unit × Registry :=
  let (consumed, used) := useToken r now digest usedBy
  if !consumed then (.error (useRefused (r.tokens.contains digest)), r)
  else
    match insertWorkerRefusal used worker with
    | some e => (.error e, r)
    | none =>
      let joined := { used with workers := used.workers.put worker }
      match insertCredentialRefusal joined credential with
      | some e => (.error e, r)
      | none => (.ok (), { joined with credentials := joined.credentials.put credential })

end PgStore

end FleetOrchestrator.Enrolment
