import FleetOrchestrator.Accounts.Tables
import FleetOrchestrator.Core.Calendar
import FleetOrchestrator.Interleaving.Discipline

/-! The store calls and draws of the requests that work on accounts. -/

namespace FleetOrchestrator.Accounts

open Api Core Tables Store Enrolment Interleaving

/-- Where the dashboard runs, and the functions of other packages that it calls. -/
structure Site where
  backend : Backend := .mem
  /-- The prefix under which a proxy mounts the dashboard. -/
  basePath : String := ""
  sha256Hex : String → String
  verifyPassword : String → String → Bool
  validatePassword : String → List String → Bool
  calendar : Calendar := chrono

def Site.abs (K : Site) (path : String) : String := K.basePath ++ path

/-- A random token, and a random id. -/
structure Minted where
  token : String
  uuid : ℕ

inductive Op where
  | readClock
  | mint
  | generateCsrfToken
  | hashPassword (password : String)
  /-- Against no hash the time of a check is spent, and it fails. -/
  | verifyPassword (password : String) (hash : Option String)
  | getSessionByTokenHash (hash : String)
  | createSession (s : Session)
  | deleteSession (id : SessionId)
  | updateSessionExpiry (id : SessionId) (expiresAt : ℤ)
  | deleteUserSessions (id : UserId)
  | getUserById (id : UserId)
  | getUserByEmail (email : String)
  | countUsers
  | createUser (u : User)
  | updateUserPassword (id : UserId) (hash : String)
  | updateUserLastLogin (id : UserId) (at_ : ℤ)
  | listUserPermissions (id : UserId)
  | getRoleByName (name : String)
  | assignUserRole (id : UserId) (role : RoleId)
  | createEmailVerificationToken (id : UserId)
  | createPasswordResetToken (t : PasswordResetToken)
  | getPasswordResetToken (hash : String)
  | consumePasswordResetToken (id : ℕ) (at_ : ℤ)
  | recordLoginAttempt (a : LoginAttempt)
  | countRecentFailedAttempts (identifier : String) (window : ℤ)
  | countRecentIpFailures (ip : String) (window : ℤ)
  | clearLoginAttempts (identifier : String)
  | deleteOldLoginAttempts (cutoff : ℤ)
  | listBootstrapTokens
  | createBootstrapToken (t : BootstrapToken)
  | revokeBootstrapToken (digest : String)
  | consumeBootstrapToken (token usedBy : String)
  | enrollWorker (token usedBy : String) (worker : Worker)
      (credential : WorkerOperationalCredential)
  | recordAuditEvent (action : String)

abbrev Op.Resp : Op → Type
  | .readClock => ℤ
  | .mint => Minted
  | .generateCsrfToken => String
  | .hashPassword _ => Option String
  | .verifyPassword _ _ => Bool
  | .getSessionByTokenHash _ => Except StoreError (Option Session)
  | .getUserById _ | .getUserByEmail _ => Except StoreError (Option User)
  | .countUsers => Except StoreError ℕ
  | .listUserPermissions _ => Except StoreError (List PermissionKind)
  | .getRoleByName _ => Except StoreError (Option Role)
  | .getPasswordResetToken _ => Except StoreError (Option PasswordResetToken)
  | .countRecentFailedAttempts _ _ | .countRecentIpFailures _ _ => Except StoreError ℕ
  | .listBootstrapTokens => Except StoreError (List BootstrapToken)
  | _ => Except StoreError Unit

abbrev Call (α : Type) := Prog Op Op.Resp α

def execute (op : Op) : Call op.Resp := Prog.perform op

structure Choice where
  fault : Option StoreError := none
  token : String := ""
  uuid : ℕ := 0
  csrfToken : String := ""
  hashed : Option String := none
  userRank : UserId → ℕ := UserId.uuid

def attempt {α : Type} (ch : Choice) (w : World) (k : Except StoreError α × World) :
    Except StoreError α × World :=
  match ch.fault with
  | some e => (.error e, w)
  | none => k

def answer {α : Type} (ch : Choice) (w : World) (a : α) : Except StoreError α × World :=
  attempt ch w (.ok a, w)

/-- A call that changes something, and has nothing to tell. -/
def change (ch : Choice) (w w' : World) : Except StoreError Unit × World :=
  attempt ch w (.ok (), w')

def onRegistry {α : Type} (w : World) (r : Except StoreError α × Registry) :
    Except StoreError α × World :=
  (r.1, { w with registry := r.2 })

def World.setPassword (w : World) (b : Backend) (id : UserId) (passwordHash : String) :
    Except StoreError Unit × World :=
  match b with
  | .mem => MemStore.updateUser w id (fun u => { u with passwordHash }) fun _ => rfl
  | .pg => PgStore.updateUser w id (fun u => { u with passwordHash }) fun _ => rfl

def World.setLastLogin (w : World) (b : Backend) (id : UserId) (at_ : ℤ) :
    Except StoreError Unit × World :=
  match b with
  | .mem => MemStore.updateUser w id (fun u => { u with lastLoginAt := some at_ }) fun _ => rfl
  | .pg => PgStore.updateUser w id (fun u => { u with lastLoginAt := some at_ }) fun _ => rfl

def byBackend {α : Type} (mem pg : α) : Backend → α
  | .mem => mem
  | .pg => pg

/-- No token (by its digest) and no id is drawn twice. -/
def exec (K : Site) (ch : Choice) : (op : Op) → World → Option (op.Resp × World)
  | .readClock, w => some (w.now, w)
  | .mint, w =>
    if w.drawn.contains (K.sha256Hex ch.token) || w.ids.contains ch.uuid then none
    else
      let drawn := K.sha256Hex ch.token :: w.drawn
      some (⟨ch.token, ch.uuid⟩, { w with drawn, ids := ch.uuid :: w.ids })
  | .generateCsrfToken, w => some (ch.csrfToken, w)
  | .hashPassword _, w => some (ch.hashed, w)
  | .verifyPassword password hash, w => some (hash.any (K.verifyPassword password), w)
  | .getSessionByTokenHash hash, w => some (answer ch w (w.sessions.get hash))
  | .createSession s, w =>
    some (attempt ch w
      (byBackend (MemStore.createSession w s) (PgStore.createSession w s) K.backend))
  | .deleteSession id, w => some (change ch w (w.eraseSessions fun s => s.id = id))
  | .updateSessionExpiry id expiresAt, w =>
    some (attempt ch w (byBackend (MemStore.updateSessionExpiry w id expiresAt)
      (PgStore.updateSessionExpiry w id expiresAt) K.backend))
  | .deleteUserSessions id, w => some (change ch w (w.eraseSessions fun s => s.userId = id))
  | .getUserById id, w => some (answer ch w (w.users.get id))
  | .getUserByEmail email, w => some (answer ch w (w.getUserByEmail ch.userRank email))
  | .countUsers, w => some (answer ch w w.users.rows.length)
  | .createUser u, w =>
    some (attempt ch w (byBackend (MemStore.createUser w u) (PgStore.createUser w u) K.backend))
  | .updateUserPassword id hash, w => some (attempt ch w (w.setPassword K.backend id hash))
  | .updateUserLastLogin id at_, w => some (attempt ch w (w.setLastLogin K.backend id at_))
  | .listUserPermissions id, w => some (answer ch w (w.listUserPermissions id))
  | .getRoleByName name, w => some (answer ch w (w.roles.find? fun r => r.name = name))
  | .assignUserRole id role, w =>
    some (attempt ch w (byBackend (MemStore.assignUserRole w id role)
      (PgStore.assignUserRole w id role) K.backend))
  | .createEmailVerificationToken _, w => some (change ch w w)
  | .createPasswordResetToken t, w =>
    some (attempt ch w (byBackend (MemStore.createPasswordResetToken w t)
      (PgStore.createPasswordResetToken w t) K.backend))
  | .getPasswordResetToken hash, w => some (answer ch w (w.getPasswordResetToken hash))
  | .consumePasswordResetToken id at_, w =>
    some (change ch w (byBackend (MemStore.consumePasswordResetToken w id at_)
      (PgStore.consumePasswordResetToken w id at_) K.backend))
  | .recordLoginAttempt a, w =>
    some (change ch w { w with loginAttempts := w.loginAttempts ++ [a] })
  | .countRecentFailedAttempts identifier window, w =>
    some (answer ch w (w.countRecentFailedAttempts identifier window))
  | .countRecentIpFailures ip window, w =>
    some (answer ch w (byBackend (MemStore.countRecentIpFailures w ip window)
      (PgStore.countRecentIpFailures w ip window) K.backend))
  | .clearLoginAttempts identifier, w => some (change ch w (w.clearLoginAttempts identifier))
  | .deleteOldLoginAttempts cutoff, w => some (change ch w (w.deleteOldLoginAttempts cutoff))
  | .listBootstrapTokens, w => some (answer ch w w.registry.tokens.rows)
  | .createBootstrapToken t, w =>
    some (attempt ch w (byBackend (MemStore.createBootstrapToken w t)
      (PgStore.createBootstrapToken w t) K.backend))
  | .revokeBootstrapToken digest, w =>
    let registry := { w.registry with tokens := w.registry.tokens.erase digest }
    some (change ch w { w with registry })
  | .consumeBootstrapToken token usedBy, w =>
    let digest := K.sha256Hex token
    some (attempt ch w (onRegistry w
      (byBackend (Enrolment.MemStore.consumeBootstrapToken w.registry w.now digest usedBy)
        (PgStore.consumeBootstrapToken w.registry w.now digest usedBy) K.backend)))
  | .enrollWorker token usedBy worker credential, w =>
    let digest := K.sha256Hex token
    some (attempt ch w (onRegistry w
      (byBackend
        (Enrolment.MemStore.enrollWorker w.registry w.now digest usedBy worker credential)
        (Enrolment.PgStore.enrollWorker w.registry w.now digest usedBy worker credential)
        K.backend)))
  | .recordAuditEvent _, w => some (change ch w w)

end FleetOrchestrator.Accounts
