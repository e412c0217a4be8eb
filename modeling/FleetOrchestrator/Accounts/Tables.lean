import FleetOrchestrator.Api.Routes
import FleetOrchestrator.Enrolment.Credentials

/-! The accounts of the dashboard: users and their roles, sessions, password reset tokens, login
attempts, and the calls of both backends on them. -/

namespace FleetOrchestrator.Accounts

open Api Core Tables Store Enrolment

structure UserId where
  uuid : ℕ
  deriving DecidableEq, Repr

structure SessionId where
  uuid : ℕ
  deriving DecidableEq, Repr

structure RoleId where
  uuid : ℕ
  deriving DecidableEq, Repr

structure User where
  id : UserId
  username : String
  email : Option String := none
  emailVerified : Bool := false
  passwordHash : String
  enabled : Bool := true
  createdAt : ℤ
  lastLoginAt : Option ℤ := none
  deriving DecidableEq

structure Session where
  id : SessionId
  userId : UserId
  tokenHash : String
  createdAt : ℤ
  expiresAt : ℤ
  ipAddress : Option String := none
  userAgent : Option String := none
  deriving DecidableEq

structure PasswordResetToken where
  id : ℕ
  userId : UserId
  tokenHash : String
  createdAt : ℤ
  expiresAt : ℤ
  consumedAt : Option ℤ := none
  deriving DecidableEq

structure LoginAttempt where
  identifier : String
  ipAddress : Option String
  success : Bool
  failureReason : Option String
  attemptedAt : ℤ
  deriving DecidableEq

structure Role where
  id : RoleId
  name : String

def Session.isExpired (s : Session) (now : ℤ) : Bool := s.expiresAt ≤ now

def PasswordResetToken.isExpired (t : PasswordResetToken) (now : ℤ) : Bool := t.expiresAt ≤ now

def PasswordResetToken.isConsumed (t : PasswordResetToken) : Bool := t.consumedAt.isSome

abbrev UserTable := Keyed UserId User User.id
abbrev SessionTable := Keyed String Session Session.tokenHash
abbrev ResetTable := Keyed ℕ PasswordResetToken PasswordResetToken.id

/-- The store, the time, and every id and token digest drawn so far. -/
structure World where
  now : ℤ := 0
  users : UserTable := .empty
  roles : List Role := []
  rolePermissions : List (RoleId × PermissionKind) := []
  userRoles : List (UserId × RoleId) := []
  sessions : SessionTable := .empty
  resetTokens : ResetTable := .empty
  loginAttempts : List LoginAttempt := []
  registry : Registry := {}
  drawn : List String := []
  ids : List ℕ := []

namespace World

variable (w : World)

/-- Where two users share an address, the map finds the one with the least rank. -/
def getUserByEmail (rank : UserId → ℕ) (email : String) : Option User :=
  (inOrder rank User.id w.users.rows).find? fun u => u.email = some email

def listUserPermissions (id : UserId) : List PermissionKind :=
  let roles := (w.userRoles.filter fun r => r.1 = id).map Prod.snd
  (roles.flatMap fun r => (w.rolePermissions.filter fun p => p.1 = r).map Prod.snd).dedup

def eraseSessions (p : Session → Bool) : World := { w with sessions := w.sessions.eraseWhere p }

def setSessionExpiry (id : SessionId) (expiresAt : ℤ) : World :=
  let sessions := w.sessions.updateWhere (fun s => s.id = id) (fun s => { s with expiresAt })
    fun _ => rfl
  { w with sessions }

def modifyUser (id : UserId) (f : User → User) (hf : ∀ u, (f u).id = u.id) : World :=
  { w with users := w.users.modify id f hf }

def getPasswordResetToken (hash : String) : Option PasswordResetToken :=
  w.resetTokens.rows.find? fun t => t.tokenHash = hash

def consumeResetTokens (p : PasswordResetToken → Bool) (at_ : ℤ) : World :=
  let resetTokens := w.resetTokens.updateWhere p (fun t => { t with consumedAt := some at_ })
    fun _ => rfl
  { w with resetTokens }

/-- The failures of the last seconds, among the attempts that are counted. -/
def countFailures (window : ℤ) (counted : LoginAttempt → Bool) : ℕ :=
  w.loginAttempts.countP fun a => counted a && !a.success && w.now - window ≤ a.attemptedAt

def countRecentFailedAttempts (identifier : String) (window : ℤ) : ℕ :=
  w.countFailures window fun a => a.identifier = identifier

def clearLoginAttempts (identifier : String) : World :=
  { w with loginAttempts := w.loginAttempts.filter fun a => a.identifier ≠ identifier }

def deleteOldLoginAttempts (cutoff : ℤ) : World :=
  { w with loginAttempts := w.loginAttempts.filter fun a => cutoff ≤ a.attemptedAt }

end World

/-- Requests for mail do not count against an address in the database. -/
def isMailRequest (a : LoginAttempt) : Bool :=
  a.failureReason = some "forgot_password" || a.failureReason = some "resend_verification"

namespace MemStore

def createSession (w : World) (s : Session) : Except StoreError Unit × World :=
  (.ok (), { w with sessions := w.sessions.put s })

def updateSessionExpiry (w : World) (id : SessionId) (expiresAt : ℤ) :
    Except StoreError Unit × World :=
  (.ok (), w.setSessionExpiry id expiresAt)

def createUser (w : World) (u : User) : Except StoreError Unit × World :=
  if w.users.rows.any fun x => x.username = u.username then
    (.error (.conflict ("username already exists: " ++ u.username)), w)
  else (.ok (), { w with users := w.users.put u })

/-- A change of a user that is not there is refused. -/
def updateUser (w : World) (id : UserId) (f : User → User) (hf : ∀ u, (f u).id = u.id) :
    Except StoreError Unit × World :=
  if w.users.contains id then (.ok (), w.modifyUser id f hf) else (.error .notFound, w)

def assignUserRole (w : World) (id : UserId) (role : RoleId) : Except StoreError Unit × World :=
  if w.userRoles.contains (id, role) then (.ok (), w)
  else (.ok (), { w with userRoles := w.userRoles ++ [(id, role)] })

def createPasswordResetToken (w : World) (t : PasswordResetToken) :
    Except StoreError Unit × World :=
  (.ok (), { w with resetTokens := w.resetTokens.put t })

def consumePasswordResetToken (w : World) (id : ℕ) (at_ : ℤ) : World :=
  w.consumeResetTokens (fun t => t.id = id) at_

def countRecentIpFailures (w : World) (ip : String) (window : ℤ) : ℕ :=
  w.countFailures window fun a => a.ipAddress = some ip

def createBootstrapToken (w : World) (t : BootstrapToken) : Except StoreError Unit × World :=
  if w.registry.tokens.contains t.tokenDigest then
    (.error (.conflict ("bootstrap token already exists: bt_" ++ t.tokenDigest)), w)
  else
    let registry := { w.registry with tokens := w.registry.tokens.put t }
    (.ok (), { w with registry })

end MemStore

namespace PgStore

open Enrolment.PgStore

def foreignKey (table constraint : String) : StoreError := databaseError
  ("insert or update on table \"" ++ table ++ "\" violates foreign key constraint \"" ++
    constraint ++ "\"")

def createSession (w : World) (s : Session) : Except StoreError Unit × World :=
  if w.sessions.rows.any fun x => x.id = s.id then
    (.error (databaseError (duplicateKey "sessions_pkey")), w)
  else if w.sessions.contains s.tokenHash then
    (.error (databaseError (duplicateKey "idx_sessions_token_hash")), w)
  else if !w.users.contains s.userId then
    (.error (foreignKey "sessions" "sessions_user_id_fkey"), w)
  else (.ok (), { w with sessions := w.sessions.put s })

def updateSessionExpiry (w : World) (id : SessionId) (expiresAt : ℤ) :
    Except StoreError Unit × World :=
  if w.sessions.rows.any fun s => s.id = id then (.ok (), w.setSessionExpiry id expiresAt)
  else (.error .notFound, w)

def userTaken (constraint : String) : StoreError :=
  .conflict ("user already exists: " ++ duplicateKey constraint)

def insertUserRefusal (w : World) (u : User) : Option StoreError :=
  if u.email = none then
    some (databaseError
      "null value in column \"email\" of relation \"users\" violates not-null constraint")
  else if u.username.length < 3 || 64 < u.username.length then
    some (databaseError
      "new row for relation \"users\" violates check constraint \"chk_username_len\"")
  else if w.users.contains u.id then some (userTaken "users_pkey")
  else if w.users.rows.any fun x => x.username = u.username then some (userTaken "users_username_key")
  else if w.users.rows.any fun x => x.email = u.email then some (userTaken "uq_users_email")
  else none

def createUser (w : World) (u : User) : Except StoreError Unit × World :=
  match insertUserRefusal w u with
  | some e => (.error e, w)
  | none => (.ok (), { w with users := w.users.put u })

def updateUser (w : World) (id : UserId) (f : User → User) (hf : ∀ u, (f u).id = u.id) :
    Except StoreError Unit × World :=
  (.ok (), w.modifyUser id f hf)

def assignUserRole (w : World) (id : UserId) (role : RoleId) : Except StoreError Unit × World :=
  if !w.users.contains id then (.error (foreignKey "user_roles" "user_roles_user_id_fkey"), w)
  else if !w.roles.any fun r => r.id = role then
    (.error (foreignKey "user_roles" "user_roles_role_id_fkey"), w)
  else MemStore.assignUserRole w id role

def createPasswordResetToken (w : World) (t : PasswordResetToken) :
    Except StoreError Unit × World :=
  if w.resetTokens.contains t.id then
    (.error (databaseError (duplicateKey "password_reset_tokens_pkey")), w)
  else if w.resetTokens.rows.any fun x => x.tokenHash = t.tokenHash then
    (.error (databaseError (duplicateKey "password_reset_tokens_token_hash_key")), w)
  else if !w.users.contains t.userId then
    (.error (foreignKey "password_reset_tokens" "password_reset_tokens_user_id_fkey"), w)
  else (.ok (), { w with resetTokens := w.resetTokens.put t })

/-- A token keeps the time of its first use. -/
def consumePasswordResetToken (w : World) (id : ℕ) (at_ : ℤ) : World :=
  w.consumeResetTokens (fun t => t.id = id && !t.isConsumed) at_

def countRecentIpFailures (w : World) (ip : String) (window : ℤ) : ℕ :=
  w.countFailures window fun a => a.ipAddress = some ip && !isMailRequest a

def createBootstrapToken (w : World) (t : BootstrapToken) : Except StoreError Unit × World :=
  if w.registry.tokens.contains t.tokenDigest then
    (.error (.conflict ("bootstrap token already exists: " ++
      duplicateKey "bootstrap_tokens_pkey")), w)
  else
    let registry := { w.registry with tokens := w.registry.tokens.put t }
    (.ok (), { w with registry })

/-- The statement that checks and counts, and the second look where it has found nothing. -/
def consumeBootstrapToken (r : Registry) (now : ℤ) (digest usedBy : String) :
    Except StoreError Unit × Registry :=
  let (consumed, used) := useToken r now digest usedBy
  if consumed then (.ok (), used) else (.error (useRefused (r.tokens.contains digest)), r)

end PgStore

end FleetOrchestrator.Accounts
