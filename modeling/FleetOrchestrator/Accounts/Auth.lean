import FleetOrchestrator.Accounts.Calls

/-! Sessions and their rotation in front of the handlers, and the limit on failed attempts. -/

namespace FleetOrchestrator.Accounts

open Api Core Tables Store Enrolment Interleaving

def SESSION_COOKIE : String := "fleet_session"
def CSRF_COOKIE : String := "fleet_csrf"
def SESSION_DURATION_SECS : ℤ := 8 * 3600
def SESSION_ROTATE_AFTER_SECS : ℤ := 30 * 60
def SESSION_ROTATION_GRACE_SECS : ℤ := 30
def MAX_FAILED_ATTEMPTS : ℕ := 5
def MAX_IP_FAILED_ATTEMPTS : ℕ := 20
def FAILED_ATTEMPT_WINDOW_SECS : ℤ := 60
def MAX_EMAIL_SEND_ATTEMPTS : ℕ := 3
def MAX_IP_EMAIL_SEND_ATTEMPTS : ℕ := 10
def EMAIL_SEND_WINDOW_SECS : ℤ := 3600

/-- A `Set-Cookie` header; without a path the browser takes that of the request. -/
structure SetCookie where
  name : String
  value : String
  path : Option String := some "/"
  maxAge : ℤ := SESSION_DURATION_SECS
  deriving DecidableEq

/-- What a cookie jar sends for a cookie that was removed by its name alone. -/
def removal (name : String) : SetCookie := { name, value := "", path := none, maxAge := 0 }

inductive Reply where
  | redirect (location : String)
  /-- The answer to a script, with the place to log in at. -/
  | unauthorized (login : String)
  | failed (status : ℕ) (message : String)
  | infoPage (kind message : String)
  /-- What another page or interface behind the session answers. -/
  | served
  | issued (token : Option String)
  | created (token : String)
  | enrolled
  | refused (e : StoreError)
  /-- No answer: the handler has unwound. -/
  | panicked
  deriving DecidableEq

structure Response where
  reply : Reply
  cookies : List SetCookie := []
  deriving DecidableEq

def Response.append (r : Response) (c : SetCookie) : Response :=
  { r with cookies := r.cookies ++ [c] }

structure Request where
  ip : String
  sessionCookie : Option String := none
  csrfCookie : Option String := none
  userAgent : Option String := none
  isApi : Bool := false

/-- The cookie and what was submitted are there, and are the same. -/
def csrfValid (cookie : Option String) (submitted : String) : Bool :=
  match cookie with
  | some c => c ≠ "" && submitted ≠ "" && c = submitted
  | none => false

structure AuthPrincipal where
  user : User
  permissions : List PermissionKind
  sessionId : SessionId

section Middleware

variable (K : Site) (r : Request)

def authRedirect : Response :=
  if r.isApi then { reply := .unauthorized (K.abs "/login") }
  else { reply := .redirect (K.abs "/login") }

def forbiddenResponse : Response :=
  if r.isApi then { reply := .failed 403 "account disabled" }
  else { reply := .redirect (K.abs "/login?reason=disabled") }

def internalServerError : Response := { reply := .failed 500 "internal_server_error" }

/-- The part of `requireSession` that lets a request through. -/
def authenticate : Call (Except Response (AuthPrincipal × Session)) :=
  match r.sessionCookie with
  | none => return .error (authRedirect K r)
  | some token => do
    match ← execute (.getSessionByTokenHash (K.sha256Hex token)) with
    | .error _ => return .error internalServerError
    | .ok none => return .error (authRedirect K r)
    | .ok (some session) =>
      let now ← execute .readClock
      if session.isExpired now then
        let _ ← execute (.deleteSession session.id)
        return .error (authRedirect K r)
      else
        match ← execute (.getUserById session.userId) with
        | .error _ => return .error internalServerError
        | .ok none => return .error (authRedirect K r)
        | .ok (some user) =>
          if !user.enabled then
            return .error (forbiddenResponse K r)
          else
            match ← execute (.listUserPermissions user.id) with
            | .error _ => return .error internalServerError
            | .ok permissions =>
              return .ok ({ user, permissions, sessionId := session.id }, session)

/-- Old enough, and not about to end, as one is that has been rotated already. -/
def shouldRotate (createdAt expiresAt now : ℤ) : Bool :=
  !(now - createdAt < SESSION_ROTATE_AFTER_SECS) && expiresAt > now + SESSION_ROTATION_GRACE_SECS

/-- The new session, which lives no longer than the old one. -/
def Session.rotated (s : Session) (m : Minted) (now : ℤ) : Session :=
  { s with id := ⟨m.uuid⟩, tokenHash := K.sha256Hex m.token, createdAt := now }

def maybeRotateSession (session : Session) : Call (Option String) := do
  let now ← execute .readClock
  if !shouldRotate session.createdAt session.expiresAt now then
    return none
  else
    let m ← execute .mint
    match ← execute (.createSession (session.rotated K m now)) with
    | .error _ => return none
    | .ok () =>
      let _ ← execute (.updateSessionExpiry session.id (now + SESSION_ROTATION_GRACE_SECS))
      return some m.token

def sessionCookie (token : String) : SetCookie := { name := SESSION_COOKIE, value := token }

def csrfCookie (token : String) : SetCookie := { name := CSRF_COOKIE, value := token }

/-- The cookie that the request has, or a new one. -/
def csrfTokenOf : Call String :=
  match r.csrfCookie with
  | some token => return token
  | none => execute .generateCsrfToken

/-- The cookie of a rotated session comes after those of the handler. -/
def requireSession (handler : AuthPrincipal → Call Response) : Call Response := do
  match ← authenticate K r with
  | .error response => return response
  | .ok (principal, session) =>
    let csrfToken ← csrfTokenOf r
    let rotation ← maybeRotateSession K session
    let response ← handler principal
    let response := response.append (csrfCookie csrfToken)
    match rotation with
    | some token => return response.append (sessionCookie token)
    | none => return response

end Middleware

section RateLimit

def checkRateLimitCustom (identifier ip : String) (maxIdAttempts maxIpAttempts : ℕ) (window : ℤ) :
    Call (Except StoreError Bool) := do
  match ← execute (.countRecentFailedAttempts identifier window) with
  | .error e => return .error e
  | .ok idCount =>
    if idCount ≥ maxIdAttempts then
      return .ok false
    else
      match ← execute (.countRecentIpFailures ip window) with
      | .error e => return .error e
      | .ok ipCount => return .ok !(ipCount ≥ maxIpAttempts)

def checkRateLimit (identifier ip : String) : Call (Except StoreError Bool) :=
  checkRateLimitCustom identifier ip MAX_FAILED_ATTEMPTS MAX_IP_FAILED_ATTEMPTS
    FAILED_ATTEMPT_WINDOW_SECS

def recordLoginFailure (identifier ip reason : String) : Call (Except StoreError Unit) := do
  let now ← execute .readClock
  execute (.recordLoginAttempt
    { identifier, ipAddress := some ip, success := false, failureReason := some reason,
      attemptedAt := now })

def recordLoginSuccess (identifier ip : String) : Call (Except StoreError Unit) := do
  let now ← execute .readClock
  let attempt : LoginAttempt :=
    { identifier, ipAddress := some ip, success := true, failureReason := none, attemptedAt := now }
  match ← execute (.recordLoginAttempt attempt) with
  | .error e => return .error e
  | .ok () =>
    match ← execute (.clearLoginAttempts identifier) with
    | .error e => return .error e
    | .ok () =>
      let now ← execute .readClock
      let _ ← execute (.deleteOldLoginAttempts (now - 7 * 24 * 3600))
      return .ok ()

end RateLimit

end FleetOrchestrator.Accounts
