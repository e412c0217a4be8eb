import FleetOrchestrator.Accounts.Auth

/-! Logging in and out, and the requests that go with a mail: verification and password reset. -/

namespace FleetOrchestrator.Accounts

open Api Core Tables Store Enrolment Interleaving

structure LoginForm where
  email : String
  password : String
  csrfToken : String := ""

structure EmailForm where
  email : String
  csrfToken : String := ""

structure ResetPasswordForm where
  token : String
  password : String
  passwordConfirm : String
  csrfToken : String := ""

section Handlers

variable (K : Site) (r : Request)

def logout (headerCsrf : String) (principal : AuthPrincipal) : Call Response :=
  if !csrfValid r.csrfCookie headerCsrf then
    return { reply := .failed 403 "CSRF token invalid. Please reload the page." }
  else do
    let _ ← execute (.deleteSession principal.sessionId)
    -- A jar tells the browser only of cookies that the request has brought.
    let cookies := if r.sessionCookie.isSome then [removal SESSION_COOKIE] else []
    return { reply := .redirect (K.abs "/login"), cookies }

def loginFailedPage (message : String) : Response := { reply := .failed 401 message }

def internalErrorPage : Response := { reply := .failed 500 "500 Internal Server Error" }

def newSession (user : UserId) (m : Minted) (createdAt base : ℤ) (ip userAgent : Option String) :
    Session :=
  { id := ⟨m.uuid⟩, userId := user, tokenHash := K.sha256Hex m.token, createdAt,
    expiresAt := base + SESSION_DURATION_SECS, ipAddress := ip, userAgent }

/-- What a login does once the password is right. -/
def openSession (email : String) (user : User) : Call Response := do
  let m ← execute .mint
  let createdAt ← execute .readClock
  let base ← execute .readClock
  match ← execute (.createSession (newSession K user.id m createdAt base (some r.ip) r.userAgent)) with
  | .error _ => return internalErrorPage
  | .ok () =>
    let now ← execute .readClock
    let _ ← execute (.updateUserLastLogin user.id now)
    let _ ← recordLoginSuccess email r.ip
    let csrf ← execute .generateCsrfToken
    return { reply := .redirect (K.abs "/"), cookies := [sessionCookie m.token, csrfCookie csrf] }

def loginRefused (email : String) : Call Response := do
  let _ ← recordLoginFailure email r.ip "invalid_credentials"
  return loginFailedPage "Invalid email or password"

def login (form : LoginForm) : Call Response :=
  if !csrfValid r.csrfCookie form.csrfToken then
    return loginFailedPage "Security token expired. Please reload the page."
  else do
    match ← checkRateLimit form.email r.ip with
    | .error _ => return internalErrorPage
    | .ok false => return loginFailedPage "Too many attempts. Try again in 60s."
    | .ok true =>
      match ← execute (.getUserByEmail form.email) with
      | .error _ => return internalErrorPage
      | .ok found =>
        match found.filter fun u => u.enabled with
        | none =>
          let _ ← execute (.verifyPassword form.password none)
          loginRefused r form.email
        | some user =>
          let valid ← execute (.verifyPassword form.password (some user.passwordHash))
          if !valid then
            loginRefused r form.email
          else if !user.emailVerified then
            let _ ← recordLoginFailure form.email r.ip "email_not_verified"
            return loginFailedPage
              "Email not verified. Please check your inbox for the verification link."
          else
            openSession K r form.email user

def infoPage (kind message : String) : Response := { reply := .infoPage kind message }

def tokenExpiredPage : Response := infoPage "error" "Security token expired. Please reload the page."

def tooManyRequests : Response := infoPage "error" "Too many requests. Please try again later."

def serverError : Response := infoPage "error" "Server error. Please try again later."

/-- A limit that cannot be checked counts as reached. -/
def limitHolds : Except StoreError Bool → Bool
  | .ok allowed => allowed
  | .error _ => false

/-- The limit of an endpoint that sends mail; every request that passes it counts. -/
def limitMail (identifier reason : String) : Call Bool := do
  let allowed ← checkRateLimitCustom identifier r.ip MAX_EMAIL_SEND_ATTEMPTS
    MAX_IP_EMAIL_SEND_ATTEMPTS EMAIL_SEND_WINDOW_SECS
  if !limitHolds allowed then
    return false
  else
    let _ ← recordLoginFailure identifier r.ip reason
    return true

/-- What is done for an address that is not verified yet. -/
def offerVerification (email : String) : Call Unit := do
  match ← execute (.getUserByEmail email) with
  | .ok (some user) =>
    if user.emailVerified then
      return ()
    else
      let _ ← execute .mint
      let _ ← execute (.createEmailVerificationToken user.id)
      return ()
  | .ok none | .error _ => return ()

def resendVerification (form : EmailForm) : Call Response :=
  if !csrfValid r.csrfCookie form.csrfToken then
    return tokenExpiredPage
  else do
    let allowed ← limitMail r ("resend:" ++ form.email) "resend_verification"
    if !allowed then
      return tooManyRequests
    else
      offerVerification form.email
      return infoPage "success"
        "If the email exists and is unverified, a verification link has been sent."

def newResetToken (user : UserId) (m : Minted) (createdAt base : ℤ) : PasswordResetToken :=
  { id := m.uuid, userId := user, tokenHash := K.sha256Hex m.token, createdAt,
    expiresAt := base + 3600 }

/-- What is done for an address that is somebody's. -/
def offerReset (email : String) : Call Unit := do
  match ← execute (.getUserByEmail email) with
  | .ok (some user) =>
    let m ← execute .mint
    let createdAt ← execute .readClock
    let base ← execute .readClock
    let _ ← execute (.createPasswordResetToken (newResetToken K user.id m createdAt base))
    return ()
  | .ok none | .error _ => return ()

def forgotPassword (form : EmailForm) : Call Response :=
  if !csrfValid r.csrfCookie form.csrfToken then
    return tokenExpiredPage
  else do
    let allowed ← limitMail r ("forgot:" ++ form.email) "forgot_password"
    if !allowed then
      return tooManyRequests
    else
      offerReset K form.email
      return infoPage "success" ("If the email exists in our system, a reset link has been sent. " ++
        "Please check your inbox.")

/-- The token of the form, if it can be used now. -/
def usableResetToken (identifier token : String) : Call (Except Response PasswordResetToken) := do
  match ← execute (.getPasswordResetToken (K.sha256Hex token)) with
  | .error _ => return .error serverError
  | .ok none =>
    let _ ← recordLoginFailure identifier r.ip "reset_token_invalid"
    return .error (infoPage "error" "Invalid or unknown reset token.")
  | .ok (some t) =>
    if t.isConsumed then
      let _ ← recordLoginFailure identifier r.ip "reset_token_consumed"
      return .error (infoPage "error" "This reset link has already been used.")
    else
      let now ← execute .readClock
      if t.isExpired now then
        let _ ← recordLoginFailure identifier r.ip "reset_token_expired"
        return .error (infoPage "error"
          "This reset link has expired. Please request a new one.")
      else
        return .ok t

def resetDone : Response := infoPage "success"
  "Your password has been reset. You can now sign in with your new password."

def applyReset (identifier : String) (t : PasswordResetToken) (hash : String) : Call Response := do
  match ← execute (.updateUserPassword t.userId hash) with
  | .error _ => return serverError
  | .ok () =>
    let now ← execute .readClock
    let _ ← execute (.consumePasswordResetToken t.id now)
    let _ ← execute (.deleteUserSessions t.userId)
    let _ ← recordLoginSuccess identifier r.ip
    return resetDone

def weakPassword : String :=
  "Password is too weak. Use at least 8 characters with a mix of letters, numbers, and symbols."

def resetPassword (form : ResetPasswordForm) : Call Response :=
  if !csrfValid r.csrfCookie form.csrfToken then
    return tokenExpiredPage
  else do
    let allowed ← checkRateLimit ("reset:" ++ r.ip) r.ip
    if !limitHolds allowed then
      return tooManyRequests
    else if form.password ≠ form.passwordConfirm then
      return infoPage "error" "Passwords do not match."
    else if !K.validatePassword form.password [] then
      return infoPage "error" weakPassword
    else
      match ← usableResetToken K r ("reset:" ++ r.ip) form.token with
      | .error response => return response
      | .ok t =>
        match ← execute (.hashPassword form.password) with
        | none => return serverError
        | some hash => applyReset r ("reset:" ++ r.ip) t hash

end Handlers

end FleetOrchestrator.Accounts
