import FleetOrchestrator.Accounts.Handlers
import FleetOrchestrator.Encoding.Words

/-! Bootstrap tokens, of the first administrator and of workers. -/

namespace FleetOrchestrator.Accounts

open Api Core Tables Store Enrolment Interleaving

structure BootstrapForm where
  otpFull : String
  email : String
  password : String
  csrfToken : String := ""

section Bootstrap

variable (K : Site) (r : Request)

/-- `local@domain`, as far as it is looked at. -/
def validateEmail (addr : String) : Bool :=
  let localPart := addr.toList.takeWhile (· ≠ '@')
  let domain := (addr.toList.dropWhile (· ≠ '@')).drop 1
  addr ≠ "" && addr.utf8ByteSize ≤ 254 && addr.toList.contains '@' && !localPart.isEmpty &&
    (String.ofList localPart).utf8ByteSize ≤ 64 && domain.contains '.' &&
    localPart.all fun c => c.isAlphanum || ['.', '-', '_', '+'].contains c

def ADMIN_PREFIX : String := "fleet_boot_"

@[irreducible] def hasAdminPrefix (token : String) : Bool := ADMIN_PREFIX.toList.isPrefixOf token.toList

inductive BootstrapAdminError where
  | invalidToken (e : StoreError)
  | createUser (e : StoreError)
  | adminRoleMissing
  | store (e : StoreError)

def consumeBootstrapAndCreateAdmin (otpToken : String) (user : User) :
    Call (Except BootstrapAdminError String) := do
  match ← execute (.consumeBootstrapToken otpToken user.username) with
  | .error e => return .error (.invalidToken e)
  | .ok () =>
    match ← execute (.createUser user) with
    | .error e => return .error (.createUser e)
    | .ok () =>
      match ← execute (.getRoleByName "admin") with
      | .error e => return .error (.store e)
      | .ok none => return .error .adminRoleMissing
      | .ok (some adminRole) =>
        match ← execute (.assignUserRole user.id adminRole.id) with
        | .error e => return .error (.store e)
        | .ok () =>
          let m ← execute .mint
          let createdAt ← execute .readClock
          let base ← execute .readClock
          match ← execute (.createSession (newSession K user.id m createdAt base none none)) with
          | .error e => return .error (.store e)
          | .ok () =>
            let now ← execute .readClock
            let _ ← execute (.updateUserLastLogin user.id now)
            return .ok m.token

def bootstrapFailed (status : ℕ) (message : String) : Response := { reply := .failed status message }

def BootstrapAdminError.response : BootstrapAdminError → Response
  | invalidToken _ => bootstrapFailed 401 "Invalid or expired bootstrap token."
  | createUser _ => bootstrapFailed 409 "Unable to create account. Please try again."
  | adminRoleMissing => bootstrapFailed 500 "Setup incomplete. Contact your administrator."
  | store _ => bootstrapFailed 500 "A system error occurred. Please try again."

/-- The token that was typed in, if it looks like one and a usable row has its digest. -/
def matchBootstrapToken (otpFull : String) : Call (Except Response String) := do
  let tokenInput := trim otpFull
  if !hasAdminPrefix tokenInput || tokenInput.utf8ByteSize < 20 then
    let _ ← recordLoginFailure ("bootstrap:" ++ r.ip) r.ip "bootstrap_bad_format"
    return .error (bootstrapFailed 400
      "Invalid token format. Copy the full token from the CLI output.")
  else
    match ← execute .listBootstrapTokens with
    | .error _ => return .error internalErrorPage
    | .ok tokens =>
      let now ← execute .readClock
      if !tokens.any fun t => t.isUsable now && t.tokenDigest = K.sha256Hex tokenInput then
        let _ ← recordLoginFailure ("bootstrap:" ++ r.ip) r.ip "bootstrap_invalid_token"
        return .error (bootstrapFailed 401
          "Invalid or expired bootstrap token. Check the CLI output.")
      else
        return .ok tokenInput

/-- The account of the form. -/
def bootstrapUser (form : BootstrapForm) (uuid : ℕ) (hash : String) (now : ℤ) : User :=
  { id := ⟨uuid⟩, username := String.ofList (form.email.toList.takeWhile (· ≠ '@')),
    email := some form.email, emailVerified := true, passwordHash := hash, createdAt := now }

def createFirstAdmin (form : BootstrapForm) (tokenInput : String) : Call Response :=
  if !validateEmail form.email then
    return bootstrapFailed 400 "invalid email format"
  else if !K.validatePassword form.password [form.email] then
    return bootstrapFailed 400 weakPassword
  else do
    match ← execute (.hashPassword form.password) with
    | none => return internalErrorPage
    | some hash =>
      let m ← execute .mint
      let now ← execute .readClock
      match ← consumeBootstrapAndCreateAdmin K tokenInput (bootstrapUser form m.uuid hash now) with
      | .error e => return e.response
      | .ok token =>
        let _ ← recordLoginSuccess form.email r.ip
        return { reply := .redirect (K.abs "/"), cookies := [sessionCookie token] }

def bootstrap (form : BootstrapForm) : Call Response :=
  if !csrfValid r.csrfCookie form.csrfToken then
    return bootstrapFailed 403 "Security token expired. Please reload the page."
  else do
    match ← execute .countUsers with
    | .error _ => return internalErrorPage
    | .ok count =>
      if count > 0 then
        return bootstrapFailed 409 "System already activated."
      else
        match ← checkRateLimit ("bootstrap:" ++ r.ip) r.ip with
        | .error _ => return internalErrorPage
        | .ok false =>
          return bootstrapFailed 429 "Too many bootstrap attempts. Wait 60s and try again."
        | .ok true =>
          match ← matchBootstrapToken K r form.otpFull with
          | .error response => return response
          | .ok tokenInput => createFirstAdmin K r form tokenInput

/-- A one-time token for the first administrator. -/
def adminToken (prefixed : String) (expiresAt : Option ℤ) : BootstrapToken :=
  { tokenDigest := K.sha256Hex prefixed, expiresAt }

def issueAdminBootstrapIfNeeded : Call Response := do
  match ← execute .listBootstrapTokens with
  | .error e => return { reply := .refused e }
  | .ok existing =>
    let now ← execute .readClock
    if existing.any fun t => t.isUsable now then
      return { reply := .issued none }
    else
      let m ← execute .mint
      let base ← execute .readClock
      let prefixed := ADMIN_PREFIX ++ m.token
      match ← execute (.createBootstrapToken (adminToken K prefixed (some (base + 24 * 3600)))) with
      | .error e => return { reply := .refused e }
      | .ok () => return { reply := .issued (some prefixed) }

/-- When a token for an administrator ends; the outer `none` is a panic. -/
def adminExpiry (C : Calendar) (expiresInHours now : ℤ) : Option (Option ℤ) :=
  if expiresInHours > 0 then ((C.hours expiresInHours).bind (C.later now)).map some else some none

def issueAdminBootstrapToken (expiresInHours : ℤ) : Call Response := do
  let m ← execute .mint
  let now ← execute .readClock
  let prefixed := ADMIN_PREFIX ++ m.token
  match adminExpiry K.calendar expiresInHours now with
  | none => return { reply := .panicked }
  | some expiresAt =>
    match ← execute (.createBootstrapToken (adminToken K prefixed expiresAt)) with
    | .error e => return { reply := .refused e }
    | .ok () => return { reply := .issued (some prefixed) }

structure JoinTokenRequest where
  bytes : ℕ := 32
  tokenPrefix : String := ""
  expiresInSecs : Option ℕ := none
  maxUses : ℕ := 1

def prefixAllowed (c : Char) : Bool := c.isAlphanum || c = '_' || c = '-'

def JoinTokenRequest.refusal (req : JoinTokenRequest) : Option String :=
  if !(8 ≤ req.bytes && req.bytes ≤ 256) then
    some ("bytes must be between 8 and 256 (got " ++ toString req.bytes ++ ")")
  else if req.maxUses = 0 then some "max_uses must be >= 1"
  else if req.tokenPrefix.toList.any fun c => !prefixAllowed c then
    some "prefix must be alphanumeric, '_', or '-' only"
  else none

def JoinTokenRequest.text (req : JoinTokenRequest) (encoded : String) : String :=
  if req.tokenPrefix = "" then encoded else req.tokenPrefix ++ "_" ++ encoded

/-- When a token for workers ends; the outer `none` is a panic. -/
def JoinTokenRequest.expiry (C : Calendar) (req : JoinTokenRequest) (now : ℤ) :
    Option (Option ℤ) :=
  match req.expiresInSecs with
  | none => some none
  | some s => ((C.seconds (asI64 s)).bind (C.later now)).map some

/-- A token for workers; it is taken back where its audit event cannot be written. -/
def issueJoinToken (bt : BootstrapToken) (token : String) : Call Response := do
  match ← execute (.createBootstrapToken bt) with
  | .error e => return { reply := .refused e }
  | .ok () =>
    match ← execute (.recordAuditEvent "token.bootstrap.issue") with
    | .ok () => return { reply := .created token }
    | .error _ =>
      let _ ← execute (.revokeBootstrapToken bt.tokenDigest)
      return { reply := .failed 500 "audit recording failed; issued bootstrap token was revoked" }

def createBootstrapToken (req : JoinTokenRequest) : Call Response :=
  match req.refusal with
  | some message => return { reply := .failed 400 message }
  | none => do
    let m ← execute .mint
    let now ← execute .readClock
    let token := req.text m.token
    match req.expiry K.calendar now with
    | none => return { reply := .panicked }
    | some expiresAt =>
      issueJoinToken { tokenDigest := K.sha256Hex token, expiresAt, maxUses := req.maxUses } token

/-- The enrolment of a join; what the handler checks before it is left to its caller. -/
def joinWorker (token usedBy : String) (worker : Worker)
    (credential : WorkerOperationalCredential) : Call Response := do
  match ← execute (.enrollWorker token usedBy worker credential) with
  | .error e => return { reply := .refused e }
  | .ok () => return { reply := .enrolled }

end Bootstrap

end FleetOrchestrator.Accounts
