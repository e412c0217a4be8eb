import FleetOrchestrator.Api.Routes
import FleetOrchestrator.Encoding.Words

/-! Who a request comes from, and what lets it through to its handler. -/

namespace FleetOrchestrator.Api

open Core Encoding

inductive AuthenticationMethod where
  | scopedBearer
  | developmentNoAuth
  | workerOperational
  | cloudflareAccess
  deriving DecidableEq, Repr

structure AuthorizationContext where
  principalId : String
  authenticationMethod : AuthenticationMethod
  capabilities : List PermissionKind
  workerId : Option WorkerId
  deriving DecidableEq, Repr

structure ApiTokenCredential where
  principalId : String
  token : String
  capabilities : List PermissionKind
  deriving DecidableEq, Repr

structure AdminApiToken where
  principalId : String
  tokenDigest : String
  capabilities : List PermissionKind
  deriving DecidableEq, Repr

structure VerifiedUser where
  email : String
  audience : String
  deriving DecidableEq, Repr

/-- The server's configuration, the two lookups in its store (a failed lookup finds nothing), the
digest of a token and the verification of an access token. -/
structure AppState where
  allowNoAuth : Bool := false
  validTokens : Option (List ApiTokenCredential) := none
  cfAudience : Option String := none
  cfPrincipalCapabilities : Option (List (String × List PermissionKind)) := none
  findActiveWorkerOperationalCredential : String → Option WorkerId := fun _ => none
  findActiveAdminTokenByDigest : String → Option AdminApiToken := fun _ => none
  digestFor : String → String
  verifyAccessJwt : Option String → String → Option VerifiedUser := fun _ _ => none

/-- The path is the one that the middleware sees, behind `/v1`. -/
structure Request where
  method : Method
  path : Text
  authorization : Option String := none
  accessJwt : Option String := none

inductive Denial where
  | unauthorized
  | forbidden (context : AuthorizationContext)
  deriving DecidableEq, Repr

/-- The context of a request that was let through, if it needed one. -/
abbrev Passage := Except Denial (Option AuthorizationContext)

def bearerToken (header : String) : Option String :=
  ((stripPrefix "Bearer " header.toList).or (stripPrefix "bearer " header.toList)).map String.ofList

/-- The last of the listed tokens with the digest of the one presented. -/
def tokenMatches (s : AppState) (candidates : List ApiTokenCredential) (presented : String) :
    Option ApiTokenCredential :=
  (candidates.filter fun c => s.digestFor presented = s.digestFor c.token).getLast?

def cfAccessPrincipalId (user : VerifiedUser) : String :=
  if (trim user.email).isEmpty then "cf-access:aud:" ++ user.audience else user.email

def cfAccessCapabilities (s : AppState) (email : String) : List PermissionKind :=
  match s.cfPrincipalCapabilities with
  | none => []
  | some map => (map.lookup (trim email).toLower).getD []

def isHealth (path : Text) : Bool := normalizedV1Path path = "/health".toList

def isJoin (m : Method) (path : Text) : Bool :=
  m = .post && normalizedV1Path path = "/workers/join".toList

def authorizeHttpEndpoint (req : Request) (context : AuthorizationContext) : Bool :=
  if isHealth req.path then true
  else if isJoin req.method req.path then true
  else
    match requiredCapability req.method (normalizedV1Path req.path) with
    | none => false
    | some required => context.capabilities.contains required

def letThrough (req : Request) (context : AuthorizationContext) : Passage :=
  if authorizeHttpEndpoint req context then .ok (some context) else .error (.forbidden context)

def developmentContext : AuthorizationContext where
  principalId := "development"
  authenticationMethod := .developmentNoAuth
  capabilities := PermissionKind.all
  workerId := none

def workerContext (w : WorkerId) : AuthorizationContext where
  principalId := "worker:" ++ toString w
  authenticationMethod := .workerOperational
  capabilities := [.workerRegister, .workerDelete]
  workerId := some w

def adminContext (t : AdminApiToken) : AuthorizationContext where
  principalId := t.principalId
  authenticationMethod := .scopedBearer
  capabilities := t.capabilities
  workerId := none

def bearerContext (t : ApiTokenCredential) : AuthorizationContext where
  principalId := t.principalId
  authenticationMethod := .scopedBearer
  capabilities := t.capabilities
  workerId := none

def cloudflareContext (s : AppState) (user : VerifiedUser) : AuthorizationContext where
  principalId := cfAccessPrincipalId user
  authenticationMethod := .cloudflareAccess
  capabilities := cfAccessCapabilities s user.email
  workerId := none

/-- The credentials that are looked for in the store before the configured ones. -/
def storedContext (s : AppState) (req : Request) : Option AuthorizationContext := do
  let token ← req.authorization.bind bearerToken
  let digest := s.digestFor token
  match s.findActiveWorkerOperationalCredential digest with
  | some w => return workerContext w
  | none =>
    let found ← s.findActiveAdminTokenByDigest digest
    if found.tokenDigest = digest then return adminContext found else none

def configuredContext (s : AppState) (req : Request) (user : Option VerifiedUser) :
    Option AuthorizationContext :=
  match s.validTokens with
  | none =>
    if s.cfAudience.any fun audience => !(trim audience).isEmpty then
      user.map (cloudflareContext s)
    else none
  | some tokens => do
    let token ← req.authorization.bind bearerToken
    let credential ← tokenMatches s tokens token
    return bearerContext credential

def authMiddleware (s : AppState) (req : Request) (user : Option VerifiedUser) : Passage :=
  if s.allowNoAuth then letThrough req developmentContext
  else if isHealth req.path then .ok none
  else if isJoin req.method req.path then .ok none
  else
    match (storedContext s req).or (configuredContext s req user) with
    | some context => letThrough req context
    | none => .error .unauthorized

/-- The outer middleware, if there is an audience: the user that it vouches for, if it has to. -/
def cloudflareAccessMiddleware (s : AppState) (req : Request) :
    Except Denial (Option VerifiedUser) :=
  if s.cfAudience.isNone || s.allowNoAuth then .ok none
  else if req.path = "/v1/health".toList || req.path = "/health".toList then .ok none
  else
    match req.accessJwt.bind (s.verifyAccessJwt s.cfAudience) with
    | none => .error .unauthorized
    | some user => .ok (some user)

def pass (s : AppState) (req : Request) : Passage := do
  let user ← cloudflareAccessMiddleware s req
  authMiddleware s req user

/-- The handler that answers, and whom. -/
def reached (s : AppState) (req : Request) : Option (Handler × Option AuthorizationContext) :=
  match dispatch req.method req.path, pass s req with
  | some h, .ok context => some (h, context)
  | _, _ => none

end FleetOrchestrator.Api
