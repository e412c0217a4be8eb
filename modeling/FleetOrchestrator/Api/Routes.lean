import Mathlib.Data.List.DropRight
import FleetOrchestrator.Core.Fleet
import FleetOrchestrator.Encoding.Paths

/-! The routes under `/v1`, by path pattern, and the capability that a request must have, by tests
on its raw path. -/

namespace FleetOrchestrator.Api

open Encoding

abbrev Text := List Char

inductive Method where
  | get
  | post
  | put
  | delete
  | head
  | other (name : String)
  deriving DecidableEq, Repr

inductive PermissionKind where
  | dashboardView
  | taskList
  | taskCreate
  | taskCancel
  | taskRead
  | taskOutput
  | taskDelete
  | workerList
  | workerRegister
  | workerDelete
  | workerCredentialManage
  | workerLlmCredentialRead
  | workerLlmCredentialExport
  | workerLlmCredentialManage
  | tokenIssue
  | tokenList
  | tokenRevoke
  | adminTokenManage
  | adminTokenList
  | userCreate
  | userDelete
  | userRead
  | userRoleAssign
  | userRoleRevoke
  | roleCreate
  | roleDelete
  | auditRead
  | hostProvision
  | projectRead
  | projectCreate
  | projectDelete
  | agentRead
  | agentManage
  | agentTemplateRead
  | agentTemplateCreate
  | agentTemplateUpdate
  | agentTemplateLifecycle
  | agentTemplateRevisionRevoke
  | agentTemplateManageGlobal
  | issueRead
  | issueCreate
  | issueComment
  | issueUpdate
  | issueAssign
  | issueApproveAgentWork
  | issueClose
  | issueReopen
  | issueLink
  | eventsList
  | metricsView
  deriving DecidableEq, Repr

def PermissionKind.all : List PermissionKind :=
  [.dashboardView, .taskList, .taskCreate, .taskCancel, .taskRead, .taskOutput, .taskDelete,
    .workerList, .workerRegister, .workerDelete, .workerCredentialManage,
    .workerLlmCredentialRead, .workerLlmCredentialExport, .workerLlmCredentialManage, .tokenIssue,
    .tokenList, .tokenRevoke, .adminTokenManage, .adminTokenList, .userCreate, .userDelete,
    .userRead, .userRoleAssign, .userRoleRevoke, .roleCreate, .roleDelete, .auditRead,
    .hostProvision, .projectRead, .projectCreate, .projectDelete, .agentRead, .agentManage,
    .agentTemplateRead, .agentTemplateCreate, .agentTemplateUpdate, .agentTemplateLifecycle,
    .agentTemplateRevisionRevoke, .agentTemplateManageGlobal, .issueRead, .issueCreate,
    .issueComment, .issueUpdate, .issueAssign, .issueApproveAgentWork, .issueClose, .issueReopen,
    .issueLink, .eventsList, .metricsView]

inductive Handler where
  | health
  | registerHost
  | registerWorker
  | joinWorker
  | heartbeat
  | listWorkers
  | getWorker
  | deregisterWorker
  | rotateWorkerCredential
  | revokeWorkerCredential
  | putWorkerCredential
  | listWorkerCredentials
  | exportWorkerCredential
  | deleteWorkerCredential
  | createBootstrapToken
  | listBootstrapTokens
  | revokeBootstrapToken
  | createAdminToken
  | listAdminTokens
  | rotateAdminToken
  | revokeAdminToken
  deriving DecidableEq, Repr

/-- What the handler does is for the holders of this capability. -/
def Handler.capability : Handler → Option PermissionKind
  | .health | .joinWorker => none
  | .registerHost => some .hostProvision
  | .registerWorker | .heartbeat => some .workerRegister
  | .listWorkers | .getWorker => some .workerList
  | .deregisterWorker => some .workerDelete
  | .rotateWorkerCredential | .revokeWorkerCredential => some .workerCredentialManage
  | .putWorkerCredential | .deleteWorkerCredential => some .workerLlmCredentialManage
  | .listWorkerCredentials => some .workerLlmCredentialRead
  | .exportWorkerCredential => some .workerLlmCredentialExport
  | .createBootstrapToken => some .tokenIssue
  | .listBootstrapTokens => some .tokenList
  | .revokeBootstrapToken => some .tokenRevoke
  | .createAdminToken | .rotateAdminToken | .revokeAdminToken => some .adminTokenManage
  | .listAdminTokens => some .adminTokenList

section Router

/-- A segment of a route. A parameter takes any segment that is not empty. -/
inductive Piece where
  | lit (s : String)
  | param
  deriving DecidableEq

def Piece.matches : Piece → Text → Bool
  | .lit s, x => x = s.toList
  | .param, x => !x.isEmpty

structure Route where
  pieces : List Piece
  methods : List (Method × Handler)

def matchesAll : List Piece → List Text → Bool
  | [], [] => true
  | p :: ps, x :: xs => p.matches x && matchesAll ps xs
  | _, _ => false

def nest (pieces : List Piece) (routes : List Route) : List Route :=
  routes.map fun r => { r with pieces := pieces ++ r.pieces }

def credRoutes : List Route :=
  [⟨[], [(.put, .putWorkerCredential), (.get, .listWorkerCredentials)]⟩,
    ⟨[.param, .lit "export"], [(.get, .exportWorkerCredential)]⟩,
    ⟨[.param], [(.delete, .deleteWorkerCredential)]⟩]

def apiRoutes : List Route :=
  [⟨[.lit "register"], [(.post, .registerWorker)]⟩,
    ⟨[.lit "join"], [(.post, .joinWorker)]⟩,
    ⟨[.lit "heartbeat"], [(.post, .heartbeat)]⟩,
    ⟨[], [(.get, .listWorkers)]⟩,
    ⟨[.param], [(.get, .getWorker), (.delete, .deregisterWorker)]⟩,
    ⟨[.param, .lit "credential", .lit "rotate"], [(.post, .rotateWorkerCredential)]⟩,
    ⟨[.param, .lit "credential"], [(.delete, .revokeWorkerCredential)]⟩] ++
    nest [.param, .lit "credentials"] credRoutes

def tokenRoutes : List Route :=
  [⟨[], [(.post, .createBootstrapToken), (.get, .listBootstrapTokens)]⟩,
    ⟨[.param], [(.delete, .revokeBootstrapToken)]⟩]

def adminTokenRoutes : List Route :=
  [⟨[], [(.post, .createAdminToken), (.get, .listAdminTokens)]⟩,
    ⟨[.param, .lit "rotate"], [(.post, .rotateAdminToken)]⟩,
    ⟨[.param], [(.delete, .revokeAdminToken)]⟩]

/-- Where a literal and a parameter both match, the literal's route comes first. -/
def v1Routes : List Route :=
  [⟨[.lit "health"], [(.get, .health)]⟩,
    ⟨[.lit "hosts", .lit "register"], [(.post, .registerHost)]⟩] ++
    nest [.lit "workers"] apiRoutes ++ nest [.lit "bootstrap-tokens"] tokenRoutes ++
      nest [.lit "admin", .lit "tokens"] adminTokenRoutes

/-- A route for GET also answers HEAD. -/
def Route.handler (r : Route) : Method → Option Handler
  | .head => r.methods.lookup .get
  | m => r.methods.lookup m

def dispatch (m : Method) (path : Text) : Option Handler := do
  let xs ← pathSegments '/' path
  let route ← v1Routes.find? fun r => matchesAll r.pieces xs
  route.handler m

end Router

section Capabilities

def stripPrefix (p : String) (path : Text) : Option Text := path.dropPrefix? p.toList

def startsWith (p : String) (path : Text) : Bool := p.toList.isPrefixOf path

def endsWith (p : String) (path : Text) : Bool := p.toList.isSuffixOf path

def splitOnce (sep : Char) (s : Text) : Option (Text × Text) :=
  match s.dropWhile fun c => c ≠ sep with
  | [] => none
  | _ :: tail => some (s.takeWhile fun c => c ≠ sep, tail)

def normalizedV1Path (path : Text) : Text :=
  match stripPrefix "/v1" path with
  | some rest => if startsWith "/" rest then rest else path
  | none => path

inductive LlmCredentialRoute where
  | collection
  | item
  | export
  deriving DecidableEq, Repr

def llmCredentialRoute (path : Text) : Option LlmCredentialRoute := do
  let rest ← stripPrefix "/workers/" path
  let (name, tail) ← splitOnce '/' rest
  if name.isEmpty then none
  else
    let tail ← stripPrefix "credentials" tail
    let item := tail.rdropWhile fun c => c = '/'
    if item.isEmpty then some .collection
    else if startsWith "/" item && endsWith "/export" item then some .export
    else some .item

def isWorkerByIdRoute (path : Text) : Bool :=
  match stripPrefix "/workers/" path with
  | some rest => !rest.isEmpty && !rest.contains '/'
  | none => false

def requiredCapability (m : Method) (path : Text) : Option PermissionKind :=
  if m = .get && path = "/workers".toList then some .workerList
  else if (m = .post && path = "/workers/register".toList) ||
      (m = .post && path = "/workers/heartbeat".toList) then some .workerRegister
  else if m = .post && endsWith "/credential/rotate" path then some .workerCredentialManage
  else if m = .delete && (startsWith "/workers/" path && endsWith "/credential" path) then
    some .workerCredentialManage
  else if m = .get && llmCredentialRoute path = some .export then some .workerLlmCredentialExport
  else if m = .get && (llmCredentialRoute path).isSome then some .workerLlmCredentialRead
  else if (m = .put || m = .delete) && (llmCredentialRoute path).isSome then
    some .workerLlmCredentialManage
  else if m = .get && isWorkerByIdRoute path then some .workerList
  else if m = .delete && startsWith "/workers/" path then some .workerDelete
  else if m = .post && path = "/bootstrap-tokens".toList then some .tokenIssue
  else if m = .get && path = "/bootstrap-tokens".toList then some .tokenList
  else if m = .delete && startsWith "/bootstrap-tokens/" path then some .tokenRevoke
  else if m = .get && path = "/admin/tokens".toList then some .adminTokenList
  else if m = .post && path = "/admin/tokens".toList then some .adminTokenManage
  else if m = .post && (startsWith "/admin/tokens/" path && endsWith "/rotate" path) then
    some .adminTokenManage
  else if m = .delete && startsWith "/admin/tokens/" path then some .adminTokenManage
  else if m = .post && path = "/hosts/register".toList then some .hostProvision
  else none

end Capabilities

end FleetOrchestrator.Api
