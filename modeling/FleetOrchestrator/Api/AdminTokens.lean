import FleetOrchestrator.Api.Middleware
import FleetOrchestrator.Core.Errors
import FleetOrchestrator.Interleaving.Log
import FleetOrchestrator.Store.Tasks

/-! The bearer tokens of administrators, issued, rotated and withdrawn by any number of servers over
one table. -/

namespace FleetOrchestrator.Api.AdminTokens

open Core Store Tables Interleaving Machine

structure AdminTokenRow where
  principalId : String
  tokenDigest : String
  capabilities : List PermissionKind
  createdAt : ℤ
  rotatedAt : Option ℤ := none
  revokedAt : Option ℤ := none
  rotationGeneration : ℕ := 1
  deriving DecidableEq

namespace AdminTokenRow

def token (t : AdminTokenRow) : AdminApiToken := ⟨t.principalId, t.tokenDigest, t.capabilities⟩

def rotated (t : AdminTokenRow) (digest : String) (now : ℤ) : AdminTokenRow :=
  { t with
    tokenDigest := digest, rotatedAt := some now, revokedAt := none,
    rotationGeneration := t.rotationGeneration + 1 }

def revoked (t : AdminTokenRow) (now : ℤ) : AdminTokenRow := { t with revokedAt := some now }

end AdminTokenRow

abbrev AdminTokenTable := Keyed String AdminTokenRow AdminTokenRow.principalId

def withDigest (w : AdminTokenTable) (digest : String) : Bool :=
  w.rows.any fun t => t.tokenDigest = digest

def duplicateKey (constraint : String) : String :=
  "duplicate key value violates unique constraint \"admin_api_tokens_" ++ constraint ++ "\""

def createAdminTokenRow (b : Backend) (w : AdminTokenTable) (t : AdminTokenRow) :
    Except StoreError Unit × AdminTokenTable :=
  let taken (mem pg : String) : StoreError := match b with
    | .mem => .conflict mem
    | .pg => .conflict ("admin token principal or digest already exists: " ++ duplicateKey pg)
  if w.contains t.principalId then
    (.error (taken ("admin token principal already exists: " ++ t.principalId) "pkey"), w)
  else if withDigest w t.tokenDigest then
    (.error (taken "admin token digest already exists" "token_digest_key"), w)
  else (.ok (), w.put t)

/-- Only the database looks whether another row has the digest. -/
def rotateAdminTokenRow (b : Backend) (w : AdminTokenTable) (now : ℤ) (p digest : String) :
    Except StoreError AdminTokenRow × AdminTokenTable :=
  match w.get p with
  | none => (.error .notFound, w)
  | some t =>
    if b = .pg && w.rows.any fun x => x.tokenDigest = digest && x.principalId ≠ p then
      (.error (.sqlx ("error returned from database: " ++ duplicateKey "token_digest_key")), w)
    else
      (.ok (t.rotated digest now), w.modify p (fun t => t.rotated digest now) fun _ => rfl)

def revokeAdminTokenRow (w : AdminTokenTable) (now : ℤ) (p : String) : Bool × AdminTokenTable :=
  match w.get p with
  | some t =>
    if t.revokedAt.isNone then (true, w.modify p (fun t => t.revoked now) fun _ => rfl)
    else (false, w)
  | none => (false, w)

def findActiveAdminTokenByDigest (rank : String → ℕ) (w : AdminTokenTable) (digest : String) :
    Option AdminTokenRow :=
  (inOrder rank AdminTokenRow.principalId w.rows).find? fun t =>
    t.tokenDigest = digest && t.revokedAt.isNone

def listAdminTokens (rank : String → ℕ) (w : AdminTokenTable) : List AdminTokenRow :=
  newestFirst AdminTokenRow.createdAt (inOrder rank AdminTokenRow.principalId w.rows)

/-- What the servers have in common, and the tokens that each is configured with. -/
structure Site where
  backend : Backend := .pg
  digestFor : String → String
  validTokens : ℕ → Option (List ApiTokenCredential) := fun _ => none

structure World where
  tokens : AdminTokenTable := .empty
  /-- The digests of the tokens drawn so far. -/
  drawn : List String := []

inductive Op where
  | generateToken
  | utcNow
  | createAdminToken (t : AdminTokenRow)
  | listAdminTokens
  | rotateAdminToken (principalId digest : String)
  | revokeAdminToken (principalId : String)
  | recordAuditEvent (action principalId : String)

abbrev Op.Resp : Op → Type
  | .generateToken => Except String String
  | .utcNow => ℤ
  | .createAdminToken _ => Except StoreError Unit
  | .listAdminTokens => Except StoreError (List AdminTokenRow)
  | .rotateAdminToken _ _ => Except StoreError AdminTokenRow
  | .revokeAdminToken _ => Except StoreError Bool
  | .recordAuditEvent _ _ => Except StoreError Unit

abbrev Call (α : Type) := Prog Op Op.Resp α

abbrev History := List (Entry Op Op.Resp)

abbrev Log := List (Interleaving.Call Op Op.Resp ℕ)

def execute (op : Op) : Call op.Resp := Prog.perform op

structure Choice where
  fault : Option StoreError := none
  token : Except String String := .error ""
  now : ℤ := 0
  rank : String → ℕ := fun _ => 0

def attempt {α : Type} (ch : Choice) (w : World) (k : Except StoreError α × World) :
    Except StoreError α × World :=
  match ch.fault with
  | some e => (.error e, w)
  | none => k

/-- A random token is drawn once. -/
def exec (K : Site) (ch : Choice) (_ : ℕ) : (op : Op) → World → Option (op.Resp × World)
  | .generateToken, w =>
    match ch.token with
    | .error e => some (.error e, w)
    | .ok token =>
      if w.drawn.contains (K.digestFor token) then none
      else some (.ok token, { w with drawn := K.digestFor token :: w.drawn })
  | .utcNow, w => some (ch.now, w)
  | .createAdminToken t, w =>
    let r := createAdminTokenRow K.backend w.tokens t
    some (attempt ch w (r.1, { w with tokens := r.2 }))
  | .listAdminTokens, w =>
    some (attempt ch w (.ok (AdminTokens.listAdminTokens ch.rank w.tokens), w))
  | .rotateAdminToken p digest, w =>
    let r := rotateAdminTokenRow K.backend w.tokens ch.now p digest
    some (attempt ch w (r.1, { w with tokens := r.2 }))
  | .revokeAdminToken p, w =>
    let r := revokeAdminTokenRow w.tokens ch.now p
    some (attempt ch w (.ok r.1, { w with tokens := r.2 }))
  | .recordAuditEvent _ _, w => some (attempt ch w (.ok (), w))

inductive Reply where
  | issued (principalId token : String) (capabilities : List PermissionKind)
      (rotationGeneration : ℕ)
  | revoked (principalId : String)
  | failed (e : ApiError)
  | internal (msg : String)
  /-- What the start of a server leaves in the file for the operator. -/
  | started (bootstrap : Option String)

def Reply.token : Reply → Option String
  | .issued _ token _ _ => some token
  | .started bootstrap => bootstrap
  | _ => none

def noEntropy (e : String) : String := "CSPRNG failure: " ++ e

def createAdminToken (K : Site) (principalId : String) (capabilities : List PermissionKind) :
    Call Reply :=
  let principalId := trim principalId
  if principalId.isEmpty then
    return .failed (.badRequest "principal_id must not be empty")
  else if capabilities.isEmpty then
    return .failed (.badRequest "capabilities must not be empty")
  else do
    match ← execute .generateToken with
    | .error e => return .internal (noEntropy e)
    | .ok token =>
      let createdAt ← execute .utcNow
      match ← execute (.createAdminToken
          { principalId, tokenDigest := K.digestFor token, capabilities, createdAt }) with
      | .error e => return .failed (.ofStore e)
      | .ok _ =>
        match ← execute (.recordAuditEvent "admin_token.create" principalId) with
        | .error _ =>
          let _ ← execute (.revokeAdminToken principalId)
          return .internal "audit recording failed; issued admin token was revoked"
        | .ok _ => return .issued principalId token capabilities 1

def rotateFailed (principalId : String) : StoreError → ApiError
  | .notFound => .notFound ("no admin token for principal " ++ principalId)
  | e => .ofStore e

def rotateAdminToken (K : Site) (principalId : String) : Call Reply := do
  match ← execute .generateToken with
  | .error e => return .internal (noEntropy e)
  | .ok token =>
    match ← execute (.rotateAdminToken principalId (K.digestFor token)) with
    | .error e => return .failed (rotateFailed principalId e)
    | .ok record =>
      match ← execute (.recordAuditEvent "admin_token.rotate" principalId) with
      | .error _ =>
        let _ ← execute (.revokeAdminToken principalId)
        return .internal "audit recording failed; rotated admin token was revoked"
      | .ok _ =>
        return .issued record.principalId token record.capabilities record.rotationGeneration

def revokeAdminToken (principalId : String) : Call Reply := do
  match ← execute (.revokeAdminToken principalId) with
  | .error e => return .failed (.ofStore e)
  | .ok false => return .failed (.notFound ("no active admin token for principal " ++ principalId))
  | .ok true =>
    let _ ← execute (.recordAuditEvent "admin_token.revoke" principalId)
    return .revoked principalId

/-- One turn of the loop, for a principal that was not listed. -/
def importToken (K : Site) (t : ApiTokenCredential) : Call (Except StoreError Unit) := do
  let createdAt ← execute .utcNow
  match ← execute (.createAdminToken
      { principalId := t.principalId, tokenDigest := K.digestFor t.token,
        capabilities := t.capabilities, createdAt }) with
  | .ok _ => return .ok ()
  | .error (.conflict _) => return .ok ()
  | .error e => return .error e

def importTokens (K : Site) (existing : List String) :
    List ApiTokenCredential → Call (Except StoreError Unit)
  | [] => return .ok ()
  | t :: tokens =>
    if existing.contains t.principalId then importTokens K existing tokens
    else do
      match ← importToken K t with
      | .error e => return .error e
      | .ok _ => importTokens K existing tokens

def syncEnvAdminTokensToStore (K : Site) (tokens : List ApiTokenCredential) :
    Call (Except StoreError Unit) := do
  match ← execute .listAdminTokens with
  | .error e => return .error e
  | .ok existing => importTokens K (existing.map AdminTokenRow.principalId) tokens

def issueAdminBootstrapTokenIfNeeded (K : Site) : Call (Except StoreError (Option String)) := do
  match ← execute .listAdminTokens with
  | .error e => return .error e
  | .ok existing =>
    if !existing.isEmpty then return .ok none
    else
      match ← execute .generateToken with
      | .error e => return .error (.decode (noEntropy e))
      | .ok token =>
        let createdAt ← execute .utcNow
        match ← execute (.createAdminToken
            { principalId := "bootstrap", tokenDigest := K.digestFor token,
              capabilities := PermissionKind.all, createdAt }) with
        | .ok _ => return .ok (some token)
        | .error (.conflict _) => return .ok none
        | .error e => return .error e

def importConfigured (K : Site) : Option (List ApiTokenCredential) → Call (Except StoreError Unit)
  | none => return .ok ()
  | some tokens => if tokens.isEmpty then return .ok () else syncEnvAdminTokensToStore K tokens

/-- What the start of a server has to do with the tokens; neither failure stops it. -/
def start (K : Site) (p : ℕ) : Call Reply := do
  let _ ← importConfigured K (K.validTokens p)
  match ← issueAdminBootstrapTokenIfNeeded K with
  | .ok token => return .started token
  | .error _ => return .started none

inductive Activity where
  | createAdminToken (principalId : String) (capabilities : List PermissionKind)
  | rotateAdminToken (principalId : String)
  | revokeAdminToken (principalId : String)
  | start

def program (K : Site) (p : ℕ) : Activity → Call Reply
  | .createAdminToken principalId capabilities => createAdminToken K principalId capabilities
  | .rotateAdminToken principalId => rotateAdminToken K principalId
  | .revokeAdminToken principalId => revokeAdminToken principalId
  | .start => start K p

/-- Any number of servers, each serving any number of requests. -/
def servers (K : Site) : Machine Op Op.Resp ℕ Activity Reply World Choice Unit where
  program := program K
  exec := exec K
  spawned _ _ := []
  accept _ _ w := some w
  disturb _ w := some w

abbrev TokenConfig := Config Op Op.Resp ℕ Activity Reply World

/-- A server as a request finds it: `s` is everything but the administrators' tokens. -/
def Site.facing (K : Site) (q : ℕ) (rank : String → ℕ) (w : World) (s : AppState) : AppState :=
  { s with
    validTokens := K.validTokens q
    digestFor := K.digestFor
    findActiveAdminTokenByDigest := fun digest =>
      (findActiveAdminTokenByDigest rank w.tokens digest).map AdminTokenRow.token }

/-- The digest of a token that the configuration of the server `q` holds. -/
def Site.Configured (K : Site) (q : ℕ) (digest : String) : Prop :=
  ∃ tokens, K.validTokens q = some tokens ∧ ∃ t ∈ tokens, K.digestFor t.token = digest

def Presents (K : Site) (req : Request) (digest : String) : Prop :=
  ∃ token, req.authorization.bind bearerToken = some token ∧ K.digestFor token = digest

/-- A token with that digest opens no server to an administrator. -/
def Barred (K : Site) (digest : String) (w : World) : Prop :=
  ∀ q rank s req ctx, Presents K req digest → pass (K.facing q rank w s) req = .ok (some ctx) →
    ctx.authenticationMethod ≠ .scopedBearer

/-- What is known of a principal's token. -/
structure Standing where
  token : AdminApiToken
  active : Bool
  deriving DecidableEq

abbrev Known := String → Option Standing

def AdminTokenRow.standing (t : AdminTokenRow) : Standing := ⟨t.token, t.revokedAt.isNone⟩

def known (w : AdminTokenTable) : Known := fun p => (w.get p).map AdminTokenRow.standing

def Known.change (s : Known) (p : String) (f : Standing → Standing) : Known :=
  Function.update s p ((s p).map f)

/-- What an operation that has been answered says of the tokens. -/
def recorded (s : Known) : Entry Op Op.Resp → Known
  | ⟨.createAdminToken t, .ok _⟩ => Function.update s t.principalId (some ⟨t.token, true⟩)
  | ⟨.rotateAdminToken p digest, .ok _⟩ =>
    s.change p fun x => ⟨{ x.token with tokenDigest := digest }, true⟩
  | ⟨.revokeAdminToken p, .ok true⟩ => s.change p fun x => { x with active := false }
  | _ => s

def told : Log → Known
  | [] => fun _ => none
  | k :: log => recorded (told log) k.entry

/-- The principal and the digest that an operation has put into the table. -/
def put : Entry Op Op.Resp → Option (String × String)
  | ⟨.createAdminToken t, .ok _⟩ => some (t.principalId, t.tokenDigest)
  | ⟨.rotateAdminToken p digest, .ok _⟩ => some (p, digest)
  | _ => none

/-- The operation ends the principal's token of before. -/
inductive Withdraws (p : String) : Entry Op Op.Resp → Prop
  | rotated (digest : String) (t : AdminTokenRow) : Withdraws p ⟨.rotateAdminToken p digest, .ok t⟩
  | revoked : Withdraws p ⟨.revokeAdminToken p, .ok true⟩

section Tables

variable {K : Site} {ch : Choice} {q : ℕ} {w w' : World} {t : AdminTokenTable}

theorem known_put (x : AdminTokenRow) :
    known (t.put x) = Function.update (known t) x.principalId (some x.standing) := by
  funext p
  by_cases hp : p = x.principalId
  · subst hp
    rw [Function.update_self, known, Keyed.get_put_self]
    rfl
  · rw [Function.update_of_ne hp, known, Keyed.get_put_ne hp]
    rfl

theorem known_modify {p : String} {x : AdminTokenRow} {f : AdminTokenRow → AdminTokenRow}
    (hf : ∀ r, (f r).principalId = r.principalId) {g : Standing → Standing} (hx : t.get p = some x)
    (hg : (f x).standing = g x.standing) : known (t.modify p f hf) = (known t).change p g := by
  funext p'
  by_cases hp : p' = p
  · subst hp
    simp only [Known.change, Function.update_self, known, Keyed.get_modify_self, hx, Option.map_some,
      hg]
  · simp only [Known.change, Function.update_of_ne hp, known, Keyed.get_modify_ne hp]

theorem known_create (b : Backend) (x : AdminTokenRow) (hx : x.revokedAt = none) :
    known (createAdminTokenRow b t x).2 =
      recorded (known t) ⟨.createAdminToken x, (createAdminTokenRow b t x).1⟩ := by
  unfold createAdminTokenRow
  dsimp only
  split_ifs
  · rfl
  · rfl
  · have hs : x.standing = ⟨x.token, true⟩ := by simp [AdminTokenRow.standing, hx]
    rw [known_put, hs]
    rfl

theorem known_rotate (b : Backend) (now : ℤ) (p digest : String) :
    known (rotateAdminTokenRow b t now p digest).2 =
      recorded (known t) ⟨.rotateAdminToken p digest, (rotateAdminTokenRow b t now p digest).1⟩ := by
  unfold rotateAdminTokenRow
  cases hx : t.get p with
  | none => rfl
  | some x =>
    dsimp only
    split_ifs
    · rfl
    · refine known_modify (f := fun t => t.rotated digest now) (fun _ => rfl) hx ?_
      rfl

theorem known_revoke (now : ℤ) (p : String) :
    known (revokeAdminTokenRow t now p).2 =
      recorded (known t) ⟨.revokeAdminToken p, .ok (revokeAdminTokenRow t now p).1⟩ := by
  unfold revokeAdminTokenRow
  cases hx : t.get p with
  | none => rfl
  | some x =>
    dsimp only
    split_ifs
    · refine known_modify (f := fun t => t.revoked now) (fun _ => rfl) hx ?_
      rfl
    · rfl

/-- Each operation does to the table what its answer says. -/
theorem exec_known {op : Op} {r : op.Resp} (he : exec K ch q op w = some (r, w'))
    (hc : ∀ t, op = .createAdminToken t → t.revokedAt = none) :
    known w'.tokens = recorded (known w.tokens) ⟨op, r⟩ := by
  cases op with
  | generateToken =>
    simp only [exec] at he
    split at he
    · cases he
      rfl
    · split_ifs at he
      cases he
      rfl
  | createAdminToken t =>
    cases hf : ch.fault <;> simp only [exec, attempt, hf] at he <;> cases he
    · exact known_create _ _ (hc t rfl)
    · rfl
  | rotateAdminToken p digest =>
    cases hf : ch.fault <;> simp only [exec, attempt, hf] at he <;> cases he
    · exact known_rotate _ _ _ _
    · rfl
  | revokeAdminToken p =>
    cases hf : ch.fault <;> simp only [exec, attempt, hf] at he <;> cases he
    · exact known_revoke _ _
    · rfl
  | utcNow =>
    cases he
    rfl
  | listAdminTokens =>
    cases hf : ch.fault <;> simp only [exec, attempt, hf] at he <;> cases he <;> rfl
  | recordAuditEvent a p =>
    cases hf : ch.fault <;> simp only [exec, attempt, hf] at he <;> cases he <;> rfl

end Tables

/-- Apart from what the rules name, an operation draws nothing and puts nothing. -/
def Op.puts : Op → Bool
  | .createAdminToken _ | .rotateAdminToken _ _ => true
  | _ => false

/-- The digest is of the token drawn last, and nothing has been put since. -/
def Drew (K : Site) (digest : String) (h : History) : Prop :=
  ∃ token h₀, K.digestFor token = digest ∧
    Grew (fun op => op.puts = false) (⟨.generateToken, .ok token⟩ :: h₀) h

def Rules (K : Site) (q : ℕ) (_ : Activity) (h : History) : Op → Prop
  | .createAdminToken t =>
    t.revokedAt = none ∧ (Drew K t.tokenDigest h ∨ K.Configured q t.tokenDigest)
  | .rotateAdminToken _ digest => Drew K digest h
  | _ => True

/-- A token that was drawn and not handed out is not in the table, or a revocation followed. -/
def Accounted (K : Site) (q : ℕ) (out : Reply) (h : History) : Prop :=
  ∀ token, (⟨.generateToken, .ok token⟩ : Entry Op Op.Resp) ∈ h → out.token ≠ some token →
    ¬ K.Configured q (K.digestFor token) →
      (∀ e ∈ h, ∀ p, put e ≠ some (p, K.digestFor token)) ∨
        ∃ p r h₁, (⟨.revokeAdminToken p, r⟩ :: h₁ : History) <:+ h ∧
          ∃ e ∈ h₁, put e = some (p, K.digestFor token)

def foundingRow (K : Site) (token : String) (createdAt : ℤ) : AdminTokenRow where
  principalId := "bootstrap"
  tokenDigest := K.digestFor token
  capabilities := PermissionKind.all
  createdAt

def Founded (K : Site) (out : Reply) (h : History) : Prop :=
  ∀ token, out = .started (some token) →
    (⟨.listAdminTokens, .ok []⟩ : Entry Op Op.Resp) ∈ h ∧
      ∃ now, (⟨.createAdminToken (foundingRow K token now), .ok ()⟩ : Entry Op Op.Resp) ∈ h

def Ends (K : Site) (q : ℕ) (_ : Activity) (out : Reply) (h : History) : Prop :=
  Accounted K q out h ∧ Founded K out h

section Conduct

variable {K : Site} {q : ℕ} {a : Activity} {out : Reply} {h : History} {token : String}

theorem accounted_unput (hn : ∀ e ∈ h, ∀ p d, put e = some (p, d) → K.Configured q d) :
    Accounted K q out h := by
  intro token _ _ hc
  refine .inl fun e he p hp => hc (hn e he p _ hp)

theorem accounted_issued (ht : out.token = some token)
    (hone : ∀ t, (⟨.generateToken, .ok t⟩ : Entry Op Op.Resp) ∈ h → t = token) :
    Accounted K q out h := by
  intro t hm hne
  rw [hone t hm] at hne
  exact absurd ht hne

theorem accounted_revoked {p : String} {r : Except StoreError Bool} {e : Entry Op Op.Resp}
    (he : e ∈ h) (hp : put e = some (p, K.digestFor token))
    (hone : ∀ t, (⟨.generateToken, .ok t⟩ : Entry Op Op.Resp) ∈ h → t = token) :
    Accounted K q out (⟨.revokeAdminToken p, r⟩ :: h) := by
  intro t hm _ _
  have ht : t = token := by
    apply hone
    simpa using hm
  subst ht
  exact .inr ⟨p, r, h, List.suffix_rfl, e, he, hp⟩

theorem unfounded (hn : ∀ token, out ≠ .started (some token)) : Founded K out h :=
  fun token he => absurd he (hn token)

theorem createAdminToken_obeys (p : String) (capabilities : List PermissionKind) :
    Obeys (Rules K q a) (Ends K q a) (createAdminToken K p capabilities) [] := by
  unfold createAdminToken
  generalize trim p = name
  dsimp only
  have failed {h : History} {e : ApiError}
      (hn : ∀ e ∈ h, ∀ p d, put e = some (p, d) → K.Configured q d) :
      Ends K q a (.failed e) h := ⟨accounted_unput hn, unfounded fun _ he => by cases he⟩
  have refused (e : ApiError) : Obeys (Rules K q a) (Ends K q a) (.ret (.failed e)) [] :=
    obeys_ret (failed (by simp))
  apply obeys_ite fun _ => refused _
  intro _
  apply obeys_ite fun _ => refused _
  intro _
  apply obeys_step trivial
  intro x
  cases x with
  | error e => exact ⟨accounted_unput (by simp [put]), unfounded fun _ he => by cases he⟩
  | ok token =>
    apply obeys_step trivial
    intro createdAt
    apply obeys_step ⟨rfl, .inl ⟨token, [], rfl, .one rfl⟩⟩
    intro x
    cases x with
    | error e => exact failed (by simp [put])
    | ok u =>
      apply obeys_step trivial
      intro x
      cases x with
      | ok u => exact ⟨accounted_issued rfl (by simp), unfounded fun _ he => by cases he⟩
      | error e =>
        apply obeys_step trivial
        intro r
        refine ⟨accounted_revoked (.tail _ (.head _)) rfl (by simp), unfounded fun _ he => ?_⟩
        cases he

theorem rotateAdminToken_obeys (p : String) :
    Obeys (Rules K q a) (Ends K q a) (rotateAdminToken K p) [] := by
  apply obeys_step trivial
  intro x
  cases x with
  | error e => exact ⟨accounted_unput (by simp [put]), unfounded fun _ he => by cases he⟩
  | ok token =>
    apply obeys_step ⟨token, [], rfl, .refl _⟩
    intro x
    cases x with
    | error e => exact ⟨accounted_unput (by simp [put]), unfounded fun _ he => by cases he⟩
    | ok record =>
      apply obeys_step trivial
      intro x
      cases x with
      | ok u => exact ⟨accounted_issued rfl (by simp), unfounded fun _ he => by cases he⟩
      | error e =>
        apply obeys_step trivial
        intro r
        refine ⟨accounted_revoked (.tail _ (.head _)) rfl (by simp), unfounded fun _ he => ?_⟩
        cases he

theorem revokeAdminToken_obeys (p : String) :
    Obeys (Rules K q a) (Ends K q a) (revokeAdminToken p) [] := by
  apply obeys_step trivial
  intro x
  rcases x with e | (_ | _)
  · exact ⟨accounted_unput (by simp [put]), unfounded fun _ he => by cases he⟩
  · exact ⟨accounted_unput (by simp [put]), unfounded fun _ he => by cases he⟩
  · apply obeys_step trivial
    intro x
    exact ⟨accounted_unput (by simp [put]), unfounded fun _ he => by cases he⟩

/-- What the import of the configured tokens does. -/
def Imports (K : Site) (q : ℕ) : Op → Prop
  | .createAdminToken t => t.revokedAt = none ∧ K.Configured q t.tokenDigest
  | .utcNow | .listAdminTokens => True
  | _ => False

theorem uses_importTokens {tokens : List ApiTokenCredential} (existing : List String)
    (ht : ∀ t ∈ tokens, K.Configured q (K.digestFor t.token)) :
    Uses (Imports K q) (importTokens K existing tokens) := by
  induction tokens with
  | nil => exact uses_ret _
  | cons t tokens ih =>
    have hlater := ih fun x hx => ht x (.tail _ hx)
    apply uses_ite hlater
    apply uses_bind
    · apply uses_step trivial
      intro createdAt
      apply uses_step ⟨rfl, ht t (.head _)⟩
      intro x
      cases x with
      | ok u => exact uses_ret _
      | error e => cases e <;> exact uses_ret _
    · intro x
      cases x with
      | error e => exact uses_ret _
      | ok u => exact hlater

theorem uses_importConfigured : Uses (Imports K q) (importConfigured K (K.validTokens q)) := by
  cases hv : K.validTokens q with
  | none => exact uses_ret _
  | some tokens =>
    apply uses_ite (uses_ret _)
    apply uses_step trivial
    intro x
    cases x with
    | error e => exact uses_ret _
    | ok existing => exact uses_importTokens _ fun t ht => ⟨tokens, hv, t, ht, rfl⟩

theorem imports_rules (h : History) (op : Op) (ho : Imports K q op) : Rules K q a h op := by
  cases op with
  | createAdminToken t => exact ⟨ho.1, .inr ho.2⟩
  | rotateAdminToken p digest => exact ho.elim
  | _ => trivial

theorem put_imported (hg : Grew (Imports K q) [] h) :
    ∀ e ∈ h, ∀ p d, put e = some (p, d) → K.Configured q d := by
  obtain ⟨new, rfl, hn⟩ := hg
  rw [List.append_nil]
  intro e he p d hp
  have ho := hn e he
  unfold put at hp
  split at hp
  · cases hp
    exact ho.2
  · exact ho.elim
  · cases hp

theorem not_drawn (hg : Grew (Imports K q) [] h) (t : String) :
    (⟨.generateToken, .ok t⟩ : Entry Op Op.Resp) ∉ h := by
  obtain ⟨new, rfl, hn⟩ := hg
  rw [List.append_nil]
  exact fun he => hn _ he

theorem start_obeys : Obeys (Rules K q a) (Ends K q a) (start K q) [] := by
  apply obeys_bind (obeys_of_uses uses_importConfigured imports_rules)
  intro _ h hg
  have unstarted (new : History) (hnew : ∀ e ∈ new, put e = none) :
      Ends K q a (.started none) (new ++ h) := by
    refine ⟨accounted_unput fun e he p d hp => ?_, unfounded fun _ he => by cases he⟩
    rcases List.mem_append.mp he with he | he
    · rw [hnew e he] at hp
      cases hp
    · exact put_imported hg e he p d hp
  apply obeys_step trivial
  intro x
  cases x with
  | error e => exact unstarted [_] (by simp [put])
  | ok existing =>
    apply obeys_bind (Q := fun r h' => match r with
      | .ok t => Ends K q a (.started t) h'
      | .error _ => Ends K q a (.started none) h')
    · apply obeys_ite
      · intro _
        exact unstarted [_] (by simp [put])
      · intro hex
        obtain rfl : existing = [] := by simpa using hex
        apply obeys_step trivial
        intro x
        cases x with
        | error e => exact unstarted [_, _] (by simp [put])
        | ok token =>
          apply obeys_step trivial
          intro now
          apply obeys_step ⟨rfl, .inl ⟨token, _, rfl, .one rfl⟩⟩
          intro x
          rcases x with e | u
          · have hended := unstarted [⟨.createAdminToken (foundingRow K token now), .error e⟩,
              ⟨.utcNow, now⟩, ⟨.generateToken, .ok token⟩, ⟨.listAdminTokens, .ok []⟩]
              (by simp [put])
            cases e <;> exact hended
          · constructor
            · apply accounted_issued rfl
              intro t ht
              simpa [not_drawn hg t] using ht
            · intro t he
              cases he
              exact ⟨.tail _ (.tail _ (.tail _ (.head _))), now, .head _⟩
    · intro r h' hr
      cases r with
      | ok t => exact hr
      | error e => exact hr

theorem tokens_disciplined (K : Site) : (servers K).Disciplined (Rules K) (Ends K) := by
  intro q a
  change Obeys (Rules K q a) (Ends K q a) (program K q a) []
  cases a with
  | createAdminToken p capabilities =>
    have hobeys := createAdminToken_obeys (K := K) (q := q)
      (a := .createAdminToken p capabilities) p capabilities
    assumption
  | rotateAdminToken p => exact rotateAdminToken_obeys p
  | revokeAdminToken p => exact revokeAdminToken_obeys p
  | start => exact start_obeys

end Conduct

end FleetOrchestrator.Api.AdminTokens
