import FleetOrchestrator.Api.Middleware
import FleetOrchestrator.Interleaving.Discipline
import FleetOrchestrator.Interleaving.Log

/-! How a server comes by the key that an access token is verified with: the keys of an issuer are
fetched by one request at a time, and kept for an hour for all the others. -/

namespace FleetOrchestrator.Api.AccessKeys

open Interleaving Machine

structure CfAccessClaims where
  exp : ℕ
  aud : String
  iss : Option String
  email : Option String := none

/-- What the libraries make of a token: its header's key id, a part that is Base64 and JSON, the key
of that id, and the claims if signature, expiry and audience are in order. -/
structure JwtLibrary (KeySet Key : Type) where
  decodeHeader : String → Except String (Option String)
  decodePart : String → Except String CfAccessClaims
  find : KeySet → String → Option Key
  decode : ℤ → String → Key → Option String → Except String CfAccessClaims

inductive Op (KeySet : Type) where
  | lookup (iss kid : String)
  | lock
  | lookupLocked (iss kid : String)
  | fetch (url : String)
  | insertKeys (iss : String) (keys : KeySet)
  | unlock
  | readClock

/-- A lookup and an insertion tell the moment that they took place. -/
@[reducible] def Resp {KeySet : Type} (Key : Type) : Op KeySet → Type
  | .lookup _ _ => ℤ × Option Key
  | .lock => Unit
  | .lookupLocked _ _ => ℤ × Option Key
  | .fetch _ => Except String KeySet
  | .insertKeys _ _ => ℤ
  | .unlock => Unit
  | .readClock => ℤ

/-- The cache of a server; its readers are never in the way of one another. -/
structure JwksCache (KeySet : Type) where
  keys : String → Option (KeySet × ℤ) := fun _ => none
  locked : Bool := false
  now : ℤ := 0

structure Choice (KeySet : Type) where
  fetched : Except String KeySet := .error ""
  clock : ℤ := 0

/-- In milliseconds, as every moment here. -/
def keysMaxAge : ℤ := 3600 * 1000

section Programs

variable {KeySet Key : Type}

abbrev Call (KeySet Key α : Type) := Prog (Op KeySet) (Resp Key) α

abbrev History (KeySet Key : Type) := List (Entry (Op KeySet) (Resp Key))

def execute (op : Op KeySet) : Call KeySet Key (Resp Key op) := Prog.perform op

def lookupIn (J : JwtLibrary KeySet Key) (w : JwksCache KeySet) (iss kid : String) : Option Key :=
  match w.keys iss with
  | some (keys, lastUpdated) => if w.now - lastUpdated < keysMaxAge then J.find keys kid else none
  | none => none

def exec (J : JwtLibrary KeySet Key) (ch : Choice KeySet) (_ : Unit) :
    (op : Op KeySet) → JwksCache KeySet → Option (Resp Key op × JwksCache KeySet)
  | .lookup iss kid, w => if w.locked then none else some ((w.now, lookupIn J w iss kid), w)
  | .lock, w => if w.locked then none else some ((), { w with locked := true })
  | .lookupLocked iss kid, w => some ((w.now, lookupIn J w iss kid), w)
  | .fetch _, w => some (ch.fetched, w)
  | .insertKeys iss keys, w =>
    some (w.now, { w with keys := Function.update w.keys iss (some (keys, w.now)) })
  | .unlock, w => some ((), { w with locked := false })
  | .readClock, w => some (ch.clock, w)

def certsUrl (iss : String) : String := iss ++ "/cdn-cgi/access/certs"

def isTrusted (iss : String) : Bool :=
  startsWith "https://" iss.toList && endsWith ".cloudflareaccess.com" iss.toList

def fetchJwkSet (iss : String) : Call KeySet Key (Except String KeySet) :=
  if isTrusted iss then execute (.fetch (certsUrl iss))
  else return .error ("untrusted issuer domain: " ++ iss)

def getJwk (J : JwtLibrary KeySet Key) (iss kid : String) : Call KeySet Key (Except String Key) := do
  match ← execute (.lookup iss kid) with
  | (_, some jwk) => return .ok jwk
  | (_, none) =>
    let _ ← execute .lock
    match ← execute (.lookupLocked iss kid) with
    | (_, some jwk) =>
      let _ ← execute .unlock
      return .ok jwk
    | (_, none) =>
      -- the lock is held while the keys are fetched, and given back on every way out; a request that
      -- is dropped meanwhile goes as one whose fetch fails
      match ← fetchJwkSet iss with
      | .error e =>
        let _ ← execute .unlock
        return .error e
      | .ok jwks =>
        match J.find jwks kid with
        | none =>
          let _ ← execute .unlock
          return .error ("key id " ++ kid ++ " not found in JWKS for issuer " ++ iss)
        | some jwk =>
          let _ ← execute (.insertKeys iss jwks)
          let _ ← execute .unlock
          return .ok jwk

def parseJwtUnsafe (J : JwtLibrary KeySet Key) (jwt : String) : Except String CfAccessClaims :=
  match jwt.toList.splitOn '.' with
  | [_, payload, _] => J.decodePart (String.ofList payload)
  | parts => .error ("expected 3 JWT parts, got " ++ toString parts.length)

/-- The key id and the issuer that a token itself names. -/
def namedKey (J : JwtLibrary KeySet Key) (jwt : String) : Option (String × String) :=
  match J.decodeHeader jwt, parseJwtUnsafe J jwt with
  | .ok (some kid), .ok claims => claims.iss.map fun iss => (iss, kid)
  | _, _ => none

/-- Why a token is refused is only logged. -/
def verifyAccessJwt (J : JwtLibrary KeySet Key) (audience : Option String) (jwt : String) :
    Call KeySet Key (Option VerifiedUser) :=
  match namedKey J jwt with
  | none => return none
  | some (iss, kid) => do
    match ← getJwk J iss kid with
    | .error _ => return none
    | .ok jwk =>
      let clock ← execute .readClock
      match J.decode clock jwt jwk audience with
      | .error _ => return none
      | .ok claims => return some ⟨claims.email.getD "", claims.aud⟩

/-- The paths that the middleware lets through without a token, and the servers that ask for none. -/
def asksAccess (s : AppState) (req : Request) : Bool :=
  !(s.cfAudience.isNone || s.allowNoAuth) &&
    !(req.path = "/v1/health".toList || req.path = "/health".toList)

/-- A request on its way through both middlewares. -/
def passage (J : JwtLibrary KeySet Key) (s : AppState) (req : Request) : Call KeySet Key Passage :=
  match req.accessJwt, asksAccess s req with
  | some jwt, true => do
    let user ← verifyAccessJwt J s.cfAudience jwt
    return pass { s with verifyAccessJwt := fun _ _ => user } req
  | _, _ => return pass s req

structure Arrival where
  server : AppState
  request : Request

def server (J : JwtLibrary KeySet Key) :
    Machine (Op KeySet) (Resp Key) Unit Arrival Passage (JwksCache KeySet) (Choice KeySet) ℕ where
  program _ a := passage J a.server a.request
  exec := exec J
  spawned _ _ := []
  accept _ _ w := some w
  disturb d w := some { w with now := w.now + d }

abbrev ServerConfig (KeySet Key : Type) :=
  Config (Op KeySet) (Resp Key) Unit Arrival Passage (JwksCache KeySet)

end Programs

section Course

variable {KeySet Key : Type} {J : JwtLibrary KeySet Key} {h : History KeySet Key}
  {iss kid : String} {key : Key}

/-- The key was found in the cache at that moment. -/
def FoundAt (h : History KeySet Key) (iss kid : String) (key : Key) (now : ℤ) : Prop :=
  ⟨.lookup iss kid, (now, some key)⟩ ∈ h ∨ ⟨.lookupLocked iss kid, (now, some key)⟩ ∈ h

def Fetched (h : History KeySet Key) (iss : String) (keys : KeySet) : Prop :=
  isTrusted iss = true ∧ (⟨.fetch (certsUrl iss), .ok keys⟩ : Entry (Op KeySet) (Resp Key)) ∈ h

/-- How a request came by a key. -/
def ComesBy (J : JwtLibrary KeySet Key) (h : History KeySet Key) (iss kid : String) (key : Key) :
    Prop :=
  (∃ now, FoundAt h iss kid key now) ∨ ∃ keys, Fetched h iss keys ∧ J.find keys kid = some key

/-- Whoever did this has taken the lock, and has not given it back. -/
def holding : History KeySet Key → Bool
  | [] => false
  | ⟨.lock, _⟩ :: _ => true
  | ⟨.unlock, _⟩ :: _ => false
  | _ :: h => holding h

/-- Under the lock, the key was looked for in vain. -/
def Missed (h : History KeySet Key) (iss kid : String) : Prop :=
  ∃ now h', h = ⟨.lookupLocked iss kid, (now, none)⟩ :: h'

/-- What a request whose token names this key does: under the lock it fetches the keys of its issuer
if its own is missing, and only keys that were just fetched are kept. -/
def Keeps (named : Option (String × String)) (h : History KeySet Key) : Op KeySet → Prop
  | .fetch url => holding h = true ∧ ∃ iss kid, named = some (iss, kid) ∧ url = certsUrl iss ∧
      isTrusted iss = true ∧ Missed h iss kid
  | .insertKeys iss keys => holding h = true ∧ Fetched h iss keys
  | .unlock => holding h = true
  | .lookup _ _ | .lock => holding h = false
  | .lookupLocked _ _ | .readClock => True

theorem FoundAt.cons {now : ℤ} {e : Entry (Op KeySet) (Resp Key)} (hf : FoundAt h iss kid key now) :
    FoundAt (e :: h) iss kid key now :=
  hf.imp (List.mem_cons_of_mem _) (List.mem_cons_of_mem _)

theorem Fetched.cons {keys : KeySet} {e : Entry (Op KeySet) (Resp Key)} (hf : Fetched h iss keys) :
    Fetched (e :: h) iss keys :=
  ⟨hf.1, List.mem_cons_of_mem _ hf.2⟩

theorem ComesBy.cons {e : Entry (Op KeySet) (Resp Key)} (hc : ComesBy J h iss kid key) :
    ComesBy J (e :: h) iss kid key := by
  rcases hc with ⟨now, hf⟩ | ⟨keys, hf, hk⟩
  · exact .inl ⟨now, hf.cons⟩
  · exact .inr ⟨keys, hf.cons, hk⟩

theorem fetchJwkSet_obeys (hh : holding h = true) (hm : Missed h iss kid) :
    Obeys (Keeps (some (iss, kid)))
      (fun r h' => holding h' = true ∧ ∀ keys, r = .ok keys → Fetched h' iss keys)
      (fetchJwkSet iss : Call KeySet Key (Except String KeySet)) h := by
  unfold fetchJwkSet
  split_ifs with ht
  · refine obeys_perform ⟨hh, iss, kid, rfl, rfl, ht, hm⟩ fun r => ⟨hh, fun keys hr => ⟨ht, ?_⟩⟩
    subst hr
    exact List.mem_cons_self
  · exact obeys_ret ⟨hh, fun keys hr => nomatch hr⟩

theorem getJwk_obeys (hfree : holding h = false) :
    Obeys (Keeps (some (iss, kid)))
      (fun r h' => holding h' = false ∧ ∀ key, r = .ok key → ComesBy J h' iss kid key)
      (getJwk J iss kid) h := by
  have refused {e : String} {h' : History KeySet Key} (key : Key)
      (hr : (.error e : Except String Key) = .ok key) : ComesBy J h' iss kid key := nomatch hr
  refine obeys_step hfree fun r => ?_
  rcases r with ⟨now, _ | jwk⟩
  · refine obeys_step hfree fun _ => obeys_step trivial fun r => ?_
    rcases r with ⟨now', _ | jwk⟩
    · refine obeys_bind (fetchJwkSet_obeys rfl ⟨now', _, rfl⟩) fun r h' ⟨hholding, hr⟩ => ?_
      cases r with
      | error e => exact obeys_step hholding fun _ => obeys_ret ⟨rfl, refused⟩
      | ok jwks =>
        have hfetched := hr jwks rfl
        dsimp only
        cases hfind : J.find jwks kid with
        | none => exact obeys_step hholding fun _ => obeys_ret ⟨rfl, refused⟩
        | some jwk =>
          refine obeys_step ⟨hholding, hfetched⟩ fun _ => obeys_step hholding fun _ =>
            obeys_ret ⟨rfl, ?_⟩
          intro key hk
          cases hk
          exact .inr ⟨jwks, hfetched.cons.cons, hfind⟩
    · refine obeys_step rfl fun _ => obeys_ret ⟨rfl, ?_⟩
      intro key hk
      cases hk
      exact .inl ⟨now', FoundAt.cons (.inr List.mem_cons_self)⟩
  · refine obeys_ret ⟨hfree, ?_⟩
    intro key hk
    cases hk
    exact .inl ⟨now, .inl List.mem_cons_self⟩

/-- The key that the token names has been come by, and the token is in order under it. -/
def Verified (J : JwtLibrary KeySet Key) (h : History KeySet Key) (audience : Option String)
    (jwt : String) (user : VerifiedUser) : Prop :=
  ∃ iss kid key clock claims, namedKey J jwt = some (iss, kid) ∧ ComesBy J h iss kid key ∧
    ⟨.readClock, clock⟩ ∈ h ∧ J.decode clock jwt key audience = .ok claims ∧
      user = ⟨claims.email.getD "", claims.aud⟩

theorem verifyAccessJwt_obeys {audience : Option String} {jwt : String} (hfree : holding h = false) :
    Obeys (Keeps (namedKey J jwt))
      (fun r h' => holding h' = false ∧ ∀ user, r = some user → Verified J h' audience jwt user)
      (verifyAccessJwt J audience jwt) h := by
  have refused {h' : History KeySet Key} (user : VerifiedUser) (hr : none = some user) :
      Verified J h' audience jwt user := nomatch hr
  unfold verifyAccessJwt
  cases hn : namedKey J jwt with
  | none => exact obeys_ret ⟨hfree, refused⟩
  | some named =>
    obtain ⟨iss, kid⟩ := named
    refine obeys_bind (getJwk_obeys hfree) fun r h' ⟨hfree', hr⟩ => ?_
    cases r with
    | error e => exact obeys_ret ⟨hfree', refused⟩
    | ok jwk =>
      refine obeys_step trivial fun clock => ?_
      cases hd : J.decode clock jwt jwk audience with
      | error e => exact obeys_ret ⟨hfree', refused⟩
      | ok claims =>
        refine obeys_ret ⟨hfree', fun user hu => ?_⟩
        cases hu
        exact ⟨iss, kid, jwk, clock, claims, hn, (hr jwk rfl).cons, List.mem_cons_self, hd, rfl⟩

/-- Who is let through where a token is asked for has one that is verified. -/
def LetThrough (J : JwtLibrary KeySet Key) (a : Arrival) (out : Passage) (h : History KeySet Key) :
    Prop :=
  asksAccess a.server a.request = true → ∀ context, out = .ok context →
    ∃ jwt user, a.request.accessJwt = some jwt ∧ Verified J h a.server.cfAudience jwt user

/-- The inner middleware is reached only by a request that the outer one lets through. -/
theorem access_of_pass {s : AppState} {req : Request} {context : Option AuthorizationContext}
    (hp : pass s req = .ok context) (ha : asksAccess s req = true) :
    ∃ user, req.accessJwt.bind (s.verifyAccessJwt s.cfAudience) = some user := by
  cases hu : req.accessJwt.bind (s.verifyAccessJwt s.cfAudience) with
  | some user => exact ⟨user, rfl⟩
  | none =>
    have hdenied : cloudflareAccessMiddleware s req = .error .unauthorized := by
      unfold asksAccess at ha
      unfold cloudflareAccessMiddleware
      rw [hu]
      generalize (s.cfAudience.isNone || s.allowNoAuth) = free at ha ⊢
      generalize (decide (req.path = "/v1/health".toList) ||
        decide (req.path = "/health".toList)) = health at ha ⊢
      cases free <;> cases health <;> cases ha
      rfl
    rw [pass, hdenied] at hp
    cases hp

theorem server_disciplined :
    (server J).Disciplined
      (fun _ a h op => Keeps (a.request.accessJwt.bind (namedKey J)) h op)
      fun _ a out h => holding h = false ∧ LetThrough J a out h := by
  intro _ a
  change Obeys (Keeps (a.request.accessJwt.bind (namedKey J))) _ (passage J a.server a.request) []
  unfold passage
  split
  case h_1 jwt hjwt ha =>
    rw [hjwt, Option.bind_some]
    refine obeys_bind (verifyAccessJwt_obeys rfl) fun user h' ⟨hfree, hu⟩ => obeys_ret ⟨hfree, ?_⟩
    intro _ context hp
    obtain ⟨verified, hv⟩ := access_of_pass hp ha
    rw [hjwt] at hv
    exact ⟨jwt, verified, hjwt, hu verified hv⟩
  case h_2 hnone =>
    refine obeys_ret ⟨rfl, fun ha context hp => ?_⟩
    obtain ⟨user, hu⟩ := access_of_pass hp ha
    cases hjwt : a.request.accessJwt with
    | none =>
      rw [hjwt] at hu
      cases hu
    | some jwt => exact absurd ha (hnone jwt hjwt)

end Course

section Keys

variable {KeySet Key : Type} {J : JwtLibrary KeySet Key}
  {cond : ServerConfig KeySet Key → Action Unit Arrival (Choice KeySet) ℕ → Prop}
  {c₀ c c' : ServerConfig KeySet Key} {i : ℕ} {iss kid : String} {key : Key} {keys : KeySet}

/-- A server that has just started. -/
structure Started (c₀ : ServerConfig KeySet Key) : Prop extends Fresh c₀ where
  keys : ∀ iss, c₀.state.keys iss = none
  unlocked : c₀.state.locked = false

/-- These keys of the issuer were put into the cache at that moment. -/
def PutAt (c : ServerConfig KeySet Key) (iss : String) (keys : KeySet) (t : ℤ) : Prop :=
  ∃ m ∈ c.log, m.entry = ⟨.insertKeys iss keys, t⟩

theorem PutAt.later {t : ℤ} (hp : PutAt c iss keys t) (hl : c.log <:+ c'.log) :
    PutAt c' iss keys t := by
  obtain ⟨m, hm, he⟩ := hp
  exact ⟨m, hl.subset hm, he⟩

/-- Only an insertion changes the keys. -/
theorem exec_same {ch : Choice KeySet} {op : Op KeySet} {w w' : JwksCache KeySet} {r : Resp Key op}
    (hx : exec J ch () op w = some (r, w')) (hop : ∀ iss keys, op ≠ .insertKeys iss keys) :
    w'.keys = w.keys ∧ w'.now = w.now := by
  cases op with
  | insertKeys iss keys => exact absurd rfl (hop iss keys)
  | lookup | lock =>
    simp only [exec] at hx
    split_ifs at hx
    cases hx
    exact ⟨rfl, rfl⟩
  | lookupLocked | fetch | unlock | readClock =>
    cases hx
    exact ⟨rfl, rfl⟩

theorem exec_keys {ch : Choice KeySet} {op : Op KeySet} {w w' : JwksCache KeySet} {r : Resp Key op}
    {t : ℤ} (hx : exec J ch () op w = some (r, w')) (hk : w'.keys iss = some (keys, t)) :
    w.keys iss = some (keys, t) ∨
      (⟨op, r⟩ : Entry (Op KeySet) (Resp Key)) = ⟨.insertKeys iss keys, t⟩ := by
  by_cases hop : ∀ iss keys, op ≠ .insertKeys iss keys
  · rw [(exec_same hx hop).1] at hk
    exact .inl hk
  · push Not at hop
    obtain ⟨iss', keys', rfl⟩ := hop
    cases hx
    by_cases hi : iss = iss'
    · subst hi
      simp only [Function.update_self, Option.some.injEq, Prod.mk.injEq] at hk
      rw [← hk.1, ← hk.2]
      exact .inr rfl
    · simp only [Function.update_of_ne hi] at hk
      exact .inl hk

theorem cached_put (h₀ : Started c₀) (h : (server J).Reaches cond c₀ c) :
    ∀ iss keys t, c.state.keys iss = some (keys, t) → PutAt c iss keys t := by
  apply h.invariant
    (P := fun c => ∀ iss keys t, c.state.keys iss = some (keys, t) → PutAt c iss keys t)
  · intro iss keys t hk
    rw [h₀.keys] at hk
    cases hk
  · intro c x c' _ _ hs ih iss keys t hk
    have hlog := step_log hs
    cases x with
    | start p a =>
      rw [← Option.some.inj (step_start hs).1] at hk
      exact (ih iss keys t hk).later hlog
    | env d =>
      rw [← Option.some.inj (step_env hs).1] at hk
      exact (ih iss keys t hk).later hlog
    | run i ch =>
      obtain ⟨op, ⟨r⟩⟩ := step_run hs
      rcases exec_keys r.done hk with hold | hnew
      · exact (ih iss keys t hold).later hlog
      · refine ⟨⟨i, r.party, op, r.resp⟩, ?_, hnew⟩
        rw [r.log]
        exact List.mem_cons_self

theorem lookupIn_some {w : JwksCache KeySet} (hl : lookupIn J w iss kid = some key) :
    ∃ keys t, w.keys iss = some (keys, t) ∧ J.find keys kid = some key ∧ w.now - t < keysMaxAge := by
  unfold lookupIn at hl
  split at hl
  case h_1 keys t hk =>
    split_ifs at hl with ht
    exact ⟨keys, t, hk, hl, ht⟩
  case h_2 => cases hl

/-- A lookup tells what is there at its moment. -/
theorem exec_looked {ch : Choice KeySet} {op : Op KeySet} {w w' : JwksCache KeySet} {r : Resp Key op}
    {now : ℤ} {found : Option Key} (hx : exec J ch () op w = some (r, w'))
    (he : (⟨op, r⟩ : Entry (Op KeySet) (Resp Key)) = ⟨.lookup iss kid, (now, found)⟩ ∨
      (⟨op, r⟩ : Entry (Op KeySet) (Resp Key)) = ⟨.lookupLocked iss kid, (now, found)⟩) :
    lookupIn J w iss kid = found ∧ w.now = now ∧ w' = w := by
  rcases he with he | he
  · cases he
    simp only [exec] at hx
    split_ifs at hx
    simp only [Option.some.injEq, Prod.mk.injEq] at hx
    exact ⟨hx.1.2, hx.1.1, hx.2.symm⟩
  · cases he
    simp only [exec, Option.some.injEq, Prod.mk.injEq] at hx
    exact ⟨hx.1.2, hx.1.1, hx.2.symm⟩

/-- What is found in the cache was put there less than an hour ago. -/
theorem found_put (h₀ : Started c₀) (h : (server J).Reaches cond c₀ c) {now : ℤ}
    (hf : FoundAt (history c.log i) iss kid key now) :
    ∃ keys t, PutAt c iss keys t ∧ J.find keys kid = some key ∧ now - t < keysMaxAge := by
  have hall : ∀ k ∈ c.log, k.entry = ⟨.lookup iss kid, (now, some key)⟩ ∨
      k.entry = ⟨.lookupLocked iss kid, (now, some key)⟩ →
        ∃ keys t, PutAt c iss keys t ∧ J.find keys kid = some key ∧ now - t < keysMaxAge := by
    apply h.logged (P := fun c k => k.entry = ⟨.lookup iss kid, (now, some key)⟩ ∨
      k.entry = ⟨.lookupLocked iss kid, (now, some key)⟩ →
        ∃ keys t, PutAt c iss keys t ∧ J.find keys kid = some key ∧ now - t < keysMaxAge) h₀.toFresh
    · intro c c' j ch op r hr _ hs he
      obtain ⟨hfound, hnow, -⟩ := exec_looked r.done he
      obtain ⟨keys, t, hk, hfind, ht⟩ := lookupIn_some hfound
      rw [hnow] at ht
      exact ⟨keys, t, (cached_put h₀ hr iss keys t hk).later (step_log hs), hfind, ht⟩
    · intro c x c' k _ _ hs _ hk he
      obtain ⟨keys, t, hput, hrest⟩ := hk he
      exact ⟨keys, t, hput.later (step_log hs), hrest⟩
  rcases hf with hf | hf
  all_goals obtain ⟨k, hk, -, he⟩ := mem_history.mp hf
  · exact hall k hk (.inl he)
  · exact hall k hk (.inr he)

/-- The keys were served to the request that put them into the cache, by their issuer. -/
theorem put_fetched (h₀ : Started c₀) (h : (server J).Reaches cond c₀ c) {t : ℤ}
    (hp : PutAt c iss keys t) : isTrusted iss = true ∧
      ∃ k ∈ c.log, k.entry = ⟨.fetch (certsUrl iss), .ok keys⟩ := by
  obtain ⟨m, hm, he⟩ := hp
  obtain ⟨l, hl⟩ := placed hm
  obtain ⟨_, -, -, hlicence⟩ := logged_licence server_disciplined h₀.toFresh h hl
  rw [show m.op = .insertKeys iss keys from congrArg Entry.op he] at hlicence
  obtain ⟨-, htrusted, hfetch⟩ := hlicence
  obtain ⟨k, hk, -, hentry⟩ := mem_history.mp hfetch
  exact ⟨htrusted, k, hl.subset (List.mem_cons_of_mem _ hk), hentry⟩

end Keys

section Lock

variable {KeySet Key : Type} {J : JwtLibrary KeySet Key}
  {cond : ServerConfig KeySet Key → Action Unit Arrival (Choice KeySet) ℕ → Prop}
  {c₀ c c' : ServerConfig KeySet Key} {i : ℕ} {iss kid : String}

/-- The lock is taken while somebody holds it, who is one request alone. -/
structure Exclusive (c : ServerConfig KeySet Key) : Prop where
  locked : ∀ i, holding (history c.log i) = true → c.state.locked = true
  held : c.state.locked = true → ∃ i, holding (history c.log i) = true
  only : ∀ i j, holding (history c.log i) = true → holding (history c.log j) = true → i = j

theorem exec_lock {ch : Choice KeySet} {op : Op KeySet} {w w' : JwksCache KeySet} {r : Resp Key op}
    {h : History KeySet Key} (hx : exec J ch () op w = some (r, w')) :
    (holding (⟨op, r⟩ :: h) = true ∧ w.locked = false ∧ w'.locked = true) ∨
      (op = .unlock ∧ holding (⟨op, r⟩ :: h) = false ∧ w'.locked = false) ∨
        (holding (⟨op, r⟩ :: h) = holding h ∧ w'.locked = w.locked) := by
  cases op with
  | lock =>
    simp only [exec] at hx
    split_ifs at hx with hl
    cases hx
    exact .inl ⟨rfl, Bool.not_eq_true _ ▸ hl, rfl⟩
  | unlock =>
    cases hx
    exact .inr (.inl ⟨rfl, rfl, rfl⟩)
  | lookup =>
    simp only [exec] at hx
    split_ifs at hx
    cases hx
    exact .inr (.inr ⟨rfl, rfl⟩)
  | lookupLocked | fetch | insertKeys | readClock =>
    cases hx
    exact .inr (.inr ⟨rfl, rfl⟩)

theorem Exclusive.of_log (he : Exclusive c) (hlog : c'.log = c.log)
    (hlocked : c'.state.locked = c.state.locked) : Exclusive c' := by
  constructor
  · intro i hi
    rw [hlog] at hi
    exact hlocked.trans (he.locked i hi)
  · rw [hlog, hlocked]
    exact he.held
  · rw [hlog]
    exact he.only

theorem Exclusive.run {ch : Choice KeySet} {op : Op KeySet} (he : Exclusive c)
    (r : (server J).Ran c c' i ch op)
    (hgives : op = .unlock → holding (history c.log i) = true) : Exclusive c' := by
  have hself : history c'.log i = ⟨op, r.resp⟩ :: history c.log i := r.after.2
  have hother (j : ℕ) (hj : j ≠ i) : history c'.log j = history c.log j := by
    rw [r.log]
    exact history_cons_ne c.log (Ne.symm hj)
  rcases exec_lock (h := history c.log i) r.done with
    ⟨htakes, hfree, hlocked⟩ | ⟨hunlock, hgave, hfree⟩ | ⟨hsame, hlocked⟩
  · -- nobody held a lock that was free
    have honly (j : ℕ) (hj : holding (history c'.log j) = true) : j = i := by
      by_contra hne
      rw [hother j hne] at hj
      have := he.locked j hj
      rw [hfree] at this
      cases this
    refine ⟨fun j _ => hlocked, fun _ => ⟨i, ?_⟩, fun j k hj hk => ?_⟩
    · rw [hself]
      exact htakes
    · rw [honly j hj, honly k hk]
  · -- the one that gives it back was the only one
    have hnone (j : ℕ) : holding (history c'.log j) = false := by
      by_cases hj : j = i
      · rw [hj, hself]
        exact hgave
      · rw [hother j hj, ← Bool.not_eq_true]
        intro hheld
        exact hj (he.only j i hheld (hgives hunlock))
    refine ⟨fun j hj => ?_, fun hl => ?_, fun j _ hj => ?_⟩
    · rw [hnone j] at hj
      cases hj
    · rw [hfree] at hl
      cases hl
    · rw [hnone j] at hj
      cases hj
  · have hall (j : ℕ) : holding (history c'.log j) = holding (history c.log j) := by
      by_cases hj : j = i
      · rw [hj, hself]
        exact hsame
      · rw [hother j hj]
    refine ⟨fun j hj => ?_, fun hl => ?_, fun j k hj hk => ?_⟩
    · rw [hall j] at hj
      exact hlocked.trans (he.locked j hj)
    · rw [hlocked] at hl
      obtain ⟨j, hj⟩ := he.held hl
      exact ⟨j, (hall j).trans hj⟩
    · rw [hall] at hj hk
      exact he.only j k hj hk

theorem exclusive (h₀ : Started c₀) (h : (server J).Reaches cond c₀ c) : Exclusive c := by
  apply h.invariant (P := Exclusive)
  · refine ⟨fun i hi => ?_, fun hl => ?_, fun i _ hi => ?_⟩
    · rw [h₀.log] at hi
      cases hi
    · rw [h₀.unlocked] at hl
      cases hl
    · rw [h₀.log] at hi
      cases hi
  · intro c x c' hr _ hs ih
    cases x with
    | start p a =>
      obtain ⟨hstate, -, hlog⟩ := step_start hs
      exact ih.of_log hlog (congrArg JwksCache.locked (Option.some.inj hstate).symm)
    | env d =>
      obtain ⟨hstate, -, hlog⟩ := step_env hs
      refine ih.of_log hlog ?_
      rw [← Option.some.inj hstate]
    | run i ch =>
      obtain ⟨op, ⟨r⟩⟩ := step_run hs
      refine ih.run r fun hop => ?_
      subst hop
      exact r.licensed server_disciplined h₀.toFresh hr

/-- Time passes, and the keys of the issuer stay as they are. -/
theorem lookupIn_later {w w' : JwksCache KeySet} (hkeys : w'.keys iss = w.keys iss)
    (hnow : w.now ≤ w'.now) (hl : lookupIn J w iss kid = none) : lookupIn J w' iss kid = none := by
  cases hl' : lookupIn J w' iss kid with
  | none => rfl
  | some key =>
    obtain ⟨keys, t, hk, hfind, hage⟩ := lookupIn_some hl'
    rw [hkeys] at hk
    have hyoung : w.now - t < keysMaxAge := by omega
    simp only [lookupIn, hk, if_pos hyoung, hfind] at hl
    cases hl

/-- What was missing when it was looked for under the lock is missing for as long as the lock is
held: only the holder puts keys into the cache. -/
theorem missing (h₀ : Started c₀) (h : (server J).Reaches cond c₀ c) :
    ∀ i iss kid, holding (history c.log i) = true → Missed (history c.log i) iss kid →
      lookupIn J c.state iss kid = none := by
  apply h.invariant (P := fun c => ∀ i iss kid, holding (history c.log i) = true →
    Missed (history c.log i) iss kid → lookupIn J c.state iss kid = none)
  · intro i iss kid hi
    rw [h₀.log] at hi
    cases hi
  · intro c x c' hr _ hs ih i iss kid hi hm
    cases x with
    | start p a =>
      obtain ⟨hstate, -, hlog⟩ := step_start hs
      rw [hlog] at hi hm
      rw [← Option.some.inj hstate]
      exact ih i iss kid hi hm
    | env d =>
      obtain ⟨hstate, -, hlog⟩ := step_env hs
      rw [hlog] at hi hm
      rw [← Option.some.inj hstate]
      refine lookupIn_later (w := c.state) rfl ?_ (ih i iss kid hi hm)
      change c.state.now ≤ c.state.now + (d : ℤ)
      omega
    | run j ch =>
      obtain ⟨op, ⟨r⟩⟩ := step_run hs
      by_cases hij : j = i
      · subst hij
        rw [r.after.2] at hm
        obtain ⟨now, h', hh⟩ := hm
        obtain ⟨hnone, -, hstate⟩ := exec_looked r.done (.inr (List.cons.inj hh).1)
        rw [hstate]
        exact hnone
      · have hhist : history c'.log i = history c.log i := by
          rw [r.log]
          exact history_cons_ne c.log hij
        rw [hhist] at hi hm
        have hsame : c'.state.keys = c.state.keys ∧ c'.state.now = c.state.now := by
          refine exec_same r.done fun iss' keys' hop => hij ?_
          subst hop
          have hlicence := r.licensed server_disciplined h₀.toFresh hr
          exact (exclusive h₀ hr).only j i hlicence.1 hi
        exact lookupIn_later (congrFun hsame.1 iss) (Int.le_of_eq hsame.2.symm) (ih i iss kid hi hm)

theorem next_keeps (h₀ : Started c₀) (h : (server J).Reaches cond c₀ c) {op : Op KeySet}
    (hn : c.next i = some op) : ∃ named, Keeps named (history c.log i) op := by
  unfold Config.next at hn
  split at hn
  case h_1 p a op' k ht =>
    cases hn
    exact ⟨_, (threads_obey server_disciplined h₀.toFresh h i _ ht).1⟩
  case h_2 => cases hn

theorem exec_free {op : Op KeySet} {w : JwksCache KeySet} (ch : Choice KeySet)
    (hw : w.locked = false ∨ op ≠ .lock ∧ ∀ iss kid, op ≠ .lookup iss kid) :
    ∃ r w', exec J ch () op w = some (r, w') := by
  cases op with
  | lookup iss kid =>
    rcases hw with hw | hw
    · simp only [exec, hw, Bool.false_eq_true, if_false]
      exact ⟨_, _, rfl⟩
    · exact absurd rfl (hw.2 iss kid)
  | lock =>
    rcases hw with hw | hw
    · simp only [exec, hw, Bool.false_eq_true, if_false]
      exact ⟨_, _, rfl⟩
    · exact absurd rfl hw.1
  | lookupLocked | fetch | insertKeys | unlock | readClock => exact ⟨_, _, rfl⟩

/-- Who holds the lock is a request that has not ended, and nothing that it does waits for others. -/
theorem holder_moves (h₀ : Started c₀) (h : (server J).Reaches cond c₀ c)
    (hi : holding (history c.log i) = true) (ch : Choice KeySet) :
    ∃ c', (server J).step c (.run i ch) = some c' := by
  cases ht : c.threads[i]? with
  | none =>
    rw [history_of_within (within_of_reaches h₀.toFresh h) (List.getElem?_eq_none_iff.mp ht)] at hi
    cases hi
  | some t =>
    have hobeys := threads_obey server_disciplined h₀.toFresh h i t ht
    obtain ⟨p, a, prog⟩ := t
    have hbusy : holding (history c.log i) ≠ false := by
      rw [hi]
      exact Bool.noConfusion
    cases prog with
    | ret out => exact absurd hobeys.1 hbusy
    | call op k =>
      have hgoes : op ≠ .lock ∧ ∀ iss kid, op ≠ .lookup iss kid := by
        constructor
        · rintro rfl
          exact hbusy hobeys.1
        · rintro iss kid rfl
          exact hbusy hobeys.1
      obtain ⟨r, w', hx⟩ := exec_free (J := J) (w := c.state) ch (.inr hgoes)
      obtain ⟨c', hs, -⟩ := step_call (M := server J) ch ht hx
      exact ⟨c', hs⟩

end Lock

section Newcomers

def teamIssuer : String := "https://team.cloudflareaccess.com"

/-- The tokens of one team, all under one key, until the moment 10. -/
def teamTokens : JwtLibrary (List (String × String)) String where
  decodeHeader _ := .ok (some "k1")
  decodePart _ := .ok { exp := 10, aud := "fleet", iss := some teamIssuer }
  find keys kid := keys.lookup kid
  decode clock _ _ _ :=
    if clock < 10 then .ok { exp := 10, aud := "fleet", iss := some teamIssuer }
    else .error "ExpiredSignature"

def newcomer : Arrival where
  server := { cfAudience := some "fleet", digestFor := id }
  request :=
    { method := .post, path := "/workers/join".toList, accessJwt := some "head.body.signature" }

/-- The first of two requests is about to fetch the keys, and the second waits for the lock. -/
def firstFetching : ServerConfig (List (String × String)) String :=
  (server teamTokens).after ⟨{}, [], []⟩
    [.start () newcomer, .start () newcomer, .run 0 {}, .run 1 {}, .run 0 {}, .run 0 {}]

theorem teamTokens_names : namedKey teamTokens "head.body.signature" = some (teamIssuer, "k1") := rfl

theorem empty_started : Started (⟨{}, [], []⟩ : ServerConfig (List (String × String)) String) :=
  ⟨⟨rfl, rfl⟩, fun _ => rfl, rfl⟩

/-- The first of two requests fetches the keys, and the second finds them a second later. -/
def twoArrivals : List (Action Unit Arrival (Choice (List (String × String))) ℕ) :=
  [.start () newcomer, .start () newcomer, .run 0 {}, .run 0 {}, .run 0 {},
    .run 0 { fetched := .ok [("k1", "key")] }, .run 0 {}, .run 0 {}, .run 0 { clock := 5 }, .env 1000,
    .run 1 {}, .run 1 { clock := 6 }]

def bothThrough : ServerConfig (List (String × String)) String :=
  (server teamTokens).after ⟨{}, [], []⟩ twoArrivals

end Newcomers

end FleetOrchestrator.Api.AccessKeys
