import FleetOrchestrator.Accounts.Bootstrap
import FleetOrchestrator.Interleaving.Log

/-! Any number of requests at work on the accounts. -/

namespace FleetOrchestrator.Accounts

open Api Core Tables Store Enrolment Interleaving

/-- What a request behind the session asks for. -/
inductive Handler where
  | logout (csrfHeader : String)
  | page

inductive Activity where
  | guarded (r : Request) (handler : Handler)
  | login (r : Request) (form : LoginForm)
  | resendVerification (r : Request) (form : EmailForm)
  | forgotPassword (r : Request) (form : EmailForm)
  | resetPassword (r : Request) (form : ResetPasswordForm)
  | bootstrap (r : Request) (form : BootstrapForm)
  | issueAdminBootstrapIfNeeded
  | issueAdminBootstrapToken (expiresInHours : ℤ)
  | createBootstrapToken (req : JoinTokenRequest)
  | joinWorker (token usedBy : String) (worker : Worker) (credential : WorkerOperationalCredential)

def handle (K : Site) (r : Request) : Handler → AuthPrincipal → Call Response
  | .logout csrfHeader => logout K r csrfHeader
  | .page => fun _ => return { reply := .served }

def program (K : Site) : Activity → Call Response
  | .guarded r handler => requireSession K r (handle K r handler)
  | .login r form => login K r form
  | .resendVerification r form => resendVerification r form
  | .forgotPassword r form => forgotPassword K r form
  | .resetPassword r form => resetPassword K r form
  | .bootstrap r form => bootstrap K r form
  | .issueAdminBootstrapIfNeeded => issueAdminBootstrapIfNeeded K
  | .issueAdminBootstrapToken expiresInHours => issueAdminBootstrapToken K expiresInHours
  | .createBootstrapToken req => createBootstrapToken K req
  | .joinWorker token usedBy worker credential => joinWorker token usedBy worker credential

/-- What happens besides: time goes by, the sweeps, and the administration of accounts. -/
inductive Event where
  | elapse (secs : ℕ)
  | deleteExpiredSessions
  | deleteOldLoginAttempts (cutoff : ℤ)
  | deleteUserSessions (id : UserId)
  | putUser (u : User)
  | deleteUser (id : UserId)
  | revokeBootstrapToken (digest : String)

/-- Only the database takes the reset tokens of a user along. -/
def World.deleteUser (w : World) (b : Backend) (id : UserId) : World :=
  let left := w.eraseSessions fun s => s.userId = id
  let resetTokens := byBackend w.resetTokens (w.resetTokens.eraseWhere fun t => t.userId = id) b
  let userRoles := w.userRoles.filter fun r => r.1 ≠ id
  { left with users := w.users.erase id, userRoles, resetTokens }

def happen (b : Backend) (w : World) : Event → World
  | .elapse secs => { w with now := w.now + secs }
  | .deleteExpiredSessions => w.eraseSessions fun s => s.expiresAt ≤ w.now
  | .deleteOldLoginAttempts cutoff => w.deleteOldLoginAttempts cutoff
  | .deleteUserSessions id => w.eraseSessions fun s => s.userId = id
  | .putUser u => { w with users := w.users.put u }
  | .deleteUser id => w.deleteUser b id
  | .revokeBootstrapToken digest =>
    let registry := { w.registry with tokens := w.registry.tokens.erase digest }
    { w with registry }

def dashboard (K : Site) : Machine Op Op.Resp Unit Activity Response World Choice Event where
  program _ a := program K a
  exec ch _ op w := exec K ch op w
  spawned _ _ := []
  accept _ _ w := some w
  disturb e w := some (happen K.backend w e)

abbrev AccountConfig := Config Op Op.Resp Unit Activity Response World
abbrev AccountAction := Action Unit Activity Choice Event
abbrev History := List (Entry Op Op.Resp)
abbrev Log := List (Interleaving.Call Op Op.Resp Unit)

end FleetOrchestrator.Accounts

/-! What each call may change in the store. -/

namespace FleetOrchestrator.Accounts

open Api Core Tables Store Enrolment Interleaving Machine

def Op.onSessions : Op → Bool
  | .createSession _ | .deleteSession _ | .updateSessionExpiry _ _ | .deleteUserSessions _ => true
  | _ => false

def Op.onUsers : Op → Bool
  | .createUser _ | .updateUserPassword _ _ | .updateUserLastLogin _ _ => true
  | _ => false

def Op.onResetTokens : Op → Bool
  | .createPasswordResetToken _ | .consumePasswordResetToken _ _ => true
  | _ => false

def Op.onAttempts : Op → Bool
  | .recordLoginAttempt _ | .clearLoginAttempts _ | .deleteOldLoginAttempts _ => true
  | _ => false

def Op.onRegistry : Op → Bool
  | .createBootstrapToken _ | .revokeBootstrapToken _ | .consumeBootstrapToken _ _
  | .enrollWorker _ _ _ _ => true
  | _ => false

def Op.onRoles : Op → Bool
  | .assignUserRole _ _ => true
  | _ => false

def Op.draws : Op → Bool
  | .mint => true
  | _ => false

/-- Each table is changed by its own calls only. -/
structure Frame (op : Op) (w w' : World) : Prop where
  now : w'.now = w.now
  roles : w'.roles = w.roles
  sessions : op.onSessions = false → w'.sessions = w.sessions
  users : op.onUsers = false → w'.users = w.users
  resetTokens : op.onResetTokens = false → w'.resetTokens = w.resetTokens
  loginAttempts : op.onAttempts = false → w'.loginAttempts = w.loginAttempts
  registry : op.onRegistry = false → w'.registry = w.registry
  userRoles : op.onRoles = false → w'.userRoles = w.userRoles
  drawn : op.draws = false → w'.drawn = w.drawn ∧ w'.ids = w.ids

section Frame

variable {K : Site} {ch : Choice} {op : Op} {r : op.Resp} {w w' : World} {α : Type}

theorem Frame.same : Frame op w w :=
  ⟨rfl, rfl, fun _ => rfl, fun _ => rfl, fun _ => rfl, fun _ => rfl, fun _ => rfl, fun _ => rfl,
    fun _ => ⟨rfl, rfl⟩⟩

theorem Frame.withSessions (h : op.onSessions = true) (sessions : SessionTable) :
    Frame op w { w with sessions } := by
  refine ⟨rfl, rfl, ?_, fun _ => rfl, fun _ => rfl, fun _ => rfl, fun _ => rfl, fun _ => rfl,
    fun _ => ⟨rfl, rfl⟩⟩
  intro hn
  rw [h] at hn
  cases hn

theorem Frame.withUsers (h : op.onUsers = true) (users : UserTable) :
    Frame op w { w with users } := by
  refine ⟨rfl, rfl, fun _ => rfl, ?_, fun _ => rfl, fun _ => rfl, fun _ => rfl, fun _ => rfl,
    fun _ => ⟨rfl, rfl⟩⟩
  intro hn
  rw [h] at hn
  cases hn

theorem Frame.withResetTokens (h : op.onResetTokens = true) (resetTokens : ResetTable) :
    Frame op w { w with resetTokens } := by
  refine ⟨rfl, rfl, fun _ => rfl, fun _ => rfl, ?_, fun _ => rfl, fun _ => rfl, fun _ => rfl,
    fun _ => ⟨rfl, rfl⟩⟩
  intro hn
  rw [h] at hn
  cases hn

theorem Frame.withAttempts (h : op.onAttempts = true) (loginAttempts : List LoginAttempt) :
    Frame op w { w with loginAttempts } := by
  refine ⟨rfl, rfl, fun _ => rfl, fun _ => rfl, fun _ => rfl, ?_, fun _ => rfl, fun _ => rfl,
    fun _ => ⟨rfl, rfl⟩⟩
  intro hn
  rw [h] at hn
  cases hn

theorem Frame.withRegistry (h : op.onRegistry = true) (registry : Registry) :
    Frame op w { w with registry } := by
  refine ⟨rfl, rfl, fun _ => rfl, fun _ => rfl, fun _ => rfl, fun _ => rfl, ?_, fun _ => rfl,
    fun _ => ⟨rfl, rfl⟩⟩
  intro hn
  rw [h] at hn
  cases hn

theorem Frame.withRoles (h : op.onRoles = true) (userRoles : List (UserId × RoleId)) :
    Frame op w { w with userRoles } := by
  refine ⟨rfl, rfl, fun _ => rfl, fun _ => rfl, fun _ => rfl, fun _ => rfl, fun _ => rfl, ?_,
    fun _ => ⟨rfl, rfl⟩⟩
  intro hn
  rw [h] at hn
  cases hn

/-- A call fails and changes nothing, or does what it is there for. -/
theorem attempt_cases {k : Except StoreError α × World} {a : Except StoreError α}
    (h : attempt ch w k = (a, w')) :
    (∃ e, ch.fault = some e ∧ a = .error e ∧ w' = w) ∨ ch.fault = none ∧ k = (a, w') := by
  unfold attempt at h
  cases hf : ch.fault with
  | some e =>
    rw [hf] at h
    cases h
    exact .inl ⟨e, rfl, rfl, rfl⟩
  | none =>
    rw [hf] at h
    exact .inr ⟨rfl, h⟩

theorem frame_attempt {k : Except StoreError α × World} {a : Except StoreError α}
    (hk : Frame op w k.2) (h : some (attempt ch w k) = some (a, w')) : Frame op w w' := by
  rcases attempt_cases (Option.some.inj h) with ⟨e, -, -, rfl⟩ | ⟨-, rfl⟩
  · exact .same
  · exact hk

theorem frame_byBackend {b : Backend} {k k' : Except StoreError α × World} (hk : Frame op w k.2)
    (hk' : Frame op w k'.2) : Frame op w (byBackend k k' b).2 := by
  cases b with
  | mem => exact hk
  | pg => exact hk'

theorem frame_ite {c : Prop} [Decidable c] {k k' : Except StoreError α × World}
    (hk : Frame op w k.2) (hk' : Frame op w k'.2) : Frame op w (if c then k else k').2 := by
  split
  · exact hk
  · exact hk'

theorem exec_frame (h : exec K ch op w = some (r, w')) : Frame op w w' := by
  cases op with
  | readClock => cases h; exact .same
  | generateCsrfToken => cases h; exact .same
  | hashPassword password => cases h; exact .same
  | verifyPassword password hash => cases h; exact .same
  | mint =>
    simp only [exec] at h
    split_ifs at h
    cases h
    exact ⟨rfl, rfl, fun _ => rfl, fun _ => rfl, fun _ => rfl, fun _ => rfl, fun _ => rfl,
      fun _ => rfl, fun hn => by cases hn⟩
  | getSessionByTokenHash hash => exact frame_attempt .same h
  | getUserById id => exact frame_attempt .same h
  | getUserByEmail email => exact frame_attempt .same h
  | countUsers => exact frame_attempt .same h
  | listUserPermissions id => exact frame_attempt .same h
  | getRoleByName name => exact frame_attempt .same h
  | createEmailVerificationToken id => exact frame_attempt .same h
  | getPasswordResetToken hash => exact frame_attempt .same h
  | countRecentFailedAttempts identifier window => exact frame_attempt .same h
  | countRecentIpFailures ip window => exact frame_attempt .same h
  | listBootstrapTokens => exact frame_attempt .same h
  | recordAuditEvent action => exact frame_attempt .same h
  | createSession s =>
    refine frame_attempt (frame_byBackend (.withSessions rfl _) ?_) h
    exact frame_ite .same (frame_ite .same (frame_ite .same (.withSessions rfl _)))
  | deleteSession id => exact frame_attempt (.withSessions rfl _) h
  | updateSessionExpiry id expiresAt =>
    exact frame_attempt (frame_byBackend (.withSessions rfl _)
      (frame_ite (.withSessions rfl _) .same)) h
  | deleteUserSessions id => exact frame_attempt (.withSessions rfl _) h
  | createUser u =>
    refine frame_attempt (frame_byBackend (frame_ite .same (.withUsers rfl _)) ?_) h
    unfold PgStore.createUser
    cases PgStore.insertUserRefusal w u with
    | some e => exact .same
    | none => exact .withUsers rfl _
  | updateUserPassword id hash =>
    refine frame_attempt ?_ h
    unfold World.setPassword
    cases K.backend with
    | mem => exact frame_ite (.withUsers rfl _) .same
    | pg => exact .withUsers rfl _
  | updateUserLastLogin id at_ =>
    refine frame_attempt ?_ h
    unfold World.setLastLogin
    cases K.backend with
    | mem => exact frame_ite (.withUsers rfl _) .same
    | pg => exact .withUsers rfl _
  | assignUserRole id role =>
    have added : Frame (.assignUserRole id role) w (MemStore.assignUserRole w id role).2 :=
      frame_ite .same (.withRoles rfl _)
    exact frame_attempt (frame_byBackend added (frame_ite .same (frame_ite .same added))) h
  | createPasswordResetToken t =>
    refine frame_attempt (frame_byBackend (.withResetTokens rfl _) ?_) h
    exact frame_ite .same (frame_ite .same (frame_ite .same (.withResetTokens rfl _)))
  | consumePasswordResetToken id at_ =>
    refine frame_attempt ?_ h
    cases K.backend with
    | mem => exact .withResetTokens rfl _
    | pg => exact .withResetTokens rfl _
  | recordLoginAttempt a => exact frame_attempt (.withAttempts rfl _) h
  | clearLoginAttempts identifier => exact frame_attempt (.withAttempts rfl _) h
  | deleteOldLoginAttempts cutoff => exact frame_attempt (.withAttempts rfl _) h
  | createBootstrapToken t =>
    exact frame_attempt (frame_byBackend (frame_ite .same (.withRegistry rfl _))
      (frame_ite .same (.withRegistry rfl _))) h
  | revokeBootstrapToken digest => exact frame_attempt (.withRegistry rfl _) h
  | consumeBootstrapToken token usedBy => exact frame_attempt (.withRegistry rfl _) h
  | enrollWorker token usedBy worker credential => exact frame_attempt (.withRegistry rfl _) h

end Frame

/-- The event brings no session, and leaves the draws alone. -/
theorem happen_frame (b : Backend) (w : World) (e : Event) :
    (∀ s ∈ (happen b w e).sessions.rows, s ∈ w.sessions.rows) ∧ w.now ≤ (happen b w e).now ∧
      (happen b w e).drawn = w.drawn ∧ (happen b w e).ids = w.ids := by
  cases e with
  | elapse secs =>
    refine ⟨fun s hs => hs, ?_, rfl, rfl⟩
    simp only [happen]
    omega
  | deleteExpiredSessions => exact ⟨fun s hs => (List.mem_filter.mp hs).1, le_rfl, rfl, rfl⟩
  | deleteUserSessions id => exact ⟨fun s hs => (List.mem_filter.mp hs).1, le_rfl, rfl, rfl⟩
  | deleteUser id => exact ⟨fun s hs => (List.mem_filter.mp hs).1, le_rfl, rfl, rfl⟩
  | deleteOldLoginAttempts cutoff => exact ⟨fun s hs => hs, le_rfl, rfl, rfl⟩
  | putUser u => exact ⟨fun s hs => hs, le_rfl, rfl, rfl⟩
  | revokeBootstrapToken digest => exact ⟨fun s hs => hs, le_rfl, rfl, rfl⟩

section Runs

variable {K : Site} {c c' c₀ : AccountConfig} {x : AccountAction}
  {cond : AccountConfig → AccountAction → Prop}

theorem start_state {p : Unit} {a : Activity} (hs : (dashboard K).step c (.start p a) = some c') :
    c'.state = c.state :=
  (Option.some.inj (step_start hs).1).symm

theorem env_state {e : Event} (hs : (dashboard K).step c (.env e) = some c') :
    c'.state = happen K.backend c.state e :=
  (Option.some.inj (step_env hs).1).symm

/-- The clock does not go back. -/
theorem step_now (hs : (dashboard K).step c x = some c') : c.state.now ≤ c'.state.now := by
  cases x with
  | start p a => exact (start_state hs).symm ▸ le_rfl
  | env e =>
    rw [env_state hs]
    exact (happen_frame _ _ _).2.1
  | run i ch =>
    obtain ⟨op, ⟨r⟩⟩ := step_run hs
    exact (exec_frame r.done).now.ge

theorem reaches_now (h : (dashboard K).Reaches cond c₀ c) : c₀.state.now ≤ c.state.now := by
  induction h with
  | refl => exact le_rfl
  | tail x h hx hs ih => exact ih.trans (step_now hs)

end Runs

section Sessions

variable {K : Site} {ch : Choice} {op : Op} {r : op.Resp} {w w' : World} {s x : Session}

/-- Where a session of the table after a call comes from. -/
inductive Arrives (w : World) (s : Session) : Entry Op Op.Resp → Prop
  | kept {e : Entry Op Op.Resp} (hs : s ∈ w.sessions.rows) : Arrives w s e
  | created : Arrives w s ⟨.createSession s, .ok ()⟩
  | shortened (y : Session) (d : ℤ) (hy : y ∈ w.sessions.rows) (hs : s = { y with expiresAt := d }) :
    Arrives w s ⟨.updateSessionExpiry y.id d, .ok ()⟩

theorem mem_put_session {w : World} (hx : x ∈ (w.sessions.put s).rows) :
    x ∈ w.sessions.rows ∨ x = s := by
  rcases List.mem_append.mp hx with h | h
  · exact .inl (List.mem_filter.mp h).1
  · exact .inr (List.mem_singleton.mp h)

theorem arrives_created {b : Backend} {a : Except StoreError Unit}
    (h : byBackend (MemStore.createSession w s) (PgStore.createSession w s) b = (a, w'))
    (hx : x ∈ w'.sessions.rows) : Arrives w x ⟨.createSession s, a⟩ := by
  have put (he : ((.ok () : Except StoreError Unit), { w with sessions := w.sessions.put s }) =
      (a, w')) : Arrives w x ⟨.createSession s, a⟩ := by
    cases he
    rcases mem_put_session hx with hx | rfl
    · exact .kept hx
    · exact .created
  cases b with
  | mem => exact put h
  | pg =>
    simp only [byBackend, PgStore.createSession] at h
    split_ifs at h
    · cases h; exact .kept hx
    · cases h; exact .kept hx
    · cases h; exact .kept hx
    · exact put h

theorem mem_setSessionExpiry {id : SessionId} {d : ℤ}
    (hx : x ∈ (w.setSessionExpiry id d).sessions.rows) :
    x ∈ w.sessions.rows ∧ x.id ≠ id ∨
      ∃ y ∈ w.sessions.rows, y.id = id ∧ x = { y with expiresAt := d } := by
  obtain ⟨y, hy, rfl⟩ := List.mem_map.mp hx
  by_cases hid : y.id = id
  · exact .inr ⟨y, hy, hid, by simp [hid]⟩
  · exact .inl ⟨by simpa [hid] using hy, by simp [hid]⟩

theorem arrives_shortened {b : Backend} {id : SessionId} {d : ℤ} {a : Except StoreError Unit}
    (h : byBackend (MemStore.updateSessionExpiry w id d) (PgStore.updateSessionExpiry w id d) b =
      (a, w'))
    (hx : x ∈ w'.sessions.rows) : Arrives w x ⟨.updateSessionExpiry id d, a⟩ := by
  have set (he : ((.ok () : Except StoreError Unit), w.setSessionExpiry id d) = (a, w')) :
      Arrives w x ⟨.updateSessionExpiry id d, a⟩ := by
    cases he
    rcases mem_setSessionExpiry hx with ⟨hx, -⟩ | ⟨y, hy, rfl, hs⟩
    · exact .kept hx
    · exact .shortened y d hy hs
  cases b with
  | mem => exact set h
  | pg =>
    simp only [byBackend, PgStore.updateSessionExpiry] at h
    split_ifs at h
    · exact set h
    · cases h; exact .kept hx

theorem exec_arrives (h : exec K ch op w = some (r, w')) (hx : x ∈ w'.sessions.rows) :
    Arrives w x ⟨op, r⟩ := by
  cases hop : op.onSessions with
  | false =>
    rw [(exec_frame h).sessions hop] at hx
    exact .kept hx
  | true =>
    cases op with
    | createSession s =>
      rcases attempt_cases (Option.some.inj h) with ⟨e, -, -, rfl⟩ | ⟨-, h⟩
      · exact .kept hx
      · exact arrives_created h hx
    | updateSessionExpiry id d =>
      rcases attempt_cases (Option.some.inj h) with ⟨e, -, -, rfl⟩ | ⟨-, h⟩
      · exact .kept hx
      · exact arrives_shortened h hx
    | deleteSession id =>
      rcases attempt_cases (Option.some.inj h) with ⟨e, -, -, rfl⟩ | ⟨-, h⟩
      · exact .kept hx
      · cases h
        exact .kept (List.mem_filter.mp hx).1
    | deleteUserSessions id =>
      rcases attempt_cases (Option.some.inj h) with ⟨e, -, -, rfl⟩ | ⟨-, h⟩
      · exact .kept hx
      · cases h
        exact .kept (List.mem_filter.mp hx).1
    | _ => cases hop

/-- After the call the sessions of that id end when it says. -/
theorem exec_shortened {id : SessionId} {d : ℤ}
    (h : exec K ch (.updateSessionExpiry id d) w = some (.ok (), w'))
    (hx : x ∈ w'.sessions.rows) (hid : x.id = id) : x.expiresAt = d := by
  rcases attempt_cases (Option.some.inj h) with ⟨e, -, he, -⟩ | ⟨-, h⟩
  · cases he
  have set (hw : w' = w.setSessionExpiry id d) : x.expiresAt = d := by
    subst hw
    rcases mem_setSessionExpiry hx with ⟨-, hne⟩ | ⟨y, -, -, rfl⟩
    · exact absurd hid hne
    · rfl
  cases hb : K.backend with
  | mem =>
    rw [hb] at h
    cases h
    exact set rfl
  | pg =>
    rw [hb] at h
    simp only [byBackend, PgStore.updateSessionExpiry] at h
    split_ifs at h
    · cases h
      exact set rfl
    · cases h

theorem exec_read {hash : String} (h : exec K ch (.getSessionByTokenHash hash) w =
    some (.ok (some s), w')) : w.sessions.get hash = some s := by
  rcases attempt_cases (Option.some.inj h) with ⟨e, -, he, -⟩ | ⟨-, h⟩
  · cases he
  · exact Except.ok.inj (Prod.mk.inj h).1

/-- A deletion that does not fail leaves no session of the id. -/
theorem exec_deleted {id : SessionId} {a : Except StoreError Unit} (hf : ch.fault = none)
    (h : exec K ch (.deleteSession id) w = some (a, w')) : ∀ x ∈ w'.sessions.rows, x.id ≠ id := by
  simp only [exec, change, attempt, hf] at h
  cases h
  intro x hx
  simpa using (List.mem_filter.mp hx).2

end Sessions

section Registry

variable {K : Site} {ch : Choice} {w w' : World} {token digest usedBy : String} {now : ℤ}
  {b : Backend} {reg reg' : Registry} {a : Except StoreError Unit} {t : BootstrapToken}

theorem usable_of_matches (h : t.matchesUse now = true) : t.isUsable now = true := by
  simp only [BootstrapToken.matchesUse, Bool.and_eq_true, decide_eq_true_eq] at h
  obtain ⟨huse, hexp⟩ := h
  unfold BootstrapToken.isUsable
  rw [if_neg (by omega)]
  cases he : t.expiresAt with
  | none => rfl
  | some d =>
    rw [he] at hexp
    have : now < d := by simpa using hexp
    simp only [Bool.not_eq_true', decide_eq_false_iff_not]
    omega

/-- A token that is not consumed stays as it was; one that is was usable. -/
theorem consume_cases
    (h : byBackend (Enrolment.MemStore.consumeBootstrapToken reg now digest usedBy)
      (PgStore.consumeBootstrapToken reg now digest usedBy) b = (a, reg')) :
    (∃ e, a = .error e ∧ reg' = reg) ∨ a = .ok () ∧ reg' = reg.useToken digest usedBy now ∧
      ∃ t, reg.tokens.get digest = some t ∧ t.isUsable now = true := by
  cases b with
  | mem =>
    simp only [byBackend, Enrolment.MemStore.consumeBootstrapToken] at h
    split at h
    · cases h
      exact .inl ⟨_, rfl, rfl⟩
    · next t ht =>
      split_ifs at h with hu
      · cases h
        exact .inl ⟨_, rfl, rfl⟩
      · cases h
        exact .inr ⟨rfl, rfl, t, ht, by simpa using hu⟩
  | pg =>
    simp only [byBackend, PgStore.consumeBootstrapToken] at h
    generalize hu : Enrolment.PgStore.useToken reg now digest usedBy = u at h
    unfold Enrolment.PgStore.useToken at hu
    split_ifs at hu with hm
    · subst hu
      cases h
      obtain ⟨t, ht, hu⟩ := (Option.any_eq_true _ _).mp hm
      exact .inr ⟨rfl, rfl, t, ht, usable_of_matches hu⟩
    · subst hu
      cases h
      exact .inl ⟨_, rfl, rfl⟩

theorem exec_consumeToken (h : exec K ch (.consumeBootstrapToken token usedBy) w = some (a, w')) :
    (∃ e, a = .error e ∧ w' = w) ∨ a = .ok () ∧
      w' = { w with registry := w.registry.useToken (K.sha256Hex token) usedBy w.now } ∧
      ∃ t, w.registry.tokens.get (K.sha256Hex token) = some t ∧ t.isUsable w.now = true := by
  rcases attempt_cases (Option.some.inj h) with ⟨e, -, rfl, rfl⟩ | ⟨-, h⟩
  · exact .inl ⟨e, rfl, rfl⟩
  · generalize hr : byBackend _ _ K.backend = r at h
    obtain ⟨x, reg'⟩ := r
    cases h
    rcases consume_cases hr with ⟨e, rfl, rfl⟩ | ⟨rfl, rfl, ht⟩
    · exact .inl ⟨e, rfl, rfl⟩
    · exact .inr ⟨rfl, rfl, ht⟩

end Registry

section ResetTokens

variable {K : Site} {ch : Choice} {op : Op} {r : op.Resp} {w w' : World}
  {t x : PasswordResetToken} {id : ℕ} {at_ : ℤ}

/-- Where a token of the table after a call comes from. -/
inductive TokenArrives (w : World) (x : PasswordResetToken) : Entry Op Op.Resp → Prop
  | kept {e : Entry Op Op.Resp} (hx : x ∈ w.resetTokens.rows) : TokenArrives w x e
  | created : TokenArrives w x ⟨.createPasswordResetToken x, .ok ()⟩
  | consumed (y : PasswordResetToken) (at_ : ℤ) (hy : y ∈ w.resetTokens.rows)
      (hx : x = { y with consumedAt := some at_ }) :
    TokenArrives w x ⟨.consumePasswordResetToken y.id at_, .ok ()⟩

theorem mem_put_token (hx : x ∈ (w.resetTokens.put t).rows) : x ∈ w.resetTokens.rows ∨ x = t := by
  rcases List.mem_append.mp hx with h | h
  · exact .inl (List.mem_filter.mp h).1
  · exact .inr (List.mem_singleton.mp h)

theorem tokenArrives_created {b : Backend} {a : Except StoreError Unit}
    (h : byBackend (MemStore.createPasswordResetToken w t) (PgStore.createPasswordResetToken w t) b =
      (a, w'))
    (hx : x ∈ w'.resetTokens.rows) : TokenArrives w x ⟨.createPasswordResetToken t, a⟩ := by
  have put (he : ((.ok () : Except StoreError Unit), { w with resetTokens := w.resetTokens.put t }) =
      (a, w')) : TokenArrives w x ⟨.createPasswordResetToken t, a⟩ := by
    cases he
    rcases mem_put_token hx with hx | rfl
    · exact .kept hx
    · exact .created
  cases b with
  | mem => exact put h
  | pg =>
    simp only [byBackend, PgStore.createPasswordResetToken] at h
    split_ifs at h
    · cases h; exact .kept hx
    · cases h; exact .kept hx
    · cases h; exact .kept hx
    · exact put h

theorem mem_consumeResetTokens {p : PasswordResetToken → Bool}
    (hx : x ∈ (w.consumeResetTokens p at_).resetTokens.rows) :
    x ∈ w.resetTokens.rows ∧ p x = false ∨
      ∃ y ∈ w.resetTokens.rows, p y = true ∧ x = { y with consumedAt := some at_ } := by
  obtain ⟨y, hy, rfl⟩ := List.mem_map.mp hx
  cases hp : p y with
  | true => exact .inr ⟨y, hy, hp, by simp⟩
  | false => exact .inl ⟨by simpa using hy, by simpa using hp⟩

theorem exec_tokens (h : exec K ch op w = some (r, w')) (hx : x ∈ w'.resetTokens.rows) :
    TokenArrives w x ⟨op, r⟩ := by
  cases hop : op.onResetTokens with
  | false =>
    rw [(exec_frame h).resetTokens hop] at hx
    exact .kept hx
  | true =>
    cases op with
    | createPasswordResetToken t =>
      rcases attempt_cases (Option.some.inj h) with ⟨e, -, -, rfl⟩ | ⟨-, h⟩
      · exact .kept hx
      · exact tokenArrives_created h hx
    | consumePasswordResetToken id at_ =>
      rcases attempt_cases (Option.some.inj h) with ⟨e, -, -, rfl⟩ | ⟨-, h⟩
      · exact .kept hx
      · cases h
        cases hb : K.backend with
        | mem =>
          rw [hb] at hx
          rcases mem_consumeResetTokens hx with ⟨hx, -⟩ | ⟨y, hy, hp, hxy⟩
          · exact .kept hx
          · obtain rfl : y.id = id := by simpa using hp
            exact .consumed y at_ hy hxy
        | pg =>
          rw [hb] at hx
          rcases mem_consumeResetTokens hx with ⟨hx, -⟩ | ⟨y, hy, hp, hxy⟩
          · exact .kept hx
          · simp only [Bool.and_eq_true, decide_eq_true_eq] at hp
            obtain ⟨rfl, -⟩ := hp
            exact .consumed y at_ hy hxy
    | _ => cases hop

/-- After the call every token of that id is consumed. -/
theorem exec_consumed (h : exec K ch (.consumePasswordResetToken id at_) w = some (.ok (), w'))
    (hx : x ∈ w'.resetTokens.rows) (hid : x.id = id) : x.isConsumed = true := by
  rcases attempt_cases (Option.some.inj h) with ⟨e, -, he, -⟩ | ⟨-, h⟩
  · cases he
  cases h
  cases hb : K.backend with
  | mem =>
    rw [hb] at hx
    rcases mem_consumeResetTokens hx with ⟨-, hp⟩ | ⟨y, -, -, rfl⟩
    · simp [hid] at hp
    · rfl
  | pg =>
    rw [hb] at hx
    rcases mem_consumeResetTokens hx with ⟨-, hp⟩ | ⟨y, -, -, rfl⟩
    · simpa [hid] using hp
    · rfl

theorem exec_consumes {a : Except StoreError Unit} (hf : ch.fault = none)
    (h : exec K ch (.consumePasswordResetToken id at_) w = some (a, w')) : a = .ok () := by
  simp only [exec, change, attempt, hf] at h
  cases h
  rfl

theorem happen_tokens {b : Backend} {e : Event} (hx : x ∈ (happen b w e).resetTokens.rows) :
    x ∈ w.resetTokens.rows := by
  cases e with
  | deleteUser id =>
    cases b with
    | mem => exact hx
    | pg => exact (List.mem_filter.mp hx).1
  | _ => exact hx

theorem exec_readToken {hash : String} (h : exec K ch (.getPasswordResetToken hash) w =
    some (.ok (some t), w')) : w.getPasswordResetToken hash = some t := by
  rcases attempt_cases (Option.some.inj h) with ⟨e, -, he, -⟩ | ⟨-, h⟩
  · cases he
  · exact Except.ok.inj (Prod.mk.inj h).1

theorem exec_revoked {user : UserId} {a : Except StoreError Unit} (hf : ch.fault = none)
    (h : exec K ch (.deleteUserSessions user) w = some (a, w')) :
    ∀ x ∈ w'.sessions.rows, x.userId ≠ user := by
  simp only [exec, change, attempt, hf] at h
  cases h
  intro x hx
  simpa using (List.mem_filter.mp hx).2

end ResetTokens

end FleetOrchestrator.Accounts
