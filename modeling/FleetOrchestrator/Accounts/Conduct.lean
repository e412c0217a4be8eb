import FleetOrchestrator.Accounts.Effects

/-! Which calls each request makes, whatever they answer. -/

namespace FleetOrchestrator.Accounts

open Api Core Tables Store Enrolment Interleaving

/-- The calls that look at the limit on attempts, or count against it. -/
def Op.limits : Op → Bool
  | .readClock | .recordLoginAttempt _ | .countRecentFailedAttempts _ _
  | .countRecentIpFailures _ _ => true
  | _ => false

/-- The calls that follow a success. -/
def Op.clears : Op → Bool
  | .readClock | .recordLoginAttempt _ | .clearLoginAttempts _ | .deleteOldLoginAttempts _ => true
  | _ => false

def Op.guards : Op → Bool
  | .getSessionByTokenHash _ | .readClock | .deleteSession _ | .getUserById _
  | .listUserPermissions _ | .generateCsrfToken | .mint | .createSession _
  | .updateSessionExpiry _ _ => true
  | _ => false

def Op.logsIn : Op → Bool
  | .getUserByEmail _ | .verifyPassword _ _ | .mint | .createSession _ | .updateUserLastLogin _ _
  | .generateCsrfToken => true
  | _ => false

def Op.verifies : Op → Bool
  | .getUserByEmail _ | .mint | .createEmailVerificationToken _ => true
  | _ => false

def Op.offers : Op → Bool
  | .getUserByEmail _ | .readClock | .mint | .createPasswordResetToken _ => true
  | _ => false

def Op.resets : Op → Bool
  | .getPasswordResetToken _ | .readClock | .hashPassword _ | .updateUserPassword _ _
  | .consumePasswordResetToken _ _ | .deleteUserSessions _ => true
  | _ => false

def Op.founds : Op → Bool
  | .countUsers | .listBootstrapTokens | .readClock | .hashPassword _ | .mint
  | .consumeBootstrapToken _ _ | .createUser _ | .getRoleByName _ | .assignUserRole _ _
  | .createSession _ | .updateUserLastLogin _ _ => true
  | _ => false

def Op.issues : Op → Bool
  | .listBootstrapTokens | .readClock | .mint | .createBootstrapToken _ | .recordAuditEvent _
  | .revokeBootstrapToken _ => true
  | _ => false

def Op.joins : Op → Bool
  | .enrollWorker _ _ _ _ => true
  | _ => false

def Activity.calls (a : Activity) (op : Op) : Bool :=
  match a with
  | .guarded _ _ => op.guards
  | .login _ _ => op.limits || op.clears || op.logsIn
  | .resendVerification _ _ => op.limits || op.verifies
  | .forgotPassword _ _ => op.limits || op.offers
  | .resetPassword _ _ => op.limits || op.clears || op.resets
  | .bootstrap _ _ => op.limits || op.clears || op.founds
  | .issueAdminBootstrapIfNeeded | .issueAdminBootstrapToken _ | .createBootstrapToken _ => op.issues
  | .joinWorker _ _ _ _ => op.joins

def IsBootstrap : Activity → Prop
  | .bootstrap _ _ => True
  | _ => False

def Finished (c : AccountConfig) (i : ℕ) : Prop := ∃ p a out, c.threads[i]? = some ⟨p, a, .ret out⟩

section Parts

variable {K : Site} {r : Request} {allowed : Op → Prop}

theorem uses_checkRateLimitCustom {identifier ip : String} {maxId maxIp : ℕ} {window : ℤ}
    (ha : ∀ op, op.limits = true → allowed op) :
    Uses allowed (checkRateLimitCustom identifier ip maxId maxIp window) := by
  apply uses_bind (uses_perform (ha _ rfl))
  intro a
  cases a with
  | error e => trivial
  | ok n =>
    apply uses_ite (uses_ret _)
    apply uses_bind (uses_perform (ha _ rfl))
    intro a
    cases a <;> trivial

theorem uses_recordLoginFailure {identifier ip reason : String}
    (ha : ∀ op, op.limits = true → allowed op) :
    Uses allowed (recordLoginFailure identifier ip reason) :=
  uses_bind (uses_perform (ha _ rfl)) fun _ => uses_perform (ha _ rfl)

theorem uses_recordLoginSuccess {identifier ip : String}
    (ha : ∀ op, op.clears = true → allowed op) :
    Uses allowed (recordLoginSuccess identifier ip) := by
  apply uses_bind (uses_perform (ha _ rfl))
  intro now
  apply uses_bind (uses_perform (ha _ rfl))
  intro a
  cases a with
  | error e => trivial
  | ok u =>
    apply uses_bind (uses_perform (ha _ rfl))
    intro a
    cases a with
    | error e => trivial
    | ok u =>
      apply uses_bind (uses_perform (ha _ rfl))
      intro now
      exact uses_bind (uses_perform (ha _ rfl)) fun _ => uses_ret _

theorem uses_loginRefused {email : String} (ha : ∀ op, op.limits = true → allowed op) :
    Uses allowed (loginRefused r email) :=
  uses_bind (uses_recordLoginFailure ha) fun _ => uses_ret _

theorem uses_limitMail {identifier reason : String} (ha : ∀ op, op.limits = true → allowed op) :
    Uses allowed (limitMail r identifier reason) := by
  apply uses_bind (uses_checkRateLimitCustom ha)
  intro granted
  apply uses_ite (uses_ret _)
  exact uses_bind (uses_recordLoginFailure ha) fun _ => uses_ret _

theorem uses_usableResetToken {identifier token : String} (ha : ∀ op, op.limits = true → allowed op)
    (hr : ∀ op, op.resets = true → allowed op) :
    Uses allowed (usableResetToken K r identifier token) := by
  apply uses_bind (uses_perform (hr _ rfl))
  intro a
  cases a with
  | error e => trivial
  | ok found =>
    cases found with
    | none => exact uses_bind (uses_recordLoginFailure ha) fun _ => uses_ret _
    | some t =>
      apply uses_ite
      · exact uses_bind (uses_recordLoginFailure ha) fun _ => uses_ret _
      · apply uses_bind (uses_perform (hr _ rfl))
        intro now
        apply uses_ite
        · exact uses_bind (uses_recordLoginFailure ha) fun _ => uses_ret _
        · trivial

theorem uses_matchBootstrapToken {otpFull : String} (ha : ∀ op, op.limits = true → allowed op)
    (hl : allowed .listBootstrapTokens) : Uses allowed (matchBootstrapToken K r otpFull) := by
  unfold matchBootstrapToken
  apply uses_ite
  · exact uses_bind (uses_recordLoginFailure ha) fun _ => uses_ret _
  · apply uses_bind (uses_perform hl)
    intro a
    cases a with
    | error e => trivial
    | ok tokens =>
      apply uses_bind (uses_perform (ha _ rfl))
      intro now
      apply uses_ite
      · exact uses_bind (uses_recordLoginFailure ha) fun _ => uses_ret _
      · trivial

end Parts

section Programs

variable {K : Site} {r : Request}

theorem uses_guarded {handler : Handler} :
    Uses (fun op => op.guards = true) (requireSession K r (handle K r handler)) := by
  apply uses_bind
  · unfold authenticate
    cases r.sessionCookie with
    | none => exact uses_ret _
    | some token =>
      refine uses_step rfl ?_
      intro a
      cases a with
      | error e => trivial
      | ok found =>
        cases found with
        | none => trivial
        | some session =>
          refine uses_step rfl ?_
          intro now
          apply uses_ite
          · exact uses_bind (uses_perform rfl) fun _ => uses_ret _
          · refine uses_step rfl ?_
            intro a
            cases a with
            | error e => trivial
            | ok found =>
              cases found with
              | none => trivial
              | some user =>
                apply uses_ite (uses_ret _)
                refine uses_step rfl ?_
                intro a
                cases a <;> trivial
  · intro a
    cases a with
    | error response => trivial
    | ok ps =>
      apply uses_bind
      · unfold csrfTokenOf
        cases r.csrfCookie with
        | some token => exact uses_ret _
        | none => exact uses_perform rfl
      · intro csrfToken
        apply uses_bind
        · refine uses_step rfl ?_
          intro now
          apply uses_ite (uses_ret _)
          refine uses_step rfl ?_
          intro m
          refine uses_step rfl ?_
          intro a
          cases a with
          | error e => trivial
          | ok u => exact uses_bind (uses_perform rfl) fun _ => uses_ret _
        · intro rotation
          apply uses_bind
          · cases handler with
            | page => exact uses_ret _
            | logout csrfHeader =>
              exact uses_ite (uses_ret _) (uses_bind (uses_perform rfl) fun _ => uses_ret _)
          · intro response
            cases rotation <;> trivial

theorem uses_login {form : LoginForm} :
    Uses (fun op => (op.limits || op.clears || op.logsIn) = true) (login K r form) := by
  have hl : ∀ op : Op, op.limits = true → (op.limits || op.clears || op.logsIn) = true := by
    intro op ho
    simp [ho]
  have hc : ∀ op : Op, op.clears = true → (op.limits || op.clears || op.logsIn) = true := by
    intro op ho
    simp [ho]
  apply uses_ite (uses_ret _)
  apply uses_bind (uses_checkRateLimitCustom hl)
  intro a
  cases a with
  | error e => trivial
  | ok granted =>
    cases granted with
    | false => trivial
    | true =>
      refine uses_step rfl ?_
      intro a
      cases a with
      | error e => trivial
      | ok found =>
        dsimp only
        cases found.filter fun u => u.enabled with
        | none => exact uses_bind (uses_perform rfl) fun _ => uses_loginRefused hl
        | some user =>
          refine uses_step rfl ?_
          intro valid
          apply uses_ite (uses_loginRefused hl)
          apply uses_ite
          · exact uses_bind (uses_recordLoginFailure hl) fun _ => uses_ret _
          · refine uses_step rfl ?_
            intro m
            refine uses_step rfl ?_
            intro createdAt
            refine uses_step rfl ?_
            intro base
            refine uses_step rfl ?_
            intro a
            cases a with
            | error e => trivial
            | ok u =>
              refine uses_step rfl ?_
              intro now
              refine uses_step rfl ?_
              intro a
              apply uses_bind (uses_recordLoginSuccess hc)
              intro a
              exact uses_bind (uses_perform rfl) fun _ => uses_ret _

theorem uses_resendVerification {form : EmailForm} :
    Uses (fun op => (op.limits || op.verifies) = true) (resendVerification r form) := by
  apply uses_ite (uses_ret _)
  apply uses_bind (uses_limitMail fun op ho => by simp [ho])
  intro granted
  apply uses_ite (uses_ret _)
  apply uses_bind
  · refine uses_step rfl ?_
    intro a
    cases a with
    | error e => trivial
    | ok found =>
      cases found with
      | none => trivial
      | some user =>
        apply uses_ite (uses_ret _)
        refine uses_step rfl ?_
        intro m
        exact uses_bind (uses_perform rfl) fun _ => uses_ret _
  · exact fun _ => uses_ret _

theorem uses_forgotPassword {form : EmailForm} :
    Uses (fun op => (op.limits || op.offers) = true) (forgotPassword K r form) := by
  apply uses_ite (uses_ret _)
  apply uses_bind (uses_limitMail fun op ho => by simp [ho])
  intro granted
  apply uses_ite (uses_ret _)
  apply uses_bind
  · refine uses_step rfl ?_
    intro a
    cases a with
    | error e => trivial
    | ok found =>
      cases found with
      | none => trivial
      | some user =>
        refine uses_step rfl ?_
        intro m
        refine uses_step rfl ?_
        intro createdAt
        refine uses_step rfl ?_
        intro base
        exact uses_bind (uses_perform rfl) fun _ => uses_ret _
  · exact fun _ => uses_ret _

theorem uses_resetPassword {form : ResetPasswordForm} :
    Uses (fun op => (op.limits || op.clears || op.resets) = true) (resetPassword K r form) := by
  have hl : ∀ op : Op, op.limits = true → (op.limits || op.clears || op.resets) = true := by
    intro op ho
    simp [ho]
  apply uses_ite (uses_ret _)
  apply uses_bind (uses_checkRateLimitCustom hl)
  intro granted
  apply uses_ite (uses_ret _)
  apply uses_ite (uses_ret _)
  apply uses_ite (uses_ret _)
  apply uses_bind (uses_usableResetToken hl fun op ho => by simp [ho])
  intro a
  cases a with
  | error response => trivial
  | ok t =>
    refine uses_step rfl ?_
    intro hashed
    cases hashed with
    | none => trivial
    | some hash =>
      refine uses_step rfl ?_
      intro a
      cases a with
      | error e => trivial
      | ok u =>
        refine uses_step rfl ?_
        intro now
        refine uses_step rfl ?_
        intro a
        refine uses_step rfl ?_
        intro a
        exact uses_bind (uses_recordLoginSuccess fun op ho => by simp [ho]) fun _ => uses_ret _

theorem uses_createAdmin {token : String} {user : User} :
    Uses (fun op => op.founds = true) (consumeBootstrapAndCreateAdmin K token user) := by
  refine uses_step rfl ?_
  intro a
  cases a with
  | error e => trivial
  | ok u =>
    refine uses_step rfl ?_
    intro a
    cases a with
    | error e => trivial
    | ok u =>
      refine uses_step rfl ?_
      intro a
      cases a with
      | error e => trivial
      | ok found =>
        cases found with
        | none => trivial
        | some role =>
          refine uses_step rfl ?_
          intro a
          cases a with
          | error e => trivial
          | ok u =>
            refine uses_step rfl ?_
            intro m
            refine uses_step rfl ?_
            intro createdAt
            refine uses_step rfl ?_
            intro base
            refine uses_step rfl ?_
            intro a
            cases a with
            | error e => trivial
            | ok u =>
              refine uses_step rfl ?_
              intro now
              exact uses_bind (uses_perform rfl) fun _ => uses_ret _

theorem uses_bootstrap {form : BootstrapForm} :
    Uses (fun op => (op.limits || op.clears || op.founds) = true) (bootstrap K r form) := by
  have hl : ∀ op : Op, op.limits = true → (op.limits || op.clears || op.founds) = true := by
    intro op ho
    simp [ho]
  refine uses_ite (uses_ret _) ?_
  refine uses_step rfl ?_
  intro a
  cases a with
  | error e => trivial
  | ok count =>
    refine uses_ite (uses_ret _) ?_
    apply uses_bind (uses_checkRateLimitCustom hl)
    intro a
    cases a with
    | error e => trivial
    | ok granted =>
      cases granted with
      | false => trivial
      | true =>
        dsimp only
        refine uses_bind (uses_matchBootstrapToken hl rfl) ?_
        intro a
        cases a with
        | error response => trivial
        | ok token =>
          refine uses_ite (uses_ret _) (uses_ite (uses_ret _) ?_)
          refine uses_step rfl ?_
          intro hashed
          cases hashed with
          | none => trivial
          | some hash =>
            refine uses_step rfl ?_
            intro m
            refine uses_step rfl ?_
            intro now
            refine uses_bind (uses_mono uses_createAdmin fun op ho => by simp [ho]) ?_
            intro a
            cases a with
            | error e => trivial
            | ok token =>
              exact uses_bind (uses_recordLoginSuccess fun op ho => by simp [ho]) fun _ => uses_ret _

theorem uses_issueIfNeeded : Uses (fun op => op.issues = true) (issueAdminBootstrapIfNeeded K) := by
  refine uses_step rfl ?_
  intro a
  cases a with
  | error e => trivial
  | ok existing =>
    refine uses_step rfl ?_
    intro now
    apply uses_ite (uses_ret _)
    refine uses_step rfl ?_
    intro m
    refine uses_step rfl ?_
    intro base
    refine uses_step rfl ?_
    intro a
    cases a <;> trivial

theorem uses_issue {hours : ℤ} :
    Uses (fun op => op.issues = true) (issueAdminBootstrapToken K hours) := by
  refine uses_step rfl ?_
  intro m
  refine uses_step rfl ?_
  intro now
  dsimp only
  split
  · exact uses_ret _
  · refine uses_step rfl ?_
    intro a
    cases a <;> trivial

theorem uses_issueJoinToken {bt : BootstrapToken} {token : String} :
    Uses (fun op => op.issues = true) (issueJoinToken bt token) := by
  refine uses_step rfl ?_
  intro a
  cases a with
  | error e => trivial
  | ok u =>
    refine uses_step rfl ?_
    intro a
    cases a with
    | ok u => trivial
    | error e => exact uses_bind (uses_perform rfl) fun _ => uses_ret _

theorem uses_createBootstrapToken {req : JoinTokenRequest} :
    Uses (fun op => op.issues = true) (createBootstrapToken K req) := by
  unfold createBootstrapToken
  cases req.refusal with
  | some message => exact uses_ret _
  | none =>
    refine uses_step rfl ?_
    intro m
    refine uses_step rfl ?_
    intro now
    dsimp only
    split
    · exact uses_ret _
    · exact uses_issueJoinToken

theorem uses_joinWorker {token usedBy : String} {worker : Worker}
    {credential : WorkerOperationalCredential} :
    Uses (fun op => op.joins = true) (joinWorker token usedBy worker credential) := by
  refine uses_step rfl ?_
  intro a
  cases a <;> trivial

theorem program_calls (a : Activity) : Uses (fun op => a.calls op = true) (program K a) := by
  cases a with
  | guarded r handler => exact uses_guarded
  | login r form => exact uses_login
  | resendVerification r form => exact uses_resendVerification
  | forgotPassword r form => exact uses_forgotPassword
  | resetPassword r form => exact uses_resetPassword
  | bootstrap r form => exact uses_bootstrap
  | issueAdminBootstrapIfNeeded => exact uses_issueIfNeeded
  | issueAdminBootstrapToken hours => exact uses_issue
  | createBootstrapToken req => exact uses_createBootstrapToken
  | joinWorker token usedBy worker credential => exact uses_joinWorker

/-- Where all that an activity calls is licensed anyway, its program needs no further look. -/
theorem program_obeys {a : Activity} {p : Unit} {φ : History → Op → Prop}
    (ha : ∀ h op, a.calls op = true → φ h op) :
    Obeys φ (fun _ _ => True) ((dashboard K).program p a) [] :=
  obeys_conseq (obeys_of_uses (program_calls a) ha) fun _ _ _ => trivial

theorem calls_disciplined : (dashboard K).Disciplined (fun _ a _ op => a.calls op = true)
    fun _ _ _ _ => True :=
  fun _ _ => program_obeys fun _ _ ho => ho

end Programs

end FleetOrchestrator.Accounts
