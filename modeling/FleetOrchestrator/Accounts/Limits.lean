import FleetOrchestrator.Accounts.Rotation

/-! Under what a request counts its failures, and what becomes of the rows that are counted. -/

namespace FleetOrchestrator.Accounts

open Api Core Tables Store Enrolment Interleaving Machine

/-- How long a failure is kept at least. -/
def KEPT_SECS : ℤ := 7 * 24 * 3600

/-- Most endpoints put their own name in front; a login counts under the address as it was typed. -/
def Activity.identifier : Activity → Option String
  | .login _ form => some form.email
  | .resendVerification _ form => some ("resend:" ++ form.email)
  | .forgotPassword _ form => some ("forgot:" ++ form.email)
  | .resetPassword r _ => some ("reset:" ++ r.ip)
  | .bootstrap r _ => some ("bootstrap:" ++ r.ip)
  | _ => none

/-- What an activity counts and clears is its own. -/
def Counts (a : Activity) (h : History) : Op → Prop
  | .countRecentFailedAttempts x window => a.identifier = some x ∧ window ≤ KEPT_SECS
  | .recordLoginAttempt t => t.success = false → a.identifier = some t.identifier
  | .clearLoginAttempts x => a.identifier = some x ∨ IsBootstrap a
  | .deleteOldLoginAttempts cutoff => ∃ t : ℤ, Told h .readClock t ∧ cutoff = t - KEPT_SECS
  | _ => True

def Op.uncounted : Op → Bool
  | .countRecentFailedAttempts _ _ | .recordLoginAttempt _ | .clearLoginAttempts _
  | .deleteOldLoginAttempts _ => false
  | _ => true

section Conduct

variable {K : Site} {r : Request} {a : Activity} {identifier ip reason : String}

theorem counts_of_uncounted (h : History) (op : Op) (ho : op.uncounted = true) : Counts a h op := by
  cases op <;> trivial

theorem uncounted_step {α : Type} {op : Op} {f : op.Resp → Call α} (ho : op.uncounted = true)
    (hf : ∀ x, Abides (Counts a) (f x)) : Abides (Counts a) (execute op >>= f) :=
  abides_step (fun h => counts_of_uncounted h op ho) hf

theorem abides_ite {α : Type} {φ : History → Op → Prop} {c : Prop} [Decidable c] {p q : Call α}
    (hp : Abides φ p) (hq : Abides φ q) : Abides φ (if c then p else q) :=
  fun h => obeys_ite (fun _ => hp h) fun _ => hq h

theorem check_counts (hid : a.identifier = some identifier) {maxId maxIp : ℕ} {window : ℤ}
    (hw : window ≤ KEPT_SECS) :
    Abides (Counts a) (checkRateLimitCustom identifier ip maxId maxIp window) := by
  apply abides_step (fun _ => ⟨hid, hw⟩)
  intro x
  cases x with
  | error e => exact abides_ret _
  | ok n =>
    apply abides_ite (abides_ret _)
    apply uncounted_step rfl
    intro x
    cases x with
    | error e => exact abides_ret _
    | ok m => exact abides_ret _

theorem failure_counts (hid : a.identifier = some identifier) :
    Abides (Counts a) (recordLoginFailure identifier ip reason) := by
  apply uncounted_step rfl
  intro now
  exact abides_perform fun _ _ => hid

theorem success_counts (hid : a.identifier = some identifier ∨ IsBootstrap a) :
    Abides (Counts a) (recordLoginSuccess identifier ip) := by
  have clears (h : History) : Counts a h (.clearLoginAttempts identifier) := hid
  apply uncounted_step rfl
  intro now
  apply abides_step (fun _ hs => by cases hs)
  intro x
  cases x with
  | error e => exact abides_ret _
  | ok u =>
    apply abides_step clears
    intro x
    cases x with
    | error e => exact abides_ret _
    | ok u =>
      intro h
      apply obeys_step trivial
      intro now
      exact obeys_step ⟨now, .head _, rfl⟩ fun _ => trivial

theorem mail_counts (hid : a.identifier = some identifier) :
    Abides (Counts a) (limitMail r identifier reason) := by
  apply abides_bind (check_counts hid (by decide))
  intro granted
  apply abides_ite (abides_ret _)
  exact abides_bind (failure_counts hid) fun _ => abides_ret _

theorem refused_counts {email : String} (hid : a.identifier = some email) :
    Abides (Counts a) (loginRefused r email) :=
  abides_bind (failure_counts hid) fun _ => abides_ret _

theorem login_counts (form : LoginForm) : Abides (Counts (.login r form)) (login K r form) := by
  apply abides_ite (abides_ret _)
  apply abides_bind (check_counts rfl (by decide))
  intro x
  cases x with
  | error e => exact abides_ret _
  | ok granted =>
    cases granted with
    | false => exact abides_ret _
    | true =>
      apply uncounted_step rfl
      intro x
      cases x with
      | error e => exact abides_ret _
      | ok found =>
        dsimp only
        cases found.filter fun u => u.enabled with
        | none => exact uncounted_step rfl fun _ => refused_counts rfl
        | some user =>
          apply uncounted_step rfl
          intro valid
          apply abides_ite (refused_counts rfl)
          apply abides_ite
          · exact abides_bind (failure_counts rfl) fun _ => abides_ret _
          · apply uncounted_step rfl
            intro m
            apply uncounted_step rfl
            intro createdAt
            apply uncounted_step rfl
            intro base
            apply uncounted_step rfl
            intro x
            cases x with
            | error e => exact abides_ret _
            | ok u =>
              apply uncounted_step rfl
              intro now
              apply uncounted_step rfl
              intro x
              apply abides_bind (success_counts (.inl rfl))
              intro x
              exact uncounted_step rfl fun _ => abides_ret _

theorem resendVerification_counts (form : EmailForm) :
    Abides (Counts (.resendVerification r form)) (resendVerification r form) := by
  apply abides_ite (abides_ret _)
  apply abides_bind (mail_counts rfl)
  intro granted
  apply abides_ite (abides_ret _)
  apply abides_bind
  · apply uncounted_step rfl
    intro x
    cases x with
    | error e => exact abides_ret _
    | ok found =>
      cases found with
      | none => exact abides_ret _
      | some user =>
        apply abides_ite (abides_ret _)
        apply uncounted_step rfl
        intro m
        exact uncounted_step rfl fun _ => abides_ret _
  · exact fun _ => abides_ret _

theorem forgotPassword_counts (form : EmailForm) :
    Abides (Counts (.forgotPassword r form)) (forgotPassword K r form) := by
  apply abides_ite (abides_ret _)
  apply abides_bind (mail_counts rfl)
  intro granted
  apply abides_ite (abides_ret _)
  apply abides_bind
  · apply uncounted_step rfl
    intro x
    cases x with
    | error e => exact abides_ret _
    | ok found =>
      cases found with
      | none => exact abides_ret _
      | some user =>
        apply uncounted_step rfl
        intro m
        apply uncounted_step rfl
        intro createdAt
        apply uncounted_step rfl
        intro base
        exact uncounted_step rfl fun _ => abides_ret _
  · exact fun _ => abides_ret _

theorem resetToken_counts {token : String} (hid : a.identifier = some identifier) :
    Abides (Counts a) (usableResetToken K r identifier token) := by
  apply uncounted_step rfl
  intro x
  cases x with
  | error e => exact abides_ret _
  | ok found =>
    cases found with
    | none => exact abides_bind (failure_counts hid) fun _ => abides_ret _
    | some t =>
      apply abides_ite
      · exact abides_bind (failure_counts hid) fun _ => abides_ret _
      · apply uncounted_step rfl
        intro now
        apply abides_ite
        · exact abides_bind (failure_counts hid) fun _ => abides_ret _
        · exact abides_ret _

theorem resetPassword_counts (form : ResetPasswordForm) :
    Abides (Counts (.resetPassword r form)) (resetPassword K r form) := by
  apply abides_ite (abides_ret _)
  apply abides_bind (check_counts rfl (by decide))
  intro granted
  apply abides_ite (abides_ret _)
  apply abides_ite (abides_ret _)
  apply abides_ite (abides_ret _)
  apply abides_bind (resetToken_counts rfl)
  intro x
  cases x with
  | error response => exact abides_ret _
  | ok t =>
    apply uncounted_step rfl
    intro hashed
    cases hashed with
    | none => exact abides_ret _
    | some hash =>
      apply uncounted_step rfl
      intro x
      cases x with
      | error e => exact abides_ret _
      | ok u =>
        apply uncounted_step rfl
        intro now
        apply uncounted_step rfl
        intro x
        apply uncounted_step rfl
        intro x
        exact abides_bind (success_counts (.inl rfl)) fun _ => abides_ret _

theorem bootstrapToken_counts {otpFull : String} (hid : a.identifier = some ("bootstrap:" ++ r.ip)) :
    Abides (Counts a) (matchBootstrapToken K r otpFull) := by
  unfold matchBootstrapToken
  refine abides_ite ?_ ?_
  · exact abides_bind (failure_counts hid) fun _ => abides_ret _
  · apply uncounted_step rfl
    intro x
    cases x with
    | error e => exact abides_ret _
    | ok tokens =>
      apply uncounted_step rfl
      intro now
      apply abides_ite
      · exact abides_bind (failure_counts hid) fun _ => abides_ret _
      · exact abides_ret _

theorem founds_uncounted (op : Op) (ho : op.founds = true) : op.uncounted = true := by
  cases op <;> first | rfl | cases ho

theorem bootstrap_counts (form : BootstrapForm) :
    Abides (Counts (.bootstrap r form)) (bootstrap K r form) := by
  refine abides_ite (abides_ret _) ?_
  refine uncounted_step rfl ?_
  intro x
  cases x with
  | error e => exact abides_ret _
  | ok count =>
    refine abides_ite (abides_ret _) ?_
    apply abides_bind (check_counts rfl (by decide))
    intro x
    cases x with
    | error e => exact abides_ret _
    | ok granted =>
      cases granted with
      | false => exact abides_ret _
      | true =>
        dsimp only
        refine abides_bind (bootstrapToken_counts rfl) ?_
        intro x
        cases x with
        | error response => exact abides_ret _
        | ok token =>
          refine abides_ite (abides_ret _) (abides_ite (abides_ret _) ?_)
          refine uncounted_step rfl ?_
          intro hashed
          cases hashed with
          | none => exact abides_ret _
          | some hash =>
            refine uncounted_step rfl ?_
            intro m
            refine uncounted_step rfl ?_
            intro now
            refine abides_bind (abides_of_uses uses_createAdmin fun h op ho =>
              counts_of_uncounted h op (founds_uncounted op ho)) ?_
            intro x
            cases x with
            | error e => exact abides_ret _
            | ok token => exact abides_bind (success_counts (.inr trivial)) fun _ => abides_ret _

theorem counts_disciplined : (dashboard K).Disciplined (fun _ a => Counts a) fun _ _ _ _ => True := by
  intro p a
  cases a with
  | login r form => exact login_counts form []
  | resendVerification r form => exact resendVerification_counts form []
  | forgotPassword r form => exact forgotPassword_counts form []
  | resetPassword r form => exact resetPassword_counts form []
  | bootstrap r form => exact bootstrap_counts form []
  | _ =>
    refine program_obeys fun h op ho => counts_of_uncounted h op ?_
    cases op <;> first | rfl | cases ho

end Conduct

/-- What a call makes of the rows. -/
def attemptsAfter (rows : List LoginAttempt) : Entry Op Op.Resp → List LoginAttempt
  | ⟨.recordLoginAttempt a, .ok ()⟩ => rows ++ [a]
  | ⟨.clearLoginAttempts x, .ok ()⟩ => rows.filter fun a => a.identifier ≠ x
  | ⟨.deleteOldLoginAttempts cutoff, .ok ()⟩ => rows.filter fun a => cutoff ≤ a.attemptedAt
  | _ => rows

section Rows

variable {K : Site} {ch : Choice} {op : Op} {r : op.Resp} {w w' : World}

theorem exec_attempts (h : exec K ch op w = some (r, w')) :
    w'.loginAttempts = attemptsAfter w.loginAttempts ⟨op, r⟩ := by
  cases hop : op.onAttempts with
  | false =>
    rw [(exec_frame h).loginAttempts hop]
    cases op <;> first | rfl | cases hop
  | true =>
    cases op with
    | recordLoginAttempt a =>
      rcases attempt_cases (Option.some.inj h) with ⟨e, -, rfl, rfl⟩ | ⟨-, he⟩
      · rfl
      · cases he
        rfl
    | clearLoginAttempts x =>
      rcases attempt_cases (Option.some.inj h) with ⟨e, -, rfl, rfl⟩ | ⟨-, he⟩
      · rfl
      · cases he
        rfl
    | deleteOldLoginAttempts cutoff =>
      rcases attempt_cases (Option.some.inj h) with ⟨e, -, rfl, rfl⟩ | ⟨-, he⟩
      · rfl
      · cases he
        rfl
    | _ => cases hop

end Rows

end FleetOrchestrator.Accounts
