import FleetOrchestrator.Accounts.Limits
import FleetOrchestrator.Interleaving.Surroundings
import FleetOrchestrator.Tables.Window

/-! How many of the requests for mail pass their limit in an hour. -/

namespace FleetOrchestrator.Accounts

open Api Core Tables Store Enrolment Interleaving

/-- The seconds that go by before an operation, and what decides it in a store that answers. -/
structure Moment where
  secs : ℕ
  choice : Choice
  answered : choice.fault = none

def World.later (w : World) (secs : ℕ) : World := { w with now := w.now + secs }

def execAt (K : Site) (m : Moment) (op : Op) (w : World) : Option (op.Resp × World) :=
  exec K m.choice op (w.later m.secs)

def onPg (K : Site) : Site := { K with backend := .pg }

def onMem (K : Site) : Site := { K with backend := .mem }

inductive MailEndpoint where
  | forgotPassword
  | resendVerification
  deriving DecidableEq

def MailEndpoint.identifier (email : String) : MailEndpoint → String
  | .forgotPassword => "forgot:" ++ email
  | .resendVerification => "resend:" ++ email

def MailEndpoint.reason : MailEndpoint → String
  | .forgotPassword => "forgot_password"
  | .resendVerification => "resend_verification"

/-- The page that tells that a mail is under way. -/
def MailEndpoint.page : MailEndpoint → Response
  | .forgotPassword => infoPage "success"
      ("If the email exists in our system, a reset link has been sent. " ++
        "Please check your inbox.")
  | .resendVerification => infoPage "success"
      "If the email exists and is unverified, a verification link has been sent."

structure Mailing where
  endpoint : MailEndpoint
  request : Request
  form : EmailForm
  moments : ℕ → Moment

namespace Mailing

variable (K : Site) (m : Mailing) (w : World)

def activity : Activity :=
  match m.endpoint with
  | .forgotPassword => .forgotPassword m.request m.form
  | .resendVerification => .resendVerification m.request m.form

def identifier : String := m.endpoint.identifier m.form.email

def row (t : ℤ) : LoginAttempt :=
  { identifier := m.identifier, ipAddress := some m.request.ip, success := false,
    failureReason := some m.endpoint.reason, attemptedAt := t }

def sent : Response := m.endpoint.page

def offer : Call Unit :=
  match m.endpoint with
  | .forgotPassword => offerReset K m.form.email
  | .resendVerification => offerVerification m.form.email

end Mailing

/-- One request after the other, each to its end. -/
def serve (K : Site) (w : World) (m : Mailing) : Option (Response × World) :=
  ((program K m.activity).meanwhile (execAt K) m.moments w).map fun x => (x.1, x.2.2)

def serveAll (K : Site) (w : World) : List Mailing → Option (List Response × World)
  | [] => some ([], w)
  | m :: ms => (serve K w m).bind fun x =>
    (serveAll K x.2 ms).map fun y => (x.1 :: y.1, y.2)

section Evaluation

variable {K : Site} {w : World} {m : Mailing}

theorem program_mail : program K m.activity =
    if !csrfValid m.request.csrfCookie m.form.csrfToken then return tokenExpiredPage
    else do
      let allowed ← limitMail m.request m.identifier m.endpoint.reason
      if !allowed then return tooManyRequests
      else
        m.offer K
        return m.sent := by
  obtain ⟨endpoint, request, form, moments⟩ := m
  cases endpoint <;> rfl

/-- What a backend counts for a client. -/
def ipFailures (K : Site) (w : World) (ip : String) : ℕ :=
  byBackend (MemStore.countRecentIpFailures w ip EMAIL_SEND_WINDOW_SECS)
    (PgStore.countRecentIpFailures w ip EMAIL_SEND_WINDOW_SECS) K.backend

theorem answer_at (x : Moment) {α : Type} (a : α) : answer x.choice w a = (.ok a, w) := by
  rw [answer, attempt, x.answered]

theorem change_at (x : Moment) (w' : World) : change x.choice w w' = (.ok (), w') := by
  rw [change, attempt, x.answered]

theorem execAt_count (x : Moment) (identifier : String) (window : ℤ) :
    execAt K x (.countRecentFailedAttempts identifier window) w =
      some (.ok ((w.later x.secs).countRecentFailedAttempts identifier window),
        w.later x.secs) :=
  congrArg some (answer_at x _)

theorem execAt_ip (x : Moment) (ip : String) :
    execAt K x (.countRecentIpFailures ip EMAIL_SEND_WINDOW_SECS) w =
      some (.ok (ipFailures K (w.later x.secs) ip), w.later x.secs) :=
  congrArg some (answer_at x _)

theorem execAt_clock (x : Moment) :
    execAt K x .readClock w = some ((w.later x.secs).now, w.later x.secs) := rfl

theorem execAt_record (x : Moment) (a : LoginAttempt) :
    execAt K x (.recordLoginAttempt a) w =
      some (.ok (), { w.later x.secs with loginAttempts := w.loginAttempts ++ [a] }) :=
  congrArg some (change_at x _)

end Evaluation

namespace Mailing

variable (m : Mailing) (w : World)

def checked : World := w.later (m.moments 0).secs

def looked : World := (m.checked w).later (m.moments 1).secs

def stamped : World := (m.looked w).later (m.moments 2).secs

def noted : World :=
  { (m.stamped w).later (m.moments 3).secs with
    loginAttempts := w.loginAttempts ++ [m.row (m.stamped w).now] }

/-- What the address has used up of its limit is less than all of it. -/
def AddressFree : Prop :=
  (m.checked w).countRecentFailedAttempts m.identifier EMAIL_SEND_WINDOW_SECS <
    MAX_EMAIL_SEND_ATTEMPTS

instance : Decidable (m.AddressFree w) := inferInstanceAs (Decidable (_ < _))

def IpFree (K : Site) : Prop := ipFailures K (m.looked w) m.request.ip < MAX_IP_EMAIL_SEND_ATTEMPTS

/-- The page of a request that does not pass; only time has gone by. -/
def refusal : Response × World :=
  if csrfValid m.request.csrfCookie m.form.csrfToken then
    (tooManyRequests, if m.AddressFree w then m.looked w else m.checked w)
  else (tokenExpiredPage, w)

def Admitted (K : Site) : Prop :=
  csrfValid m.request.csrfCookie m.form.csrfToken = true ∧ m.AddressFree w ∧ m.IpFree w K

instance (K : Site) : Decidable (m.IpFree w K) := inferInstanceAs (Decidable (_ < _))
instance (K : Site) : Decidable (m.Admitted w K) := inferInstanceAs (Decidable (_ ∧ _))

end Mailing

section Serving

variable {K : Site} {w w' : World} {m : Mailing} {a : Response}

theorem check_eval :
    (checkRateLimitCustom m.identifier m.request.ip MAX_EMAIL_SEND_ATTEMPTS
        MAX_IP_EMAIL_SEND_ATTEMPTS EMAIL_SEND_WINDOW_SECS).meanwhile (execAt K) m.moments w =
      if m.AddressFree w then
        some (.ok (decide (m.IpFree w K)), (fun n => m.moments (n + 2)), m.looked w)
      else some (.ok false, (fun n => m.moments (n + 1)), m.checked w) := by
  rw [checkRateLimitCustom, execute, meanwhile_step, execAt_count, Option.bind_some]
  by_cases hid : m.AddressFree w
  · have hcount : ¬ (w.later (m.moments 0).secs).countRecentFailedAttempts m.identifier
        EMAIL_SEND_WINDOW_SECS ≥ MAX_EMAIL_SEND_ATTEMPTS := Nat.not_le.mpr hid
    rw [if_pos hid]
    dsimp only
    rw [if_neg hcount, execute, meanwhile_step, execAt_ip, Option.bind_some]
    have hlook : (!decide (ipFailures K (m.looked w) m.request.ip ≥ MAX_IP_EMAIL_SEND_ATTEMPTS)) =
        decide (m.IpFree w K) := by
      rw [← decide_not, decide_eq_decide]
      exact Nat.not_le
    rw [← hlook]
    rfl
  · have hcount : (w.later (m.moments 0).secs).countRecentFailedAttempts m.identifier
        EMAIL_SEND_WINDOW_SECS ≥ MAX_EMAIL_SEND_ATTEMPTS := Nat.not_lt.mp hid
    rw [if_neg hid]
    dsimp only
    rw [if_pos hcount]
    rfl

theorem record_eval :
    (recordLoginFailure m.identifier m.request.ip m.endpoint.reason).meanwhile (execAt K)
        (fun n => m.moments (n + 2)) (m.looked w) =
      some (.ok (), (fun n => m.moments (n + 4)), m.noted w) := by
  rw [recordLoginFailure, execute, meanwhile_step, execAt_clock, Option.bind_some]
  rw [execute, meanwhile_perform, execAt_record]
  rfl

theorem limitMail_eval :
    (limitMail m.request m.identifier m.endpoint.reason).meanwhile (execAt K) m.moments w =
      if m.AddressFree w then
        if m.IpFree w K then some (true, (fun n => m.moments (n + 4)), m.noted w)
        else some (false, (fun n => m.moments (n + 2)), m.looked w)
      else some (false, (fun n => m.moments (n + 1)), m.checked w) := by
  rw [limitMail, meanwhile_bind, check_eval]
  by_cases hid : m.AddressFree w
  · rw [if_pos hid, if_pos hid, Option.bind_some]
    by_cases hip : m.IpFree w K
    · rw [if_pos hip, decide_eq_true hip]
      simp only [limitHolds, Bool.not_true, Bool.false_eq_true, if_false]
      rw [meanwhile_bind, record_eval]
      rfl
    · rw [if_neg hip, decide_eq_false hip]
      rfl
  · rw [if_neg hid, if_neg hid]
    rfl

/-- What is done for the address leaves the counters alone. -/
theorem offer_uses : Uses (fun op => (op.verifies || op.offers) = true) (m.offer K) := by
  obtain ⟨endpoint, request, form, moments⟩ := m
  cases endpoint with
  | forgotPassword =>
    refine uses_step rfl ?_
    intro a
    cases a with
    | error e => exact uses_ret _
    | ok found =>
      cases found with
      | none => exact uses_ret _
      | some user =>
        refine uses_step rfl ?_
        intro x
        refine uses_step rfl ?_
        intro createdAt
        refine uses_step rfl ?_
        intro base
        exact uses_bind (uses_perform rfl) fun _ => uses_ret _
  | resendVerification =>
    refine uses_step rfl ?_
    intro a
    cases a with
    | error e => exact uses_ret _
    | ok found =>
      cases found with
      | none => exact uses_ret _
      | some user =>
        apply uses_ite (uses_ret _)
        refine uses_step rfl ?_
        intro x
        exact uses_bind (uses_perform rfl) fun _ => uses_ret _

/-- The answers that the two backends give alike. -/
def SameAnswer (op : Op) (r r' : op.Resp) : Prop :=
  op.onResetTokens = false → r = r'

theorem offer_blind : Blind SameAnswer (m.offer K) := by
  obtain ⟨endpoint, request, form, moments⟩ := m
  have hsame {op : Op} {k : op.Resp → Call Unit} (hop : op.onResetTokens = false)
      (r r' : op.Resp) (hr : SameAnswer op r r') : k r = k r' := congrArg k (hr hop)
  cases endpoint with
  | forgotPassword =>
    apply blind_step (hsame rfl)
    intro a
    cases a with
    | error e => exact blind_ret _
    | ok found =>
      cases found with
      | none => exact blind_ret _
      | some user =>
        apply blind_step (hsame rfl)
        intro x
        apply blind_step (hsame rfl)
        intro createdAt
        apply blind_step (hsame rfl)
        intro base
        exact blind_step (fun r r' _ => rfl) fun _ => blind_ret _
  | resendVerification =>
    apply blind_step (hsame rfl)
    intro a
    cases a with
    | error e => exact blind_ret _
    | ok found =>
      cases found with
      | none => exact blind_ret _
      | some user =>
        dsimp only
        split
        · exact blind_ret _
        · apply blind_step (hsame rfl)
          intro x
          exact blind_step (hsame rfl) fun _ => blind_ret _

/-- The same but for the reset tokens, whose table the two backends keep each in its own way. -/
def SameButTokens (w v : World) : Prop := v = { w with resetTokens := v.resetTokens }

theorem offered_alike {x : Moment} {op : Op} {v : World} {r : op.Resp × World}
    (hop : (op.verifies || op.offers) = true) (hw : SameButTokens w v)
    (h : execAt (onPg K) x op w = some r) :
    ∃ r', execAt (onMem K) x op v = some r' ∧ SameAnswer op r.1 r'.1 ∧
      SameButTokens r.2 r'.2 := by
  obtain ⟨tokens, rfl⟩ : ∃ tokens, v = { w with resetTokens := tokens } := ⟨_, hw⟩
  cases op with
  | getUserByEmail email =>
    obtain rfl := Option.some.inj h
    rw [answer_at]
    exact ⟨_, congrArg some (answer_at x _), fun _ => rfl, rfl⟩
  | readClock =>
    obtain rfl := Option.some.inj h
    exact ⟨_, rfl, fun _ => rfl, rfl⟩
  | mint =>
    simp only [execAt, exec] at h ⊢
    split at h
    · cases h
    · rename_i hnew
      obtain rfl := Option.some.inj h
      exact ⟨_, if_neg hnew, fun _ => rfl, rfl⟩
  | createEmailVerificationToken id =>
    obtain rfl := Option.some.inj h
    rw [change_at]
    exact ⟨_, congrArg some (change_at x _), fun _ => rfl, rfl⟩
  | createPasswordResetToken t =>
    obtain rfl := Option.some.inj h
    refine ⟨_, rfl, Bool.noConfusion, ?_⟩
    simp only [attempt, x.answered, onPg, onMem, byBackend, PgStore.createPasswordResetToken]
    split
    · rfl
    · split
      · rfl
      · split <;> rfl
  | _ => cases hop

theorem serve_admitted (h : m.Admitted w K) :
    serve K w m = ((m.offer K).meanwhile (execAt K) (fun n => m.moments (n + 4)) (m.noted w)).map
      fun x => (m.sent, x.2.2) := by
  obtain ⟨hcsrf, hid, hip⟩ := h
  rw [serve, program_mail, hcsrf]
  simp only [Bool.not_true, Bool.false_eq_true, if_false]
  rw [meanwhile_bind, limitMail_eval, if_pos hid, if_pos hip, Option.bind_some]
  simp only [Bool.not_true, Bool.false_eq_true, if_false]
  rw [meanwhile_bind]
  cases (m.offer K).meanwhile (execAt K) (fun n => m.moments (n + 4)) (m.noted w) <;> rfl

theorem serve_refused (h : ¬ m.Admitted w K) : serve K w m = some (m.refusal w) := by
  rw [serve, program_mail, Mailing.refusal]
  by_cases hcsrf : csrfValid m.request.csrfCookie m.form.csrfToken = true
  · rw [if_pos hcsrf, hcsrf]
    simp only [Bool.not_true, Bool.false_eq_true, if_false]
    rw [meanwhile_bind, limitMail_eval]
    by_cases hid : m.AddressFree w
    · have hip : ¬ m.IpFree w K := fun hip => h ⟨hcsrf, hid, hip⟩
      rw [if_pos hid, if_neg hip, if_pos hid]
      rfl
    · rw [if_neg hid, if_neg hid]
      rfl
  · rw [if_neg hcsrf, Bool.eq_false_iff.mpr hcsrf]
    rfl

theorem execAt_attempts {x : Moment} {op : Op} {r : op.Resp × World}
    (hop : (op.verifies || op.offers) = true) (h : execAt K x op w = some r) :
    r.2.loginAttempts = w.loginAttempts := by
  have hframe : Frame op (w.later x.secs) r.2 := exec_frame h
  apply hframe.loginAttempts
  cases op <;> first | rfl | cases hop

/-- A request that passes is written down once, while it is served. -/
theorem served_admitted (hm : m.Admitted w K) (h : serve K w m = some (a, w')) :
    a = m.sent ∧ ∃ t, (m.looked w).now ≤ t ∧ w'.loginAttempts = w.loginAttempts ++ [m.row t] := by
  rw [serve_admitted hm] at h
  obtain ⟨x, hx, he⟩ := Option.map_eq_some_iff.mp h
  cases he
  have hkept : x.2.2.loginAttempts = (m.noted w).loginAttempts := by
    apply meanwhile_along (R := fun s t : World => t.loginAttempts = s.loginAttempts) _ _ _
      offer_uses hx
    · intro s
      rfl
    · intro s t u hst htu
      exact htu.trans hst
    · intro e op s r hop hr
      exact execAt_attempts hop hr
  refine ⟨rfl, (m.stamped w).now, ?_, hkept⟩
  exact Int.le_add_of_nonneg_right (Int.natCast_nonneg _)

theorem served_refused (hm : ¬ m.Admitted w K) (h : serve K w m = some (a, w')) :
    (a = tokenExpiredPage ∨ a = tooManyRequests) ∧ w'.loginAttempts = w.loginAttempts := by
  rw [serve_refused hm, Mailing.refusal] at h
  split at h
  · cases h
    refine ⟨.inr rfl, ?_⟩
    split <;> rfl
  · cases h
    exact ⟨.inl rfl, rfl⟩

end Serving

/-- The request passes although the client has used up its limit, with requests for mail, which the
database does not count. -/
def Overlooked (w : World) (m : Mailing) : Prop :=
  csrfValid m.request.csrfCookie m.form.csrfToken = true ∧ m.AddressFree w ∧
    PgStore.countRecentIpFailures (m.looked w) m.request.ip EMAIL_SEND_WINDOW_SECS <
      MAX_IP_EMAIL_SEND_ATTEMPTS ∧
    MAX_IP_EMAIL_SEND_ATTEMPTS ≤
      MemStore.countRecentIpFailures (m.looked w) m.request.ip EMAIL_SEND_WINDOW_SECS

/-- Every request of the run meets the condition, in the state that it finds. -/
def Along (K : Site) (C : World → Mailing → Prop) : World → List Mailing → Prop
  | _, [] => True
  | w, m :: ms => C w m ∧ ∀ a w', serve K w m = some (a, w') → Along K C w' ms

/-- What a run has added to the table, a row for each request that has passed. -/
def recorded (w w' : World) : List LoginAttempt := w'.loginAttempts.drop w.loginAttempts.length

def letThrough (ms : List Mailing) (replies : List Response) : List (String × Option String) :=
  (ms.zip replies).filterMap fun x =>
    if x.2 = x.1.sent then some (x.1.identifier, some x.1.request.ip) else none

def MailEndpoint.counts (endpoint : MailEndpoint) (email : String) (a : LoginAttempt) : Bool :=
  a.identifier = endpoint.identifier email

def fromClient (ip : String) (a : LoginAttempt) : Bool := a.ipAddress = some ip

structure MailLimits (rows : List LoginAttempt) : Prop where
  address : ∀ (endpoint : MailEndpoint) email, Sparse EMAIL_SEND_WINDOW_SECS
    MAX_EMAIL_SEND_ATTEMPTS (endpoint.counts email) LoginAttempt.attemptedAt rows
  client : ∀ ip, Sparse EMAIL_SEND_WINDOW_SECS MAX_IP_EMAIL_SEND_ATTEMPTS (fromClient ip)
    LoginAttempt.attemptedAt rows

section Runs

variable {K : Site} {w w' v : World} {m : Mailing} {ms : List Mailing} {a : Response}
  {replies : List Response}

theorem serveAll_cons : serveAll K w (m :: ms) = some (replies, w') ↔ ∃ a w₁ as,
    serve K w m = some (a, w₁) ∧ serveAll K w₁ ms = some (as, w') ∧ replies = a :: as := by
  constructor
  · intro h
    obtain ⟨⟨a, w₁⟩, ha, h⟩ := Option.bind_eq_some_iff.mp h
    obtain ⟨⟨as, w₂⟩, has, h⟩ := Option.map_eq_some_iff.mp h
    cases h
    exact ⟨a, w₁, as, ha, has, rfl⟩
  · rintro ⟨a, w₁, as, ha, has, rfl⟩
    rw [serveAll, ha, Option.bind_some, has]
    rfl

theorem ipFree_mono (h : m.IpFree w (onMem K)) : m.IpFree w (onPg K) := by
  apply Nat.lt_of_le_of_lt _ h
  apply List.countP_mono_left
  intro a _ ha
  simp only [Bool.and_eq_true] at ha ⊢
  exact ⟨⟨ha.1.1.1, ha.1.2⟩, ha.2⟩

theorem overlooked_iff :
    Overlooked w m ↔ m.Admitted w (onPg K) ∧ ¬ m.Admitted w (onMem K) := by
  constructor
  · rintro ⟨hcsrf, hid, hpg, hmem⟩
    exact ⟨⟨hcsrf, hid, hpg⟩, fun h => Nat.not_lt.mpr hmem h.2.2⟩
  · rintro ⟨⟨hcsrf, hid, hpg⟩, hnot⟩
    exact ⟨hcsrf, hid, hpg, Nat.not_lt.mp fun hmem => hnot ⟨hcsrf, hid, hmem⟩⟩

theorem admitted_congr (hv : SameButTokens w v) : m.Admitted v K ↔ m.Admitted w K := by
  obtain ⟨tokens, rfl⟩ : ∃ tokens, v = { w with resetTokens := tokens } := ⟨_, hv⟩
  exact Iff.rfl

theorem refusal_congr (hv : SameButTokens w v) :
    (m.refusal v).1 = (m.refusal w).1 ∧ SameButTokens (m.refusal w).2 (m.refusal v).2 := by
  obtain ⟨tokens, rfl⟩ : ∃ tokens, v = { w with resetTokens := tokens } := ⟨_, hv⟩
  have hid : m.AddressFree { w with resetTokens := tokens } ↔ m.AddressFree w := Iff.rfl
  unfold Mailing.refusal
  by_cases hcsrf : csrfValid m.request.csrfCookie m.form.csrfToken = true
  · rw [if_pos hcsrf, if_pos hcsrf]
    refine ⟨rfl, ?_⟩
    by_cases hfree : m.AddressFree w
    · rw [if_pos hfree, if_pos (hid.mpr hfree)]
      rfl
    · rw [if_neg hfree, if_neg fun h => hfree (hid.mp h)]
      rfl
  · rw [if_neg hcsrf, if_neg hcsrf]
    exact ⟨rfl, rfl⟩

/-- Where the database overlooks nothing, the memory store serves the request in the same way. -/
theorem serve_alike (hv : SameButTokens w v) (hm : ¬ Overlooked w m)
    (h : serve (onPg K) w m = some (a, w')) :
    ∃ v', serve (onMem K) v m = some (a, v') ∧ SameButTokens w' v' := by
  by_cases hpg : m.Admitted w (onPg K)
  · have hmem : m.Admitted v (onMem K) := by
      apply (admitted_congr hv).mpr
      by_contra hnot
      exact hm (overlooked_iff.mpr ⟨hpg, hnot⟩)
    rw [serve_admitted hpg] at h
    obtain ⟨x, hx, he⟩ := Option.map_eq_some_iff.mp h
    cases he
    have hnoted : SameButTokens (m.noted w) (m.noted v) := by
      obtain ⟨tokens, rfl⟩ : ∃ tokens, v = { w with resetTokens := tokens } := ⟨_, hv⟩
      rfl
    have halike (x : Moment) (op : Op) (s t : World) (r : op.Resp × World)
        (hop : (op.verifies || op.offers) = true) (hst : SameButTokens s t)
        (hr : execAt (onPg K) x op s = some r) := offered_alike hop hst hr
    obtain ⟨v', hv', hsame⟩ := meanwhile_blind halike offer_uses offer_blind hnoted hx
    refine ⟨v', ?_, hsame⟩
    rw [serve_admitted hmem]
    exact congrArg (Option.map _) hv'
  · have hmem : ¬ m.Admitted v (onMem K) := by
      intro h
      obtain ⟨hcsrf, hid, hip⟩ := (admitted_congr hv).mp h
      exact hpg ⟨hcsrf, hid, ipFree_mono hip⟩
    rw [serve_refused hpg] at h
    obtain ⟨hreply, hsame⟩ := refusal_congr (m := m) hv
    have hrefusal := Option.some.inj h
    rw [hrefusal] at hreply hsame
    refine ⟨(m.refusal v).2, ?_, hsame⟩
    rw [serve_refused hmem]
    exact congrArg some (Prod.ext hreply rfl)

theorem page_ne (e : MailEndpoint) : e.page ≠ tokenExpiredPage ∧ e.page ≠ tooManyRequests := by
  cases e <;> decide

/-- A request that the database overlooks is told apart by its page. -/
theorem serve_overlooked (hv : SameButTokens w v) (hm : Overlooked w m)
    (h : serve (onPg K) w m = some (a, w')) (v' : World) : serve (onMem K) v m ≠ some (a, v') := by
  intro h'
  obtain ⟨hpg, hmem⟩ := overlooked_iff.mp hm
  have hne := page_ne m.endpoint
  rw [← Mailing.sent, ← (served_admitted hpg h).1] at hne
  rcases (served_refused (fun hv' => hmem ((admitted_congr hv).mp hv')) h').1 with he | he
  · exact hne.1 he
  · exact hne.2 he

theorem same_replies_iff (hv : SameButTokens w v) (h : serveAll (onPg K) w ms = some (replies, w')) :
    (serveAll (onMem K) v ms).map Prod.fst = some replies ↔
      Along (onPg K) (fun w m => ¬ Overlooked w m) w ms := by
  induction ms generalizing w v replies with
  | nil =>
    cases h
    exact iff_of_true rfl trivial
  | cons m ms ih =>
    obtain ⟨a, w₁, as, ha, has, rfl⟩ := serveAll_cons.mp h
    by_cases hm : Overlooked w m
    · refine iff_of_false ?_ fun hc => hc.1 hm
      intro hsame
      obtain ⟨⟨bs, v'⟩, hbs, he⟩ := Option.map_eq_some_iff.mp hsame
      obtain ⟨b, v₁, bs', hb, hrest, rfl⟩ := serveAll_cons.mp hbs
      cases he
      exact serve_overlooked hv hm ha v₁ hb
    · obtain ⟨v₁, hb, hv₁⟩ := serve_alike hv hm ha
      have hrest := ih hv₁ has
      constructor
      · intro hsame
        obtain ⟨⟨bs, v'⟩, hbs, he⟩ := Option.map_eq_some_iff.mp hsame
        obtain ⟨b, v₂, bs', hb', hbs', rfl⟩ := serveAll_cons.mp hbs
        cases he
        cases hb.symm.trans hb'
        refine ⟨hm, ?_⟩
        intro a' w₂ ha'
        cases ha.symm.trans ha'
        exact hrest.mp (congrArg (Option.map Prod.fst) hbs')
      · intro hc
        obtain ⟨⟨bs, v'⟩, hbs, he⟩ := Option.map_eq_some_iff.mp (hrest.mpr (hc.2 a w₁ ha))
        cases he
        rw [serveAll_cons.mpr ⟨a, v₁, bs, hb, hbs, rfl⟩]
        rfl

theorem along_always : Along K (fun _ _ => True) w ms := by
  induction ms generalizing w with
  | nil => trivial
  | cons m ms ih => exact ⟨trivial, fun a w' _ => ih⟩

/-- The rows that a run adds are those of the requests that got the page of their endpoint. -/
theorem serveAll_rows (h : serveAll K w ms = some (replies, w')) :
    ∃ rows, w'.loginAttempts = w.loginAttempts ++ rows ∧
      rows.map (fun a => (a.identifier, a.ipAddress)) = letThrough ms replies := by
  induction ms generalizing w replies with
  | nil =>
    cases h
    exact ⟨[], (List.append_nil _).symm, rfl⟩
  | cons m ms ih =>
    obtain ⟨a, w₁, as, ha, has, rfl⟩ := serveAll_cons.mp h
    obtain ⟨rows, hrows, hmap⟩ := ih has
    by_cases hm : m.Admitted w K
    · obtain ⟨rfl, t, -, ht⟩ := served_admitted hm ha
      refine ⟨m.row t :: rows, by rw [hrows, ht, List.append_assoc, List.singleton_append], ?_⟩
      rw [List.map_cons, hmap]
      simp [letThrough, Mailing.row]
    · obtain ⟨hpage, ht⟩ := served_refused hm ha
      have hne : a ≠ m.sent := by
        rintro rfl
        rcases hpage with he | he
        · exact (page_ne m.endpoint).1 he
        · exact (page_ne m.endpoint).2 he
      refine ⟨rows, by rw [hrows, ht], ?_⟩
      rw [hmap]
      simp [letThrough, hne]

/-- Whatever is counted before each request that adds to it stays sparse. -/
theorem serveAll_sparse (p : LoginAttempt → Bool) {n : ℕ} {C : World → Mailing → Prop}
    (hstep : ∀ w m t, C w m → m.Admitted w K → (m.looked w).now ≤ t → p (m.row t) = true →
      w.loginAttempts.countP (fun a => p a && !a.success && t - EMAIL_SEND_WINDOW_SECS ≤ a.attemptedAt)
        < n)
    (hc : Along K C w ms) (h : serveAll K w ms = some (replies, w'))
    {old rows : List LoginAttempt} (hw : w.loginAttempts = old ++ rows)
    (hfailed : ∀ a ∈ rows, a.success = false)
    (hs : Sparse EMAIL_SEND_WINDOW_SECS n p LoginAttempt.attemptedAt rows) :
    ∃ rows', w'.loginAttempts = old ++ rows' ∧
      Sparse EMAIL_SEND_WINDOW_SECS n p LoginAttempt.attemptedAt rows' := by
  induction ms generalizing w rows replies with
  | nil =>
    cases h
    exact ⟨rows, hw, hs⟩
  | cons m ms ih =>
    obtain ⟨a, w₁, as, ha, has, rfl⟩ := serveAll_cons.mp h
    have hrest := hc.2 a w₁ ha
    by_cases hm : m.Admitted w K
    · obtain ⟨-, t, hle, ht⟩ := served_admitted hm ha
      have hrows : w₁.loginAttempts = old ++ (rows ++ [m.row t]) := by
        rw [ht, hw, List.append_assoc]
      apply ih hrest has hrows
      · intro a' ha'
        rcases List.mem_append.mp ha' with hin | hin
        · exact hfailed a' hin
        · rw [List.mem_singleton.mp hin]
          rfl
      · apply sparse_push hs
        intro hp
        refine Nat.lt_of_le_of_lt ?_ (hstep w m t hc.1 hm hle hp)
        rw [hw, List.countP_append]
        refine Nat.le_trans (List.countP_mono_left ?_) (Nat.le_add_left _ _)
        intro b hb hcounted
        rw [Bool.and_eq_true] at hcounted ⊢
        rw [hfailed b hb, hcounted.1]
        exact ⟨rfl, hcounted.2⟩
    · obtain ⟨-, ht⟩ := served_refused hm ha
      exact ih hrest has (ht.trans hw) hfailed hs

/-- A count that was low when the request looked is low by the time that is written down for it. -/
theorem counted_low {u : World} {p : LoginAttempt → Bool} {n : ℕ} {t : ℤ}
    (hu : u.loginAttempts = w.loginAttempts) (hle : u.now ≤ t)
    (h : u.countFailures EMAIL_SEND_WINDOW_SECS p < n) :
    w.loginAttempts.countP (fun a => p a && !a.success && t - EMAIL_SEND_WINDOW_SECS ≤ a.attemptedAt)
      < n := by
  rw [World.countFailures, hu] at h
  refine Nat.lt_of_le_of_lt (List.countP_mono_left ?_) h
  intro a _ ha
  simp only [Bool.and_eq_true, decide_eq_true_eq] at ha ⊢
  refine ⟨ha.1, ?_⟩
  omega

theorem address_sparse (h : serveAll K w ms = some (replies, w')) (endpoint : MailEndpoint)
    (email : String) : Sparse EMAIL_SEND_WINDOW_SECS MAX_EMAIL_SEND_ATTEMPTS
      (endpoint.counts email) LoginAttempt.attemptedAt (recorded w w') := by
  obtain ⟨rows, hrows, hsparse⟩ := serveAll_sparse (endpoint.counts email)
    (C := fun _ _ => True) (n := MAX_EMAIL_SEND_ATTEMPTS) (by
      intro w m t _ hm hle hp
      have hid : m.identifier = endpoint.identifier email := of_decide_eq_true hp
      have hfree := hm.2.1
      rw [Mailing.AddressFree, hid] at hfree
      have hearly : (m.checked w).now ≤ (m.looked w).now :=
        Int.le_add_of_nonneg_right (Int.natCast_nonneg _)
      exact counted_low (u := m.checked w) rfl (hearly.trans hle) hfree)
    along_always h (List.append_nil _).symm nofun sparse_nil
  rw [recorded, hrows, List.drop_left]
  exact hsparse

theorem client_sparse (hc : Along (onPg K) (fun w m => ¬ Overlooked w m) w ms)
    (h : serveAll (onPg K) w ms = some (replies, w')) (ip : String) :
    Sparse EMAIL_SEND_WINDOW_SECS MAX_IP_EMAIL_SEND_ATTEMPTS (fromClient ip)
      LoginAttempt.attemptedAt (recorded w w') := by
  obtain ⟨rows, hrows, hsparse⟩ := serveAll_sparse (fromClient ip)
    (n := MAX_IP_EMAIL_SEND_ATTEMPTS) (by
      intro w m t hm hpg hle hp
      have hip : m.request.ip = ip := Option.some.inj (of_decide_eq_true hp)
      have hmem : m.IpFree w (onMem K) := by
        by_contra hnot
        exact hm (overlooked_iff.mpr ⟨hpg, fun hmem => hnot hmem.2.2⟩)
      rw [Mailing.IpFree, hip] at hmem
      exact counted_low (u := m.looked w) rfl hle hmem)
    hc h (List.append_nil _).symm nofun sparse_nil
  rw [recorded, hrows, List.drop_left]
  exact hsparse

end Runs

/-- Over the database the limits hold and the answers are those over the memory store, exactly if
no request is overlooked. -/
theorem mail_limits_iff {K : Site} {w w' : World} {ms : List Mailing} {replies : List Response}
    (h : serveAll (onPg K) w ms = some (replies, w')) :
    (recorded w w').map (fun a => (a.identifier, a.ipAddress)) = letThrough ms replies ∧
      (MailLimits (recorded w w') ∧
          (serveAll (onMem K) w ms).map Prod.fst = some replies ↔
        Along (onPg K) (fun w m => ¬ Overlooked w m) w ms) := by
  have hself : SameButTokens w w := rfl
  constructor
  · obtain ⟨rows, hrows, hmap⟩ := serveAll_rows h
    rw [recorded, hrows, List.drop_left]
    exact hmap
  · constructor
    · rintro ⟨-, hsame⟩
      exact (same_replies_iff hself h).mp hsame
    · intro hc
      exact ⟨⟨address_sparse h, client_sparse hc h⟩, (same_replies_iff hself h).mpr hc⟩

section Example

def forgotten (ip email : String) : Mailing where
  endpoint := .forgotPassword
  request := from_ ip
  form := { email, csrfToken := "x" }
  moments _ := { secs := 0, choice := {}, answered := rfl }

/-- One client asks for mail to eleven addresses at once. -/
def elevenMails : List Mailing :=
  ["a", "b", "c", "d", "e", "f", "g", "h", "i", "j", "k"].map (forgotten "10.0.0.9")

theorem eleven_mails : ¬ ∀ (K : Site) (w w' : World) (ms : List Mailing) (replies : List Response),
    serveAll (onPg K) w ms = some (replies, w') → MailLimits (recorded w w') ∧
      (serveAll (onMem K) w ms).map Prod.fst = some replies := by
  intro hall
  have hrun : (serveAll (onPg plainSite) {} elevenMails).map
      (fun x => (recorded {} x.2).countP fun a =>
        fromClient "10.0.0.9" a && 0 ≤ a.attemptedAt && a.attemptedAt ≤ 0 + EMAIL_SEND_WINDOW_SECS) =
      some 11 := by decide
  obtain ⟨⟨replies, w'⟩, h, hcount⟩ := Option.map_eq_some_iff.mp hrun
  have hle := (hall plainSite {} w' elevenMails replies h).1.client "10.0.0.9" 0
  rw [hcount] at hle
  exact absurd hle (by decide)

/-- Two mails to one address. -/
theorem two_mails : ∃ replies w',
    serveAll (onPg plainSite) {} [forgotten "10.0.0.9" "a", forgotten "10.0.0.9" "a"] =
      some (replies, w') ∧ (recorded {} w').length = 2 ∧
      (MailLimits (recorded {} w') ∧ (serveAll (onMem plainSite) {}
          [forgotten "10.0.0.9" "a", forgotten "10.0.0.9" "a"]).map Prod.fst = some replies ↔
        Along (onPg plainSite) (fun w m => ¬ Overlooked w m) {}
          [forgotten "10.0.0.9" "a", forgotten "10.0.0.9" "a"]) := by
  have hrun : (serveAll (onPg plainSite) {}
      [forgotten "10.0.0.9" "a", forgotten "10.0.0.9" "a"]).map
        (fun x => (recorded {} x.2).length) = some 2 := by decide
  obtain ⟨⟨replies, w'⟩, h, hlength⟩ := Option.map_eq_some_iff.mp hrun
  exact ⟨replies, w', h, hlength, (mail_limits_iff h).2⟩

end Example

end FleetOrchestrator.Accounts
