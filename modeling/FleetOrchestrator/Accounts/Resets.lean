import FleetOrchestrator.Accounts.Rotation

/-! What a password reset takes away: its token, and the sessions of the earlier password. -/

namespace FleetOrchestrator.Accounts

open Api Core Tables Store Enrolment Interleaving Machine

def resetRead (hash : String) (t : PasswordResetToken) : Entry Op Op.Resp :=
  ⟨.getPasswordResetToken hash, .ok (some t)⟩

def passwordSet (id : UserId) (hash : String) : Entry Op Op.Resp := ⟨.updateUserPassword id hash, .ok ()⟩

/-- The request has found the token unused, and is about to set the password. -/
def Ready (h : History) (t : PasswordResetToken) : Prop :=
  ∃ password hashed now hash h₁,
    h = ⟨.hashPassword password, some hashed⟩ :: ⟨.readClock, now⟩ :: resetRead hash t :: h₁ ∧
      Grew (fun op => op.limits = true) [] h₁ ∧ t.isConsumed = false

/-- The password is set and the token consumed; the sessions come next. -/
def Spent (h : History) (t : PasswordResetToken) (a : Except StoreError Unit) : Prop :=
  ∃ hashed at_ h₁, h = ⟨.consumePasswordResetToken t.id at_, a⟩ :: ⟨.readClock, at_⟩ ::
    passwordSet t.userId hashed :: h₁ ∧ Ready h₁ t

def Completed (h : History) : Prop :=
  ∃ t a b h₁, (⟨.deleteUserSessions t.userId, b⟩ : Entry Op Op.Resp) :: h₁ <:+ h ∧ Spent h₁ t a

def IsReset : Activity → Prop
  | .resetPassword _ _ => True
  | _ => False

def ResetRules (K : Site) (a : Activity) (h : History) : Op → Prop
  | .getPasswordResetToken _ => Grew (fun op => op.limits = true) [] h
  | .updateUserPassword id _ => IsReset a ∧ ∃ t, Ready h t ∧ id = t.userId
  | .consumePasswordResetToken id at_ => ∃ t hashed h₁,
      h = ⟨.readClock, at_⟩ :: passwordSet t.userId hashed :: h₁ ∧ Ready h₁ t ∧ id = t.id
  | .deleteUserSessions id => ∃ t a, Spent h t a ∧ id = t.userId
  | .createPasswordResetToken t => ∃ user m createdAt base h₁,
      h = ⟨.readClock, base⟩ :: ⟨.readClock, createdAt⟩ :: ⟨.mint, m⟩ :: h₁ ∧
        t = newResetToken K user m createdAt base
  | _ => True

/-- A reset that has set the password, or says that it has, has gone through. -/
def ResetEnds (a : Activity) (out : Response) (h : History) : Prop :=
  IsReset a → (out = resetDone ∨ ∃ id hashed, passwordSet id hashed ∈ h) → Completed h

section Conduct

variable {K : Site} {r : Request} {h : History} {a : Activity} {t : PasswordResetToken}

theorem limits_resetRules (h : History) (op : Op) (ho : op.limits = true) : ResetRules K a h op := by
  cases op <;> trivial

theorem clears_resetRules (h : History) (op : Op) (ho : op.clears = true) : ResetRules K a h op := by
  cases op <;> trivial

def Op.setsPassword : Op → Bool
  | .updateUserPassword _ _ => true
  | _ => false

theorem no_password (hg : Grew (fun op => op.setsPassword = false) [] h) :
    ¬ ∃ id hashed, passwordSet id hashed ∈ h := by
  rintro ⟨id, hashed, he⟩
  obtain ⟨new, rfl, ha⟩ := hg
  rw [List.append_nil] at he
  have := ha _ he
  cases this

theorem limits_sets (op : Op) (ho : op.limits = true) : op.setsPassword = false := by
  cases op <;> trivial

/-- A request that fails before it holds a token says so, and has set no password. -/
def Refuses (response : Response) (h : History) : Prop :=
  response ≠ resetDone ∧ Grew (fun op => op.setsPassword = false) [] h

theorem Refuses.ends {response : Response} (hr : Refuses response h) : ResetEnds a response h := by
  intro _ ho
  rcases ho with ho | ho
  · exact absurd ho hr.1
  · exact absurd ho (no_password hr.2)

theorem infoPage_error {message : String} : infoPage "error" message ≠ resetDone := by
  simp [infoPage, resetDone]

theorem failure_obeys {identifier reason message : String}
    (hg : Grew (fun op => op.setsPassword = false) [] h) :
    Obeys (ResetRules K a) (fun x h' => match x with
      | .error response => Refuses response h'
      | .ok t => t.isConsumed = false ∧ ∃ now hash h₁,
          h' = ⟨.readClock, now⟩ :: resetRead hash t :: h₁ ∧ Grew (fun op => op.limits = true) [] h₁)
      (do
        let _ ← recordLoginFailure identifier r.ip reason
        return .error (infoPage "error" message) : Call (Except Response PasswordResetToken)) h := by
  apply obeys_bind (obeys_grew (obeys_of_uses (uses_recordLoginFailure fun _ ho => ho)
    limits_resetRules) (uses_recordLoginFailure limits_sets))
  rintro _ h' ⟨-, hg'⟩
  exact ⟨infoPage_error, hg.trans hg'⟩

theorem usableResetToken_obeys {identifier token : String}
    (hg : Grew (fun op => op.limits = true) [] h) :
    Obeys (ResetRules K a) (fun x h' => match x with
      | .error response => Refuses response h'
      | .ok t => t.isConsumed = false ∧ ∃ now hash h₁,
          h' = ⟨.readClock, now⟩ :: resetRead hash t :: h₁ ∧ Grew (fun op => op.limits = true) [] h₁)
      (usableResetToken K r identifier token) h := by
  have hg' : Grew (fun op => op.setsPassword = false) [] h := hg.mono limits_sets
  unfold usableResetToken
  apply obeys_step hg
  intro found
  cases found with
  | error e => exact ⟨by simp [serverError, infoPage_error], .cons rfl hg'⟩
  | ok found =>
    cases found with
    | none => exact failure_obeys (.cons rfl hg')
    | some t =>
      refine obeys_ite (fun _ => failure_obeys (.cons rfl hg')) fun hc => ?_
      apply obeys_step trivial
      intro now
      refine obeys_ite (fun _ => failure_obeys (.cons rfl (.cons rfl hg'))) fun _ => ?_
      exact ⟨by simpa using hc, now, _, h, rfl, hg⟩

theorem ready_no_password (hr : Ready h t) : ¬ ∃ id hashed, passwordSet id hashed ∈ h := by
  obtain ⟨password, hashed, now, hash, h₁, rfl, hg, -⟩ := hr
  exact no_password (.cons rfl (.cons rfl (.cons rfl (hg.mono limits_sets))))

theorem applyReset_obeys {identifier hashed : String} (ha : IsReset a) (hr : Ready h t) :
    Obeys (ResetRules K a) (ResetEnds a) (applyReset r identifier t hashed) h := by
  unfold applyReset
  apply obeys_step ⟨ha, t, hr, rfl⟩
  intro x
  cases x with
  | error e =>
    intro _ ho
    rcases ho with ho | ⟨id, hashed', he⟩
    · exact absurd ho infoPage_error
    · rcases List.mem_cons.mp he with he | he
      · cases he
      · exact absurd ⟨id, hashed', he⟩ (ready_no_password hr)
  | ok u =>
    apply obeys_step trivial
    intro now
    apply obeys_step ⟨t, hashed, h, rfl, hr, rfl⟩
    intro x
    have hspent : Spent (⟨.consumePasswordResetToken t.id now, x⟩ :: ⟨.readClock, now⟩ ::
        passwordSet t.userId hashed :: h) t x := ⟨hashed, now, h, rfl, hr⟩
    apply obeys_step ⟨t, x, hspent, rfl⟩
    intro y
    apply obeys_bind (obeys_of_uses (uses_recordLoginSuccess fun _ ho => ho) clears_resetRules)
    intro _ h' hg _ _
    exact ⟨t, x, y, _, hg.suffix, hspent⟩

theorem resetPassword_obeys (form : ResetPasswordForm) :
    Obeys (ResetRules K (.resetPassword r form)) (ResetEnds (.resetPassword r form))
      (resetPassword K r form) [] := by
  have refused {h : History} {response : Response} (hn : response ≠ resetDone)
      (hg : Grew (fun op => op.limits = true) [] h) :
      ResetEnds (.resetPassword r form) response h :=
    Refuses.ends ⟨hn, hg.mono limits_sets⟩
  refine obeys_ite (fun _ => refused infoPage_error (.refl [])) fun _ => ?_
  apply obeys_bind (obeys_of_uses (uses_checkRateLimitCustom fun _ ho => ho) limits_resetRules)
  intro granted h hg
  refine obeys_ite (fun _ => refused infoPage_error hg) fun _ => ?_
  refine obeys_ite (fun _ => refused infoPage_error hg) fun _ => ?_
  refine obeys_ite (fun _ => refused infoPage_error hg) fun _ => ?_
  apply obeys_bind (usableResetToken_obeys hg)
  intro x h' hx
  cases x with
  | error response => exact hx.ends
  | ok t =>
    obtain ⟨hc, now, hash, h₁, rfl, hg₁⟩ := hx
    apply obeys_step trivial
    intro hashed
    cases hashed with
    | none =>
      refine Refuses.ends ⟨infoPage_error, ?_⟩
      exact .cons rfl (.cons rfl (.cons rfl (hg₁.mono limits_sets)))
    | some hashed =>
      exact applyReset_obeys trivial ⟨form.password, hashed, now, hash, h₁, rfl, hg₁, hc⟩

theorem offerReset_obeys {email : String} :
    Obeys (ResetRules K a) (fun _ _ => True) (offerReset K email) h := by
  unfold offerReset
  apply obeys_step trivial
  intro x
  cases x with
  | error e => trivial
  | ok found =>
    cases found with
    | none => trivial
    | some user =>
      apply obeys_step trivial
      intro m
      apply obeys_step trivial
      intro createdAt
      apply obeys_step trivial
      intro base
      exact obeys_step ⟨user.id, m, createdAt, base, _, rfl, rfl⟩ fun _ => trivial

theorem forgotPassword_obeys (form : EmailForm) :
    Obeys (ResetRules K a) (fun _ _ => True) (forgotPassword K r form) [] := by
  refine obeys_ite (fun _ => trivial) fun _ => ?_
  apply obeys_bind (obeys_of_uses (uses_limitMail fun _ ho => ho) limits_resetRules)
  intro granted h _
  refine obeys_ite (fun _ => trivial) fun _ => ?_
  exact obeys_bind offerReset_obeys fun _ _ _ => trivial

theorem resets_disciplined : (dashboard K).Disciplined (fun _ a => ResetRules K a)
    fun _ a => ResetEnds a := by
  intro p a
  cases a with
  | resetPassword r form => exact resetPassword_obeys form
  | forgotPassword r form => exact obeys_conseq (forgotPassword_obeys form) fun _ _ _ hr => hr.elim
  | _ =>
    refine obeys_conseq (program_obeys fun h op ho => ?_) fun _ _ _ hr => hr.elim
    cases op <;> trivial

end Conduct

/-- What a request rests its new session on: the row of the user, or that of the session. -/
def RestsOn (user : UserId) (e : Entry Op Op.Resp) : Prop :=
  Ground user e ∨ ∃ hash s, e = readOf hash s

def Consumes (x : ℕ) (k : Interleaving.Call Op Op.Resp Unit) : Prop :=
  ∃ at_, k.entry = ⟨.consumePasswordResetToken x at_, .ok ()⟩

/-- Who looks a token up finds no other request at work with it. What a reset consumes and deletes
is consumed and deleted. Since a request has read the row on which its new session rests, no reset
has deleted the sessions of the user. -/
def Careful (c : AccountConfig) : AccountAction → Prop
  | .run i ch => ∀ op, c.next i = some op →
    match op with
    | .getPasswordResetToken hash => ∀ t, c.state.getPasswordResetToken hash = some t →
        ∀ j hash' t', resetRead hash' t' ∈ history c.log j → t'.id = t.id → t'.isConsumed = false →
          Finished c j ∨ ∃ k ∈ c.log, k.thread = j ∧ Consumes t.id k
    | .consumePasswordResetToken _ _ | .deleteUserSessions _ => ch.fault = none
    | .createSession s => ∀ d ld k l, d :: ld <:+ c.log → d.op = .deleteUserSessions s.userId →
        k :: l <:+ c.log → k.thread = i → RestsOn s.userId k.entry → d :: ld <:+ l
    | _ => True
  | _ => True

def Makes (x : ℕ) (k : Interleaving.Call Op Op.Resp Unit) : Prop :=
  ∃ t, k.op = .createPasswordResetToken t ∧ t.id = x

/-- The token has set a password there. -/
def SetsPassword (log : Log) (x : ℕ) (k : Interleaving.Call Op Op.Resp Unit) (l : Log) : Prop :=
  k :: l <:+ log ∧ (∃ id hashed, k.entry = passwordSet id hashed) ∧
    ∃ t hash, resetRead hash t ∈ history l k.thread ∧ t.id = x

section Tokens

variable {K : Site} {c₀ c c' : AccountConfig} {cond : AccountConfig → AccountAction → Prop}
  {i j x : ℕ} {t : PasswordResetToken} {k k' : Interleaving.Call Op Op.Resp Unit} {l l' : Log}
  {h : History}

theorem Ready.read (hr : Ready h t) : ∃ hash, resetRead hash t ∈ h := by
  obtain ⟨password, hashed, now, hash, h₁, rfl, -⟩ := hr
  exact ⟨hash, .tail _ (.tail _ (.head _))⟩

theorem limits_read {hash : String} (hg : Grew (fun op => op.limits = true) [] h) :
    resetRead hash t ∉ h := by
  intro he
  obtain ⟨new, rfl, ha⟩ := hg
  rw [List.append_nil] at he
  have := ha _ he
  cases this

/-- A request holds one token. -/
theorem Ready.token (hr : Ready h t) {hash : String} {t' : PasswordResetToken}
    (he : resetRead hash t' ∈ h) : t' = t := by
  obtain ⟨password, hashed, now, hash₁, h₁, rfl, hg, -⟩ := hr
  rcases List.mem_cons.mp he with he | he
  · cases he
  rcases List.mem_cons.mp he with he | he
  · cases he
  rcases List.mem_cons.mp he with he | he
  · cases he
    rfl
  · exact absurd he (limits_read hg)

theorem made_once (h₀ : Fresh c₀) (h : (dashboard K).Reaches cond c₀ c) (x : ℕ) :
    Once (Makes x) c.log := by
  apply Once.follows (fun op => ∀ t, op ≠ .createPasswordResetToken t) (minted_once h₀ h x)
  · rintro k ⟨t, ht, -⟩ hn
    exact hn t ht
  · rintro k l hk ⟨t, ht, rfl⟩
    obtain ⟨th, -, -, hl⟩ := logged_licence resets_disciplined h₀ h hk
    rw [ht] at hl
    obtain ⟨user, m, createdAt, base, h₁, hh, rfl⟩ := hl
    refine ⟨h₁, ⟨.mint, m⟩, ?_, fun k hk => ⟨m, hk, rfl⟩⟩
    rw [hh]
    exact .cons (fun t ht => by cases ht) (.one fun t ht => by cases ht)

/-- Every token of the table, and every token that was ever read, was made. -/
structure Issued (c : AccountConfig) : Prop where
  rows : ∀ t ∈ c.state.resetTokens.rows, ∃ k ∈ c.log, Makes t.id k
  told : ∀ k ∈ c.log, ∀ hash t, k.entry = resetRead hash t → ∃ k ∈ c.log, Makes t.id k

theorem issued (h₀ : Fresh c₀) (ht : c₀.state.resetTokens = .empty)
    (h : (dashboard K).Reaches cond c₀ c) : Issued c := by
  apply h.invariant (P := Issued)
  · constructor
    · intro t hrow
      rw [ht] at hrow
      cases hrow
    · intro k hk
      rw [h₀.log] at hk
      cases hk
  · intro c x c' hr hx hs ih
    have later {y : ℕ} (hm : ∃ k ∈ c.log, Makes y k) : ∃ k ∈ c'.log, Makes y k := by
      obtain ⟨k, hk, hm⟩ := hm
      exact ⟨k, (step_log hs).subset hk, hm⟩
    cases x with
    | start p a =>
      refine ⟨fun t hrow => later (ih.rows t (start_state hs ▸ hrow)), fun k hk hash t he => ?_⟩
      exact later (ih.told k ((step_start hs).2.2 ▸ hk) hash t he)
    | env e =>
      refine ⟨fun t hrow => ?_, fun k hk hash t he => ?_⟩
      · rw [env_state hs] at hrow
        exact later (ih.rows t (happen_tokens hrow))
      · exact later (ih.told k ((step_env hs).2.2 ▸ hk) hash t he)
    | run i ch =>
      obtain ⟨op, ⟨r⟩⟩ := step_run hs
      refine ⟨fun t hrow => ?_, fun k hk hash t he => ?_⟩
      · have harr := exec_tokens r.done hrow
        generalize he : (⟨op, r.resp⟩ : Entry Op Op.Resp) = e at harr
        cases harr with
        | kept hold => exact later (ih.rows t hold)
        | created =>
          refine ⟨⟨i, r.party, op, r.resp⟩, ?_, t, congrArg Entry.op he, rfl⟩
          rw [r.log]
          exact .head _
        | consumed y at_ hy hyt =>
          rw [hyt]
          exact later (ih.rows y hy)
      · rw [r.log] at hk
        rcases List.mem_cons.mp hk with rfl | hk
        · have hget := exec_readToken (ran_done r he)
          exact later (ih.rows t (List.mem_of_find?_eq_some hget))
        · exact later (ih.told k hk hash t he)

theorem consumed_made (h₀ : Fresh c₀) (ht : c₀.state.resetTokens = .empty)
    (h : (dashboard K).Reaches cond c₀ c) (hk : k ∈ c.log) (hc : Consumes x k) :
    ∃ k ∈ c.log, Makes x k := by
  obtain ⟨at_, he⟩ := hc
  obtain ⟨l, hl⟩ := placed hk
  obtain ⟨th, -, -, hlic⟩ := logged_licence resets_disciplined h₀ h hl
  rw [show k.op = .consumePasswordResetToken x at_ from congrArg Entry.op he] at hlic
  obtain ⟨t, hashed, h₁, hh, hr, rfl⟩ := hlic
  obtain ⟨hash, hread⟩ := hr.read
  have hin : resetRead hash t ∈ history l k.thread := by
    rw [hh]
    exact .tail _ (.tail _ hread)
  obtain ⟨k₁, hk₁, -, he₁⟩ := mem_history.mp hin
  exact (issued h₀ ht h).told k₁ (hl.subset (.tail _ hk₁)) hash t he₁

def Used (c : AccountConfig) : Prop :=
  ∀ t ∈ c.state.resetTokens.rows, (∃ k ∈ c.log, Consumes t.id k) → t.isConsumed = true

/-- A consumed token stays consumed. -/
theorem used (h₀ : Fresh c₀) (ht : c₀.state.resetTokens = .empty)
    (h : (dashboard K).Reaches cond c₀ c) : Used c := by
  apply h.invariant (P := Used)
  · intro t hrow
    rw [ht] at hrow
    cases hrow
  · intro c x c' hr hx hs ih t hrow hc
    cases x with
    | start p a =>
      rw [(step_start hs).2.2] at hc
      exact ih t (start_state hs ▸ hrow) hc
    | env e =>
      rw [(step_env hs).2.2] at hc
      rw [env_state hs] at hrow
      exact ih t (happen_tokens hrow) hc
    | run i ch =>
      obtain ⟨op, ⟨r⟩⟩ := step_run hs
      by_cases hk : Consumes t.id ⟨i, r.party, op, r.resp⟩
      · obtain ⟨at_, he⟩ := hk
        exact exec_consumed (ran_done r he) hrow rfl
      · have hc : ∃ k ∈ c.log, Consumes t.id k := by
          obtain ⟨k, hkl, hck⟩ := hc
          rw [r.log] at hkl
          rcases List.mem_cons.mp hkl with rfl | hkl
          · exact absurd hck hk
          · exact ⟨k, hkl, hck⟩
        have harr := exec_tokens r.done hrow
        generalize he : (⟨op, r.resp⟩ : Entry Op Op.Resp) = e at harr
        cases harr with
        | kept hold => exact ih t hold hc
        | created =>
          -- What is only made now has not been consumed.
          obtain ⟨k, hkl, hck⟩ := hc
          obtain ⟨k₁, hk₁, hm⟩ := consumed_made h₀ ht hr hkl hck
          have hreach : (dashboard K).Reaches cond c₀ c' := .tail _ hr hx hs
          have hself : Makes t.id (⟨i, r.party, op, r.resp⟩ : Interleaving.Call Op Op.Resp Unit) :=
            ⟨t, congrArg Entry.op he, rfl⟩
          exact absurd hm (made_once h₀ hreach t.id _ c.log (r.log ▸ List.suffix_rfl) hself k₁ hk₁)
        | consumed y at_ hy hyt =>
          rw [hyt]
          rfl

end Tokens

section SingleUse

variable {K : Site} {c₀ c c' : AccountConfig} {i j x : ℕ} {t : PasswordResetToken}
  {k k' : Interleaving.Call Op Op.Resp Unit} {l l' : Log} {h : History}

/-- Before the token sets a password it is found unused. -/
theorem setsPassword_read (h₀ : Fresh c₀) (h : (dashboard K).Reaches Careful c₀ c)
    (hk : SetsPassword c.log x k l) :
    (∃ th, c.threads[k.thread]? = some th ∧ IsReset th.act) ∧
      ∃ r lr hash t, r :: lr <:+ l ∧ r.thread = k.thread ∧ r.entry = resetRead hash t ∧ t.id = x ∧
        Ready (history l k.thread) t := by
  obtain ⟨hl, ⟨id, hashed, he⟩, t₀, hash₀, hread, rfl⟩ := hk
  obtain ⟨th, hth, -, hlic⟩ := logged_licence resets_disciplined h₀ h hl
  rw [show k.op = .updateUserPassword id hashed from congrArg Entry.op he] at hlic
  obtain ⟨hreset, t, hready, -⟩ := hlic
  cases hready.token hread
  obtain ⟨r, hr, hrk, hre⟩ := mem_history.mp hread
  obtain ⟨lr, hlr⟩ := placed hr
  exact ⟨⟨th, hth, hreset⟩, r, lr, hash₀, t₀, hlr, hrk, hre, rfl, hready⟩

/-- A request sets a password once. -/
theorem password_once {cond : AccountConfig → AccountAction → Prop} (h₀ : Fresh c₀)
    (h : (dashboard K).Reaches cond c₀ c) (hk : k :: l <:+ c.log) (hk' : k' :: l' <:+ c.log)
    (hi : k.thread = k'.thread) {id id' : UserId} {hashed hashed' : String}
    (he : k.entry = passwordSet id hashed) (he' : k'.entry = passwordSet id' hashed') :
    k = k' ∧ l = l' := by
  have first {k : Interleaving.Call Op Op.Resp Unit} {l : Log} {id : UserId} {hashed : String}
      (hk : k :: l <:+ c.log) (he : k.entry = passwordSet id hashed) :
      ¬ ∃ id hashed, passwordSet id hashed ∈ history l k.thread := by
    obtain ⟨th, -, -, hlic⟩ := logged_licence resets_disciplined h₀ h hk
    rw [show k.op = .updateUserPassword id hashed from congrArg Entry.op he] at hlic
    obtain ⟨-, t, hready, -⟩ := hlic
    exact ready_no_password hready
  rcases ordered hk hk' with hs | hs | hs
  · exact hs
  · have hmem := (history_at hs).subset List.mem_cons_self
    rw [hi, he] at hmem
    exact absurd ⟨_, _, hmem⟩ (first hk' he')
  · have hmem := (history_at hs).subset List.mem_cons_self
    rw [← hi, he'] at hmem
    exact absurd ⟨_, _, hmem⟩ (first hk he)

/-- What a reset consumes is consumed. -/
theorem consumption_done (h₀ : Fresh c₀) (h : (dashboard K).Reaches Careful c₀ c) (hk : k ∈ c.log)
    {at_ : ℤ} {a : Except StoreError Unit} (he : k.entry = ⟨.consumePasswordResetToken x at_, a⟩) :
    Consumes x k := by
  obtain ⟨l, hl⟩ := placed hk
  obtain ⟨c₁, c₂, ch, -, hx, -, rfl, ⟨r, -, hr⟩, -⟩ := h.at_call h₀ hl
  have hf := hx k.op r.next
  rw [show k.op = .consumePasswordResetToken x at_ from congrArg Entry.op he] at hf
  have hent : (⟨k.op, r.resp⟩ : Entry Op Op.Resp) = ⟨.consumePasswordResetToken x at_, a⟩ := by
    rw [hr]
    exact he
  have ha : a = .ok () := exec_consumes hf (ran_done r hent)
  subst ha
  exact ⟨at_, he⟩

/-- A request that has finished and has set a password has consumed its token. -/
theorem finished_consumed (h₀ : Fresh c₀) (h : (dashboard K).Reaches Careful c₀ c)
    (hk : SetsPassword c.log x k l) (hf : Finished c k.thread) : ∃ k' ∈ c.log, Consumes x k' := by
  obtain ⟨⟨th, hth, hreset⟩, r, lr, hash, t, hlr, hrk, hre, rfl, hready⟩ := setsPassword_read h₀ h hk
  obtain ⟨hl, ⟨id, hashed, he⟩, -⟩ := hk
  obtain ⟨p, a, out, hout⟩ := hf
  rw [hth] at hout
  cases hout
  have hset : passwordSet id hashed ∈ history c.log k.thread := he ▸ (history_at hl).subset (.head _)
  obtain ⟨t', b, d, h₁, hsuf, hashed', at_, h₂, rfl, hready'⟩ :=
    returned resets_disciplined h₀ h hth hreset (.inr ⟨id, hashed, hset⟩)
  -- The token that was consumed is that with which the password was set.
  have hset' := (List.suffix_append [_, _, _] _).trans hsuf
  obtain ⟨k₂, l₂, hk₂, hkt, he₂, rfl⟩ := of_history_at hset'
  obtain ⟨rfl, rfl⟩ := password_once h₀ h hl hk₂ hkt.symm he he₂
  obtain ⟨hash', hread'⟩ := hready'.read
  obtain rfl := hready.token hread'
  obtain ⟨k₃, hk₃, -, he₃⟩ := mem_history.mp (hsuf.subset (.tail _ (.head _)))
  exact ⟨k₃, hk₃, consumption_done h₀ h hk₃ he₃⟩

/-- A token that has set a password sets no other. -/
theorem no_second (h₀ : Fresh c₀) (ht : c₀.state.resetTokens = .empty)
    (h : (dashboard K).Reaches Careful c₀ c) (hk : SetsPassword c.log x k l)
    (hk' : SetsPassword c.log x k' l') (hs : k :: l <:+ l') : False := by
  have hset := hk
  obtain ⟨-, r, lr, hash, t, hlr, hrk, hre, rfl, hready⟩ := setsPassword_read h₀ h hk
  obtain ⟨-, r', lr', hash', t', hlr', hrk', hre', hid, hready'⟩ := setsPassword_read h₀ h hk'
  obtain ⟨hl, ⟨id, hashed, he⟩, -⟩ := hk
  obtain ⟨hl', ⟨id', hashed', he'⟩, -⟩ := hk'
  have hne : k.thread ≠ k'.thread := by
    intro hi
    obtain ⟨rfl, rfl⟩ := password_once h₀ h hl hl' hi he he'
    have hlen := hs.length_le
    rw [List.length_cons] at hlen
    omega
  have unused {h : History} {t : PasswordResetToken} (hr : Ready h t) : t.isConsumed = false := by
    obtain ⟨-, -, -, -, -, -, -, hc⟩ := hr
    exact hc
  have held {r k : Interleaving.Call Op Op.Resp Unit} {l₁ l₂ : Log} {hash : String}
      {t : PasswordResetToken} (hr : r :: l₁ <:+ l₂) (hi : r.thread = k.thread)
      (he : r.entry = resetRead hash t) : resetRead hash t ∈ history l₂ k.thread := by
    have hmem := (history_at hr).subset List.mem_cons_self
    rwa [he, hi] at hmem
  have hkl : l <:+ c.log := (List.suffix_cons k l).trans hl
  have hkl' : l' <:+ c.log := (List.suffix_cons k' l').trans hl'
  rcases ordered (hlr.trans hkl) (hlr'.trans hkl') with ⟨rfl, -⟩ | hb | hb
  · exact hne (hrk.symm.trans hrk')
  · -- The later request has looked the token up after the earlier one.
    obtain ⟨c₁, c₂, ch, h₁, hx, hstep, rfl, ⟨ran, -, hresp⟩, h₂⟩ := h.at_call h₀ (hlr'.trans hkl')
    have hent : (⟨r'.op, ran.resp⟩ : Entry Op Op.Resp) = resetRead hash' t' := by
      rw [hresp]
      exact hre'
    have hget := exec_readToken (ran_done ran hent)
    have hcond := hx r'.op ran.next
    rw [show r'.op = .getPasswordResetToken hash' from congrArg Entry.op hre'] at hcond
    have hconsumed : ∃ k ∈ c₁.log, Consumes t'.id k := by
      rcases hcond t' hget k.thread hash t (held hb hrk hre) hid.symm (unused hready) with hf | hf
      · obtain ⟨p, a, out, hout⟩ := hf
        have hc₁ : (dashboard K).Reaches Careful c₁ c := (Reaches.single hx hstep).trans h₂
        have hdone := hc₁.done_before hout hl
        obtain ⟨-, hpw, hread⟩ := hset
        rw [hid]
        exact finished_consumed h₀ h₁ ⟨hdone, hpw, hread⟩ ⟨p, a, out, hout⟩
      · obtain ⟨k₁, hk₁, -, hc⟩ := hf
        exact ⟨k₁, hk₁, hc⟩
    have hused := used h₀ ht h₁ t' (List.mem_of_find?_eq_some hget) hconsumed
    rw [unused hready'] at hused
    cases hused
  · -- The earlier request has looked the token up after the later one.
    obtain ⟨c₁, c₂, ch, h₁, hx, hstep, rfl, ⟨ran, -, hresp⟩, h₂⟩ := h.at_call h₀ (hlr.trans hkl)
    have hent : (⟨r.op, ran.resp⟩ : Entry Op Op.Resp) = resetRead hash t := by
      rw [hresp]
      exact hre
    have hget := exec_readToken (ran_done ran hent)
    have hcond := hx r.op ran.next
    rw [show r.op = .getPasswordResetToken hash from congrArg Entry.op hre] at hcond
    have hbefore : c₁.log <:+ l' :=
      (List.suffix_cons r _).trans (hlr.trans ((List.suffix_cons k l).trans hs))
    rcases hcond t hget k'.thread hash' t' (held hb hrk' hre') hid (unused hready') with hf | hf
    · obtain ⟨p, a, out, hout⟩ := hf
      have hc₁ : (dashboard K).Reaches Careful c₁ c := (Reaches.single hx hstep).trans h₂
      have hlen := ((hc₁.done_before hout hl').trans hbefore).length_le
      rw [List.length_cons] at hlen
      omega
    · obtain ⟨k₁, hk₁, hkt, at_, he₁⟩ := hf
      obtain ⟨l₁, hl₁⟩ := placed hk₁
      obtain ⟨th, -, -, hlic⟩ := logged_licence resets_disciplined h₀ h₁ hl₁
      rw [show k₁.op = .consumePasswordResetToken t.id at_ from congrArg Entry.op he₁] at hlic
      obtain ⟨t₂, hashed₂, h₂, hh, -⟩ := hlic
      have hset₂ : passwordSet t₂.userId hashed₂ ∈ history l' k'.thread := by
        refine (history_suffix ((List.suffix_cons k₁ l₁).trans (hl₁.trans hbefore)) _).subset ?_
        rw [← hkt, hh]
        exact .tail _ (.head _)
      exact ready_no_password hready' ⟨_, _, hset₂⟩

theorem single_use (h₀ : Fresh c₀) (ht : c₀.state.resetTokens = .empty)
    (h : (dashboard K).Reaches Careful c₀ c) (hk : SetsPassword c.log x k l)
    (hk' : SetsPassword c.log x k' l') : k = k' ∧ l = l' := by
  rcases ordered hk.1 hk'.1 with hs | hs | hs
  · exact hs
  · exact (no_second h₀ ht h hk hk' hs).elim
  · exact (no_second h₀ ht h hk' hk hs).elim

end SingleUse

/-- The login that opened the session read its user there. -/
def LogsIn (log : Log) (L : Session) (k : Interleaving.Call Op Op.Resp Unit) (l : Log) : Prop :=
  (∃ email user, k.entry = ⟨.getUserByEmail email, .ok (some user)⟩ ∧ user.id = L.userId) ∧
    ∃ k' l', k' :: l' <:+ log ∧ k'.entry = ⟨.createSession L, .ok ()⟩ ∧ k :: l <:+ l' ∧
      k.thread = k'.thread

/-- The reset has set the password of the user there, and has answered that it has. -/
def ResetDone (c : AccountConfig) (j : ℕ) (user : UserId) (m : Interleaving.Call Op Op.Resp Unit)
    (lm : Log) : Prop :=
  (∃ r form, c.threads[j]? = some ⟨(), .resetPassword r form, .ret resetDone⟩) ∧ m :: lm <:+ c.log ∧
    m.thread = j ∧ ∃ hashed, m.entry = passwordSet user hashed

section Revocation

variable {K : Site} {c₀ c₁ c : AccountConfig} {cond : AccountConfig → AccountAction → Prop}
  {user : UserId} {L s : Session} {y : SessionId} {d k k' : Interleaving.Call Op Op.Resp Unit}
  {ld l l' : Log}

/-- Every session of the user has been created since. -/
def Renewed (user : UserId) (l₀ : Log) (c : AccountConfig) : Prop :=
  ∀ x ∈ c.state.sessions.rows, x.userId = user → ∀ k l, k :: l <:+ c.log → Creates x.id k → l₀ <:+ l

theorem renewed (h₀ : Fresh c₀) (h₁ : (dashboard K).Reaches cond c₀ c₁)
    (hg : ∀ x ∈ c₁.state.sessions.rows, x.userId ≠ user) (h : (dashboard K).Reaches cond c₁ c) :
    Renewed user c₁.log c := by
  induction h with
  | refl => exact fun x hx hu => absurd hu (hg x hx)
  | @tail c₂ c₃ a h ha hs ih =>
    intro x hx hu k l hk hc
    cases a with
    | start p a =>
      rw [(step_start hs).2.2] at hk
      exact ih x (start_state hs ▸ hx) hu k l hk hc
    | env e =>
      rw [(step_env hs).2.2] at hk
      rw [env_state hs] at hx
      exact ih x ((happen_frame _ _ _).1 x hx) hu k l hk hc
    | run i ch =>
      obtain ⟨op, ⟨r⟩⟩ := step_run hs
      have hreach : (dashboard K).Reaches cond c₀ c₃ := .tail _ (h₁.trans h) ha hs
      have hlast := hk
      rw [r.log] at hk
      rcases List.suffix_cons_iff.mp hk with he | hk
      · cases he
        exact h.log_suffix
      · have harr := exec_arrives r.done hx
        generalize he : (⟨op, r.resp⟩ : Entry Op Op.Resp) = e at harr
        cases harr with
        | kept hold => exact ih x hold hu k l hk hc
        | created =>
          have hself : Creates x.id (⟨i, r.party, op, r.resp⟩ : Interleaving.Call Op Op.Resp Unit) :=
            creates_of_entry he
          exact absurd hc (created_once h₀ hreach x.id _ c₂.log (r.log ▸ List.suffix_rfl) hself k
            (hk.subset List.mem_cons_self))
        | shortened z b hz hzx =>
          rw [hzx] at hu hc
          exact ih z hz hu k l hk hc

/-- What descends from a session is of the same user. -/
theorem descends_user (h₀ : Fresh c₀) (hs : c₀.state.sessions = .empty)
    (h : (dashboard K).Reaches cond c₀ c) (hL : k ∈ c.log)
    (hLe : k.entry = ⟨.createSession L, .ok ()⟩) (hd : Descends c.log L.id y) (hk' : k' ∈ c.log)
    (hse : k'.entry = ⟨.createSession s, .ok ()⟩) (hid : s.id = y) : s.userId = L.userId := by
  induction hd generalizing s k' with
  | refl =>
    obtain ⟨-, rfl⟩ := created_eq h₀ h hk' hse hL hLe hid
    rfl
  | tail hd hr ih =>
    obtain ⟨k₁, l, z, z', hk₁, hz', hp, rfl, hid'⟩ := hr
    have hmem : k₁ ∈ c.log := hk₁.subset List.mem_cons_self
    obtain ⟨-, rfl⟩ := created_eq h₀ h hk' hse hmem hz' (hid.trans hid'.symm)
    obtain ⟨t, m, h₁, -, -, -, rfl⟩ := rotated_from h₀ h hk₁ (congrArg Entry.op hz') hp
    obtain ⟨k₂, hk₂, -, hash, hread⟩ := presents_logged hp
    obtain ⟨k₃, hk₃, s₃, hs₃, hid₃, hu, -⟩ :=
      (kept h₀ hs h).told k₂ (hk₁.subset (.tail _ hk₂)) hash z hread
    exact hu.trans (ih hk₃ hs₃ hid₃.symm)

/-- A session that was created since the sessions of its user were deleted comes from a login that
read the user since. -/
theorem login_since (h₀ : Fresh c₀) (hs : c₀.state.sessions = .empty)
    (h₁ : (dashboard K).Reaches Careful c₀ c₁) (hlog : c₁.log = d :: ld)
    (ho : d.op = .deleteUserSessions user) (hg : ∀ x ∈ c₁.state.sessions.rows, x.userId ≠ user)
    (h : (dashboard K).Reaches Careful c₁ c) {kr : Interleaving.Call Op Op.Resp Unit} {lr : Log}
    (hL : LogsIn c.log L kr lr) (hd : Descends c.log L.id y) (hk : k :: l <:+ c.log)
    (he : k.entry = ⟨.createSession s, .ok ()⟩) (hid : s.id = y) (hu : s.userId = user)
    (hdl : d :: ld <:+ l) : d :: ld <:+ lr := by
  have hc := h₁.trans h
  -- A request that opens a session has read its ground after the deletion.
  have grounded {k kr : Interleaving.Call Op Op.Resp Unit} {l lr : Log} {s : Session}
      (hk : k :: l <:+ c.log) (he : k.entry = ⟨.createSession s, .ok ()⟩) (hu : s.userId = user)
      (hdl : d :: ld <:+ l) (hr : kr :: lr <:+ l) (ht : kr.thread = k.thread)
      (hrest : RestsOn user kr.entry) : d :: ld <:+ lr := by
    obtain ⟨c₂, c₃, ch, h₂, hx, -, rfl, ⟨r, -, -⟩, -⟩ := hc.at_call h₀ hk
    have hcond := hx k.op r.next
    rw [show k.op = .createSession s from congrArg Entry.op he] at hcond
    exact hcond d ld kr lr hdl (hu ▸ ho) hr ht (hu ▸ hrest)
  induction hd generalizing s k l with
  | refl =>
    obtain ⟨⟨email, u, hkr, huser⟩, k', l', hk', he', hr, ht⟩ := hL
    have hself := creates_of_entry he'
    obtain ⟨rfl, rfl⟩ := (created_once h₀ hc L.id).place hk hk' (hid ▸ creates_of_entry he) hself
    rw [he] at he'
    have hop := congrArg Entry.op he'
    cases hop
    refine grounded hk he hu hdl hr ht (.inl ?_)
    rw [hkr]
    exact .found email u (huser.trans hu)
  | tail hd hrot ih =>
    obtain ⟨kq, lq, z, z', hkq, hz', hp, rfl, hid'⟩ := hrot
    obtain ⟨rfl, rfl⟩ := (created_once h₀ hc z'.id).place hk hkq
      ((hid.trans hid'.symm) ▸ creates_of_entry he) (creates_of_entry hz')
    rw [he] at hz'
    have hop := congrArg Entry.op hz'
    cases hop
    obtain ⟨k₂, hk₂, ht₂, hash, hread⟩ := presents_logged hp
    obtain ⟨l₂, hl₂⟩ := placed hk₂
    have hdl₂ := grounded hk he hu hdl hl₂ ht₂ (.inr ⟨hash, z, hread⟩)
    obtain ⟨t, m, h₂, -, -, -, hs'⟩ := rotated_from h₀ hc hk (congrArg Entry.op he) hp
    have huz : z.userId = user := by
      rw [← hu, hs']
      rfl
    have hkl₂ := hl₂.trans ((List.suffix_cons k l).trans hk)
    have hn : ¬ k₂ :: l₂ <:+ c₁.log := by
      intro hsuf
      rw [hlog] at hsuf
      have hlen := (hsuf.trans hdl₂).length_le
      rw [List.length_cons] at hlen
      omega
    obtain ⟨c₃, c₄, ch, h₃, -, -, rfl, ⟨ran, -, hresp⟩, -⟩ := h.step_of_log hkl₂ hn
    have hent : (⟨k₂.op, ran.resp⟩ : Entry Op Op.Resp) = readOf hash z := by
      rw [hresp]
      exact hread
    have hrow := (Keyed.get_eq_some.mp (exec_read (ran_done ran hent))).1
    obtain ⟨k₃, hk₃, s₃, hs₃, hid₃, hu₃, -⟩ := (kept h₀ hs (h₁.trans h₃)).rows z hrow
    obtain ⟨l₃, hl₃⟩ := placed hk₃
    have hdl₃ := renewed h₀ h₁ hg h₃ z hrow huz k₃ l₃ hl₃ (hid₃ ▸ creates_of_entry hs₃)
    rw [hlog] at hdl₃
    exact ih (hl₃.trans ((List.suffix_cons k₂ _).trans hkl₂)) hs₃ hid₃.symm (hu₃.symm.trans huz) hdl₃

/-- What a finished reset has done: the password is set, and then the sessions are deleted. -/
theorem reset_deletes (h₀ : Fresh c₀) (h : (dashboard K).Reaches Careful c₀ c) {j : ℕ}
    {m : Interleaving.Call Op Op.Resp Unit} {lm : Log} (hd : ResetDone c j user m lm) :
    ∃ d ld c₁, d.op = .deleteUserSessions user ∧ m :: lm <:+ ld ∧ c₁.log = d :: ld ∧
      (dashboard K).Reaches Careful c₀ c₁ ∧ (dashboard K).Reaches Careful c₁ c ∧
      ∀ x ∈ c₁.state.sessions.rows, x.userId ≠ user := by
  obtain ⟨⟨r, form, hth⟩, hm, rfl, hashed, hme⟩ := hd
  obtain ⟨t, a, b, h₁, hsuf, hashed', at_, h₂, rfl, -⟩ :=
    returned resets_disciplined h₀ h hth trivial (.inl rfl)
  obtain ⟨d, ld, hdl, hdt, hde, hdh⟩ := of_history_at hsuf
  have hset : passwordSet t.userId hashed' :: h₂ <:+ history ld m.thread := by
    rw [hdh]
    exact List.suffix_append [_, _] _
  obtain ⟨k, l, hk, hkt, hke, -⟩ := of_history_at hset
  have hkc : k :: l <:+ c.log := hk.trans ((List.suffix_cons d ld).trans hdl)
  obtain ⟨rfl, rfl⟩ := password_once h₀ h hm hkc hkt.symm hme hke
  rw [hme] at hke
  have hop := congrArg Entry.op hke
  cases hop
  obtain ⟨c₁, c₂, ch, hr, hx, hs, rfl, ⟨ran, hparty, hresp⟩, h₃⟩ := h.at_call h₀ hdl
  have hop : d.op = .deleteUserSessions t.userId := congrArg Entry.op hde
  have hf := hx d.op ran.next
  rw [hop] at hf
  have hent : (⟨d.op, ran.resp⟩ : Entry Op Op.Resp) = ⟨.deleteUserSessions t.userId, b⟩ := by
    rw [hresp]
    exact hde
  have hlog : c₂.log = d :: c₁.log := by
    rw [ran.log, hparty, hresp]
  exact ⟨d, c₁.log, c₂, hop, hk, hlog, .tail _ hr hx hs, h₃, exec_revoked hf (ran_done ran hent)⟩

end Revocation

/-- A reset token sets a password at most once; and once a reset has answered that the password is
set, every session that lets a later request through comes from a login that read the user after
that. -/
theorem resets_revoke {K : Site} {c₀ c₁ : AccountConfig} (h₀ : Fresh c₀)
    (hs : c₀.state.sessions = .empty) (ht : c₀.state.resetTokens = .empty)
    (h₁ : (dashboard K).Reaches Careful c₀ c₁) :
    (∀ x k l k' l', SetsPassword c₁.log x k l → SetsPassword c₁.log x k' l' → k = k' ∧ l = l') ∧
      ∀ j user m lm, ResetDone c₁ j user m lm → ∀ c i s t l L k lk,
        (dashboard K).Reaches Careful c₁ c → history c₁.log i = [] → Accepted K c i s t l →
          L.userId = user → Descends c.log L.id s.id → LogsIn c.log L k lk → m :: lm <:+ lk := by
  constructor
  · intro x k l k' l' hk hk'
    exact single_use h₀ ht h₁ hk hk'
  · intro j user m lm hd c i s t l L k lk h hi ha hu hdesc hL
    obtain ⟨d, ld, c₂, ho, hmd, hlog, h₂, h₂₁, hg⟩ := reset_deletes h₀ h₁ hd
    obtain ⟨c₃, h₃, h₃c, rfl, hrow⟩ := accepted_row h hi ha
    obtain ⟨k₃, hk₃, s₃, hs₃, hid₃, hu₃, -⟩ := (kept h₀ hs (h₁.trans h₃)).rows s hrow
    obtain ⟨l₃, hl₃⟩ := placed hk₃
    obtain ⟨-, kL, lL, hkL, heL, -⟩ := id hL
    have hkc : k₃ :: l₃ <:+ c.log := hl₃.trans h₃c.log_suffix
    have huser : s₃.userId = user := by
      rw [← hu]
      exact descends_user h₀ hs (h₁.trans h) (hkL.subset List.mem_cons_self) heL hdesc
        (hkc.subset List.mem_cons_self) hs₃ hid₃.symm
    have hsince := renewed h₀ h₂ hg (h₂₁.trans h₃) s hrow (hu₃.trans huser) k₃ l₃ hl₃
      (hid₃ ▸ creates_of_entry hs₃)
    rw [hlog] at hsince
    have hlast := login_since h₀ hs h₂ hlog ho hg (h₂₁.trans h) hL hdesc hkc hs₃ hid₃.symm huser hsince
    exact hmd.trans ((List.suffix_cons d ld).trans hlast)

section Example

def annForgets : Activity :=
  .forgotPassword (from_ "10.0.0.1") { email := "ann@fleet.dev", csrfToken := "x" }

def annResets : Activity := .resetPassword (from_ "10.0.0.1")
  { token := "r", password := "secret2", passwordConfirm := "secret2", csrfToken := "x" }

/-- A login is held up between the check of the password and its session, and two requests come
with one token. -/
def overlappingRun : List AccountAction :=
  .start () annForgets :: calls 0 9 { token := "r", uuid := 9 } ++
    .start () annLogin :: calls 1 4 ++
    [.start () annResets, .start () annResets] ++
    calls 2 5 { hashed := some "secret2" } ++ calls 3 5 { hashed := some "secret3" } ++
    calls 2 9 ++ calls 3 9

def overlappingConfig : AccountConfig :=
  (dashboard plainSite).after (started annWorld) overlappingRun

def staleRun : List AccountAction :=
  calls 1 12 { token := "a", uuid := 1 } ++
    .start () (.guarded (from_ "10.0.0.1" (some "a")) .page) :: calls 4 5

def staleConfig : AccountConfig := (dashboard plainSite).after overlappingConfig staleRun

def resetToken : PasswordResetToken :=
  { id := 9, userId := ⟨1⟩, tokenHash := "r", createdAt := 0, expiresAt := 3600 }

/-- The user as a login leaves it after a reset to that password. -/
def resetAnn (passwordHash : String) : User := { seenAnn with passwordHash }

set_option maxRecDepth 20000 in
/-- One token sets two passwords, and the held-up login with the old one opens a session that lets
requests through after both. -/
theorem overlapping_resets :
    (dashboard plainSite).Reaches always (started annWorld) overlappingConfig ∧
      (dashboard plainSite).Reaches always overlappingConfig staleConfig ∧
      (∃ k l k' l', SetsPassword overlappingConfig.log 9 k l ∧
        SetsPassword overlappingConfig.log 9 k' l' ∧ k.thread ≠ k'.thread) ∧
      ∃ m lm k lk t l, ResetDone overlappingConfig 2 ⟨1⟩ m lm ∧ history overlappingConfig.log 4 = [] ∧
        Accepted plainSite staleConfig 4 annSession t l ∧ LogsIn staleConfig.log annSession k lk ∧
        ¬ m :: lm <:+ lk := by
  have hset₂ : overlappingConfig.log.drop 17 = ⟨2, (), .updateUserPassword ⟨1⟩ "secret2", .ok ()⟩ ::
      overlappingConfig.log.drop 18 := rfl
  have hset₃ : overlappingConfig.log.drop 8 = ⟨3, (), .updateUserPassword ⟨1⟩ "secret3", .ok ()⟩ ::
      overlappingConfig.log.drop 9 := rfl
  have hread₂ : (history (overlappingConfig.log.drop 18) 2)[2]? = some (resetRead "r" resetToken) := rfl
  have hread₃ : (history (overlappingConfig.log.drop 9) 3)[2]? = some (resetRead "r" resetToken) := rfl
  have hdone : overlappingConfig.threads[2]? = some ⟨(), annResets, .ret resetDone⟩ := rfl
  have hact : staleConfig.threads[4]? = some ⟨(), .guarded (from_ "10.0.0.1" (some "a")) .page,
      .ret ⟨.served, [csrfCookie "x"]⟩⟩ := rfl
  have hhist : history staleConfig.log 4 =
      [⟨.readClock, (0 : ℤ)⟩] ++ passed (resetAnn "secret3") annSession 0 := rfl
  have hseen : staleConfig.log.drop 4 = ⟨4, (), .getSessionByTokenHash "a",
      .ok (some annSession)⟩ :: staleConfig.log.drop 5 := rfl
  have hcreated : staleConfig.log.drop 13 = ⟨1, (), .createSession annSession, .ok ()⟩ ::
      staleConfig.log.drop 14 := rfl
  have hfound : staleConfig.log.drop 46 = ⟨1, (), .getUserByEmail "ann@fleet.dev",
      .ok (some ann)⟩ :: staleConfig.log.drop 47 := rfl
  have hlong : (overlappingConfig.log.drop 17).length = 24 := rfl
  have hshort : (staleConfig.log.drop 47).length = 11 := rfl
  refine ⟨after_reaches overlappingRun, after_reaches staleRun, ?_, ?_⟩
  · refine ⟨_, _, _, _, ⟨hset₂ ▸ List.drop_suffix 17 _, ⟨_, _, rfl⟩, resetToken, "r", ?_, rfl⟩,
      ⟨hset₃ ▸ List.drop_suffix 8 _, ⟨_, _, rfl⟩, resetToken, "r", ?_, rfl⟩, ?_⟩
    · exact List.mem_of_getElem? hread₂
    · exact List.mem_of_getElem? hread₃
    · decide
  · refine ⟨_, _, ⟨1, (), .getUserByEmail "ann@fleet.dev", .ok (some ann)⟩,
      staleConfig.log.drop 47, 0, _, ⟨⟨_, _, hdone⟩, hset₂ ▸ List.drop_suffix 17 _, rfl, _, rfl⟩, rfl,
      ⟨_, _, seenPrincipal (resetAnn "secret3") annSession, passed (resetAnn "secret3") annSession 0,
        ⟨_, hact⟩, yields_passed rfl rfl rfl, ?_, .tail _ (.tail _ (.head _)), _, "a",
        hseen ▸ List.drop_suffix 4 _, rfl, rfl⟩,
      ⟨⟨_, ann, rfl, rfl⟩, ⟨1, (), .createSession annSession, .ok ()⟩, staleConfig.log.drop 14, hcreated ▸ List.drop_suffix 13 _, rfl, ?_, rfl⟩, ?_⟩
    · exact hhist ▸ List.suffix_append _ _
    · exact hfound ▸ (List.drop_suffix 32 (staleConfig.log.drop 14))
    · intro hsuf
      have hlen := hsuf.length_le
      rw [← hset₂, hlong, hshort] at hlen
      omega

def Op.readsToken : Op → Bool
  | .getPasswordResetToken _ => true
  | _ => false

def Op.revokes : Op → Bool
  | .deleteUserSessions _ => true
  | _ => false

/-- Every deletion of sessions comes before all that the request has done. -/
def revokedBefore (i : ℕ) : Log → Bool
  | [] => true
  | k :: l => (!k.op.revokes || l.all fun k => k.thread ≠ i) && revokedBefore i l

theorem revokedBefore_place {i : ℕ} {log ld : Log} {d : Interleaving.Call Op Op.Resp Unit}
    (h : revokedBefore i log = true) (hd : d :: ld <:+ log) (ho : d.op.revokes = true) :
    ∀ k ∈ ld, k.thread ≠ i := by
  induction log with
  | nil => cases List.suffix_nil.mp hd
  | cons k log ih =>
    simp only [revokedBefore, Bool.and_eq_true] at h
    rcases List.suffix_cons_iff.mp hd with he | hd
    · cases he
      simpa [ho] using h.1
    · exact ih h.2 hd

/-- One request looks up a token, and nothing that a reset does fails. -/
def alone (c : AccountConfig) : AccountAction → Bool
  | .run i ch =>
    match c.next i with
    | some (.getPasswordResetToken _) => c.log.all fun k => !k.op.readsToken
    | some (.consumePasswordResetToken _ _) | some (.deleteUserSessions _) => ch.fault.isNone
    | some (.createSession _) => revokedBefore i c.log
    | _ => true
  | _ => true

theorem careful_of_alone {c : AccountConfig} {x : AccountAction} (h : alone c x = true) :
    Careful c x := by
  cases x with
  | start p a => trivial
  | env e => trivial
  | run i ch =>
    intro op hn
    simp only [alone, hn] at h
    cases op with
    | getPasswordResetToken hash =>
      intro t _ j hash' t' hread
      obtain ⟨k, hk, -, he⟩ := mem_history.mp hread
      have hno := List.all_eq_true.mp h k hk
      rw [show k.op = .getPasswordResetToken hash' from congrArg Entry.op he] at hno
      cases hno
    | consumePasswordResetToken id at_ => simpa using h
    | deleteUserSessions id => simpa using h
    | createSession s =>
      intro d ld k l hd ho hk hi hrest
      have hrev : d.op.revokes = true := by
        rw [ho]
        rfl
      have hold := revokedBefore_place h hd hrev
      rcases ordered hd hk with ⟨rfl, -⟩ | hs | hs
      · -- A deletion is nothing that a session rests on.
        rcases hrest with hg | ⟨hash, s', he⟩
        · generalize he : d.entry = e at hg
          cases hg with
          | found email u hu =>
            rw [show d.op = .getUserByEmail email from congrArg Entry.op he] at ho
            cases ho
          | founded u hu =>
            rw [show d.op = .createUser u from congrArg Entry.op he] at ho
            cases ho
        · rw [show d.op = .getSessionByTokenHash hash from congrArg Entry.op he] at ho
          cases ho
      · exact hs
      · exact absurd hi (hold k (hs.subset List.mem_cons_self))
    | _ => trivial

def carefulRun : List AccountAction :=
  .start () annForgets :: calls 0 9 { token := "r", uuid := 9 } ++
    .start () annResets :: calls 1 14 { hashed := some "secret2" }

def carefulConfig : AccountConfig := (dashboard plainSite).after (started annWorld) carefulRun

def newLoginRun : List AccountAction :=
  .start () (.login (from_ "10.0.0.1")
      { email := "ann@fleet.dev", password := "secret2", csrfToken := "x" }) ::
    calls 2 16 { token := "a", uuid := 1 } ++
    .start () (.guarded (from_ "10.0.0.1" (some "a")) .page) :: calls 3 5

def newLoginConfig : AccountConfig := (dashboard plainSite).after carefulConfig newLoginRun

set_option maxRecDepth 20000 in
theorem new_login_accepted : carefulConfig.log.drop 8 <:+ newLoginConfig.log.drop 19 := by
  have hcareful : (dashboard plainSite).replayWhile alone (started annWorld) carefulRun =
      some carefulConfig := rfl
  have hnew : (dashboard plainSite).replayWhile alone carefulConfig newLoginRun =
      some newLoginConfig := rfl
  have hset : carefulConfig.log.drop 8 = ⟨1, (), .updateUserPassword ⟨1⟩ "secret2", .ok ()⟩ ::
      carefulConfig.log.drop 9 := rfl
  have hdone : carefulConfig.threads[1]? = some ⟨(), annResets, .ret resetDone⟩ := rfl
  have hact : newLoginConfig.threads[3]? = some ⟨(), .guarded (from_ "10.0.0.1" (some "a")) .page,
      .ret ⟨.served, [csrfCookie "x"]⟩⟩ := rfl
  have hhist : history newLoginConfig.log 3 =
      [⟨.readClock, (0 : ℤ)⟩] ++ passed (resetAnn "secret2") annSession 0 := rfl
  have hseen : newLoginConfig.log.drop 4 = ⟨3, (), .getSessionByTokenHash "a",
      .ok (some annSession)⟩ :: newLoginConfig.log.drop 5 := rfl
  have hcreated : newLoginConfig.log.drop 13 = ⟨2, (), .createSession annSession, .ok ()⟩ ::
      newLoginConfig.log.drop 14 := rfl
  have hfound : newLoginConfig.log.drop 18 = ⟨2, (), .getUserByEmail "ann@fleet.dev",
      .ok (some { ann with passwordHash := "secret2" })⟩ :: newLoginConfig.log.drop 19 := rfl
  rw [hset]
  refine (resets_revoke (started_fresh annWorld) rfl rfl
    ((replayWhile_reaches hcareful).mono fun c x => careful_of_alone)).2 1 ⟨1⟩ _ _
    ⟨⟨_, _, hdone⟩, hset ▸ List.drop_suffix 8 _, rfl, _, rfl⟩ newLoginConfig 3 annSession 0
    (newLoginConfig.log.drop 5) annSession
    ⟨2, (), .getUserByEmail "ann@fleet.dev", .ok (some { ann with passwordHash := "secret2" })⟩ _
    ((replayWhile_reaches hnew).mono fun c x => careful_of_alone) rfl ?_ rfl .refl ?_
  · refine ⟨_, _, seenPrincipal (resetAnn "secret2") annSession,
      passed (resetAnn "secret2") annSession 0, ⟨_, hact⟩, yields_passed rfl rfl rfl, ?_,
      .tail _ (.tail _ (.head _)), _, "a", hseen ▸ List.drop_suffix 4 _, rfl, rfl⟩
    exact hhist ▸ List.suffix_append _ _
  · refine ⟨⟨_, { ann with passwordHash := "secret2" }, rfl, rfl⟩,
      ⟨2, (), .createSession annSession, .ok ()⟩, newLoginConfig.log.drop 14,
      hcreated ▸ List.drop_suffix 13 _, rfl, ?_, rfl⟩
    exact hfound ▸ List.drop_suffix 4 (newLoginConfig.log.drop 14)

end Example

end FleetOrchestrator.Accounts
