import FleetOrchestrator.Accounts.FirstAdmin
import FleetOrchestrator.Enrolment.CredentialRuns

/-! What bootstrap tokens are issued for, and what they can be used for. -/

namespace FleetOrchestrator.Accounts

open Api Core Tables Store Enrolment Interleaving Machine

inductive Purpose where
  | admin
  | join
  deriving DecidableEq

/-- What the activity makes of its draw, and for whom. -/
def Activity.issue (m : Minted) : Activity → Option (Purpose × String)
  | .issueAdminBootstrapIfNeeded | .issueAdminBootstrapToken _ => some (.admin, ADMIN_PREFIX ++ m.token)
  | .createBootstrapToken req => some (.join, req.text m.token)
  | _ => none

def PurposeRules (K : Site) (a : Activity) (h : History) : Op → Prop
  | .createBootstrapToken t => ∃ m p x, (⟨.mint, m⟩ : Entry Op Op.Resp) ∈ h ∧
      a.issue m = some (p, x) ∧ t.tokenDigest = K.sha256Hex x
  | .consumeBootstrapToken token _ => hasAdminPrefix token = true
  | _ => True

/-- A bootstrap that succeeds has consumed a token. -/
def OpensWith (K : Site) (a : Activity) (out : Response) (h : History) : Prop :=
  IsBootstrap a → out.reply = .redirect (K.abs "/") → Consumed h

section Conduct

variable {K : Site} {r : Request} {h : History} {a : Activity}

theorem limits_purpose (h : History) (op : Op) (ho : op.limits = true) : PurposeRules K a h op := by
  cases op <;> trivial

theorem clears_purpose (h : History) (op : Op) (ho : op.clears = true) : PurposeRules K a h op := by
  cases op <;> trivial

/-- What the typed token must look like for a bootstrap to go on. -/
theorem matched_prefix {otpFull : String} :
    Obeys (PurposeRules K a) (fun x _ => match x with
      | .error response => response.reply ≠ .redirect (K.abs "/")
      | .ok token => hasAdminPrefix token = true) (matchBootstrapToken K r otpFull) h := by
  unfold matchBootstrapToken
  refine obeys_ite (fun _ => ?_) fun hp => ?_
  · exact obeys_bind (obeys_of_uses (uses_recordLoginFailure fun _ ho => ho) limits_purpose)
      fun _ _ _ hr => by cases hr
  · apply obeys_step trivial
    intro x
    cases x with
    | error e => exact fun hr => by cases hr
    | ok tokens =>
      apply obeys_step trivial
      intro now
      refine obeys_ite (fun _ => ?_) fun _ => ?_
      · exact obeys_bind (obeys_of_uses (uses_recordLoginFailure fun _ ho => ho) limits_purpose)
          fun _ _ _ hr => by cases hr
      · change hasAdminPrefix (trim otpFull) = true
        simp only [Bool.or_eq_true, Bool.not_eq_true', not_or, Bool.not_eq_false] at hp
        exact hp.1

theorem createAdmin_purpose {token : String} {user : User} (hp : hasAdminPrefix token = true) :
    Obeys (PurposeRules K a) (fun x h' => match x with
      | .error _ => True
      | .ok _ => Consumed h') (consumeBootstrapAndCreateAdmin K token user) h := by
  unfold consumeBootstrapAndCreateAdmin
  apply obeys_step hp
  intro x
  cases x with
  | error e => trivial
  | ok u =>
    have hc : Consumed (⟨.consumeBootstrapToken token user.username, .ok ()⟩ :: h) :=
      ⟨token, user.username, .head _⟩
    apply obeys_step trivial
    intro x
    cases x with
    | error e => trivial
    | ok u =>
      apply obeys_step trivial
      intro x
      cases x with
      | error e => trivial
      | ok found =>
        cases found with
        | none => trivial
        | some role =>
          apply obeys_step trivial
          intro x
          cases x with
          | error e => trivial
          | ok u =>
            apply obeys_step trivial
            intro m
            apply obeys_step trivial
            intro createdAt
            apply obeys_step trivial
            intro base
            apply obeys_step trivial
            intro x
            cases x with
            | error e => trivial
            | ok u =>
              apply obeys_step trivial
              intro now
              apply obeys_step trivial
              intro x
              exact consumed_later hc (List.suffix_append [_, _, _, _, _, _, _, _, _] _)

theorem error_reply (e : BootstrapAdminError) : e.response.reply ≠ .redirect (K.abs "/") := by
  cases e <;> exact fun hr => by cases hr

theorem bootstrap_purpose (form : BootstrapForm) :
    Obeys (PurposeRules K a) (OpensWith K a) (bootstrap K r form) [] := by
  have failed {status : ℕ} {message : String} {h : History} :
      OpensWith K a (bootstrapFailed status message) h := fun _ hr => by cases hr
  refine obeys_ite (fun _ => failed) fun _ => ?_
  apply obeys_step trivial
  intro x
  cases x with
  | error e => exact failed
  | ok count =>
    refine obeys_ite (fun _ => failed) fun _ => ?_
    apply obeys_bind (obeys_of_uses (uses_checkRateLimitCustom fun _ ho => ho) limits_purpose)
    intro x h _
    cases x with
    | error e => exact failed
    | ok granted =>
      cases granted with
      | false => exact failed
      | true =>
        dsimp only
        refine obeys_bind matched_prefix ?_
        intro x h hp
        cases x with
        | error response => exact fun _ hr => absurd hr hp
        | ok token =>
          refine obeys_ite (fun _ => failed) fun _ => obeys_ite (fun _ => failed) fun _ => ?_
          apply obeys_step trivial
          intro hashed
          cases hashed with
          | none => exact failed
          | some hash =>
            apply obeys_step trivial
            intro m
            apply obeys_step trivial
            intro now
            apply obeys_bind (createAdmin_purpose hp)
            intro x h hc
            cases x with
            | error e => exact fun _ hr => absurd hr (error_reply e)
            | ok token =>
              apply obeys_bind (obeys_of_uses (uses_recordLoginSuccess fun _ ho => ho) clears_purpose)
              intro _ h' hg _ _
              exact consumed_later hc hg.suffix

theorem issueIfNeeded_purpose : Obeys (PurposeRules K .issueAdminBootstrapIfNeeded)
    (fun _ _ => True) (issueAdminBootstrapIfNeeded K) [] := by
  unfold issueAdminBootstrapIfNeeded
  apply obeys_step trivial
  intro x
  cases x with
  | error e => trivial
  | ok existing =>
    apply obeys_step trivial
    intro now
    refine obeys_ite (fun _ => trivial) fun _ => ?_
    apply obeys_step trivial
    intro m
    apply obeys_step trivial
    intro base
    apply obeys_step ⟨m, .admin, _, .tail _ (.head _), rfl, rfl⟩
    intro x
    cases x <;> trivial

theorem issue_purpose {hours : ℤ} : Obeys (PurposeRules K (.issueAdminBootstrapToken hours))
    (fun _ _ => True) (issueAdminBootstrapToken K hours) [] := by
  unfold issueAdminBootstrapToken
  apply obeys_step trivial
  intro m
  apply obeys_step trivial
  intro now
  dsimp only
  split
  · trivial
  · apply obeys_step ⟨m, .admin, _, .tail _ (.head _), rfl, rfl⟩
    intro x
    cases x <;> trivial

theorem createBootstrapToken_purpose {req : JoinTokenRequest} :
    Obeys (PurposeRules K (.createBootstrapToken req)) (fun _ _ => True)
      (createBootstrapToken K req) [] := by
  unfold createBootstrapToken
  cases req.refusal with
  | some message => trivial
  | none =>
    apply obeys_step trivial
    intro m
    apply obeys_step trivial
    intro now
    dsimp only
    split
    · trivial
    · apply obeys_step ⟨m, .join, _, .tail _ (.head _), rfl, rfl⟩
      intro x
      cases x with
      | error e => trivial
      | ok u =>
        apply obeys_step trivial
        intro x
        cases x with
        | ok u => trivial
        | error e => exact obeys_step trivial fun _ => trivial

theorem purposes_disciplined : (dashboard K).Disciplined (fun _ a => PurposeRules K a)
    fun _ a => OpensWith K a := by
  intro p a
  cases a with
  | bootstrap r form => exact bootstrap_purpose form
  | issueAdminBootstrapIfNeeded => exact obeys_conseq issueIfNeeded_purpose fun _ _ _ hb => hb.elim
  | issueAdminBootstrapToken hours => exact obeys_conseq issue_purpose fun _ _ _ hb => hb.elim
  | createBootstrapToken req =>
    exact obeys_conseq createBootstrapToken_purpose fun _ _ _ hb => hb.elim
  | _ =>
    refine obeys_conseq (program_obeys fun h op ho => ?_) fun _ _ _ hb => hb.elim
    cases op <;> trivial

end Conduct

section Tokens

variable {K : Site} {ch : Choice} {op : Op} {r : op.Resp} {w w' : World} {token usedBy : String}
  {worker : Worker} {credential : WorkerOperationalCredential} {a : Except StoreError Unit}
  {t : BootstrapToken}

theorem enroll_cases {reg reg' : Registry} {now : ℤ} {digest : String} {b : Backend}
    (h : byBackend (Enrolment.MemStore.enrollWorker reg now digest usedBy worker credential)
      (Enrolment.PgStore.enrollWorker reg now digest usedBy worker credential) b = (a, reg')) :
    (∃ e, a = .error e ∧ reg' = reg) ∨
      a = .ok () ∧ reg' = reg.enrolled digest usedBy now worker credential := by
  cases b with
  | mem =>
    simp only [byBackend, Enrolment.MemStore.enrollWorker] at h
    split at h
    · cases h
      exact .inl ⟨_, rfl, rfl⟩
    · split_ifs at h
      · cases h
        exact .inl ⟨_, rfl, rfl⟩
      · cases h
        exact .inl ⟨_, rfl, rfl⟩
      · cases h
        exact .inl ⟨_, rfl, rfl⟩
      · cases h
        exact .inr ⟨rfl, rfl⟩
  | pg =>
    simp only [byBackend] at h
    rcases enrollPg_cases (r := reg) now digest usedBy worker credential with ⟨e, he⟩ | ⟨he, -⟩
    · rw [he] at h
      cases h
      exact .inl ⟨e, rfl, rfl⟩
    · rw [he] at h
      cases h
      exact .inr ⟨rfl, rfl⟩

theorem exec_enroll
    (h : exec K ch (.enrollWorker token usedBy worker credential) w = some (a, w')) :
    (∃ e, a = .error e ∧ w' = w) ∨ a = .ok () ∧ w' = { w with
      registry := w.registry.enrolled (K.sha256Hex token) usedBy w.now worker credential } := by
  rcases attempt_cases (Option.some.inj h) with ⟨e, -, rfl, rfl⟩ | ⟨-, h⟩
  · exact .inl ⟨e, rfl, rfl⟩
  · generalize hr : byBackend _ _ K.backend = r at h
    obtain ⟨x, reg'⟩ := r
    cases h
    rcases enroll_cases hr with ⟨e, rfl, rfl⟩ | ⟨rfl, rfl⟩
    · exact .inl ⟨e, rfl, rfl⟩
    · exact .inr ⟨rfl, rfl⟩

theorem used_others {reg : Registry} {digest x : String} {now : ℤ} (hx : x ≠ digest) :
    (reg.useToken digest usedBy now).tokens.get x = reg.tokens.get x := by
  change (reg.tokens.modify digest (fun t => t.used usedBy now) fun t => t.used_digest usedBy now).get x = _
  exact Keyed.get_modify_ne hx

/-- The use of a token leaves the others alone. -/
theorem enrolled_others {x : String}
    (h : exec K ch (.enrollWorker token usedBy worker credential) w = some (a, w'))
    (hx : x ≠ K.sha256Hex token) : w'.registry.tokens.get x = w.registry.tokens.get x := by
  rcases exec_enroll h with ⟨e, -, rfl⟩ | ⟨-, rfl⟩
  · rfl
  · exact used_others hx

theorem consumed_others {x : String}
    (h : exec K ch (.consumeBootstrapToken token usedBy) w = some (a, w'))
    (hx : x ≠ K.sha256Hex token) : w'.registry.tokens.get x = w.registry.tokens.get x := by
  rcases exec_consumeToken h with ⟨e, -, rfl⟩ | ⟨-, rfl, -⟩
  · rfl
  · exact used_others hx

theorem used_row {reg : Registry} {digest : String} {now : ℤ}
    (ht : t ∈ (reg.useToken digest usedBy now).tokens.rows) :
    ∃ t₀ ∈ reg.tokens.rows, t₀.tokenDigest = t.tokenDigest := by
  obtain ⟨t₀, ht₀, rfl⟩ := List.mem_map.mp ht
  refine ⟨t₀, ht₀, ?_⟩
  dsimp only
  split
  · rfl
  · rfl

/-- Where a token of the table after a call comes from. -/
theorem exec_rows (h : exec K ch op w = some (r, w')) (ht : t ∈ w'.registry.tokens.rows) :
    (∃ t₀ ∈ w.registry.tokens.rows, t₀.tokenDigest = t.tokenDigest) ∨
      (⟨op, r⟩ : Entry Op Op.Resp) = ⟨.createBootstrapToken t, .ok ()⟩ := by
  cases hop : op.onRegistry with
  | false =>
    rw [(exec_frame h).registry hop] at ht
    exact .inl ⟨t, ht, rfl⟩
  | true =>
    cases op with
    | createBootstrapToken x =>
      rcases attempt_cases (Option.some.inj h) with ⟨e, -, -, rfl⟩ | ⟨-, h⟩
      · exact .inl ⟨t, ht, rfl⟩
      · have put (he : ((.ok () : Except StoreError Unit), { w with registry :=
            { w.registry with tokens := w.registry.tokens.put x } }) = (r, w')) :
            (∃ t₀ ∈ w.registry.tokens.rows, t₀.tokenDigest = t.tokenDigest) ∨
              (⟨.createBootstrapToken x, r⟩ : Entry Op Op.Resp) = ⟨.createBootstrapToken t, .ok ()⟩ := by
          cases he
          rcases List.mem_append.mp ht with ht | ht
          · exact .inl ⟨t, (List.mem_filter.mp ht).1, rfl⟩
          · rw [List.mem_singleton.mp ht]
            exact .inr rfl
        cases hb : K.backend with
        | mem =>
          simp only [hb, byBackend, MemStore.createBootstrapToken] at h
          split_ifs at h
          · cases h
            exact .inl ⟨t, ht, rfl⟩
          · exact put h
        | pg =>
          simp only [hb, byBackend, PgStore.createBootstrapToken] at h
          split_ifs at h
          · cases h
            exact .inl ⟨t, ht, rfl⟩
          · exact put h
    | revokeBootstrapToken digest =>
      rcases attempt_cases (Option.some.inj h) with ⟨e, -, -, rfl⟩ | ⟨-, h⟩
      · exact .inl ⟨t, ht, rfl⟩
      · cases h
        exact .inl ⟨t, (List.mem_filter.mp ht).1, rfl⟩
    | consumeBootstrapToken token usedBy =>
      rcases exec_consumeToken h with ⟨e, -, rfl⟩ | ⟨-, rfl, -⟩
      · exact .inl ⟨t, ht, rfl⟩
      · exact .inl (used_row ht)
    | enrollWorker token usedBy worker credential =>
      rcases exec_enroll h with ⟨e, -, rfl⟩ | ⟨-, rfl⟩
      · exact .inl ⟨t, ht, rfl⟩
      · exact .inl (used_row ht)
    | _ => cases hop

theorem happen_rows {b : Backend} {e : Event} (ht : t ∈ (happen b w e).registry.tokens.rows) :
    t ∈ w.registry.tokens.rows := by
  cases e with
  | revokeBootstrapToken digest => exact (List.mem_filter.mp ht).1
  | _ => exact ht

theorem usable_earlier {now later : ℤ} (hn : now ≤ later) (h : t.isUsable later = true) :
    t.isUsable now = true := by
  unfold BootstrapToken.isUsable at h ⊢
  split_ifs at h ⊢ with hu
  cases he : t.expiresAt with
  | none => rfl
  | some d =>
    rw [he] at h
    simp only [Bool.not_eq_true', decide_eq_false_iff_not] at h ⊢
    omega

theorem adminPrefix_append (s : String) : hasAdminPrefix (ADMIN_PREFIX ++ s) = true := by
  unfold hasAdminPrefix
  rw [String.toList_append]
  exact List.isPrefixOf_iff_prefix.mpr (List.prefix_append _ _)

end Tokens

/-- The text of a token that was issued, and what for. -/
def IssuedFor (K : Site) (c : AccountConfig) (p : Purpose) (x : String) : Prop :=
  ∃ k l t th m, k :: l <:+ c.log ∧ k.entry = ⟨.createBootstrapToken t, .ok ()⟩ ∧
    t.tokenDigest = K.sha256Hex x ∧ c.threads[k.thread]? = some th ∧
    (⟨.mint, m⟩ : Entry Op Op.Resp) ∈ history l k.thread ∧ th.act.issue m = some (p, x)

/-- No other text that was issued has its digest. -/
def Unlike (K : Site) (c : AccountConfig) (y : String) : Prop :=
  ∀ p x, IssuedFor K c p x → K.sha256Hex x = K.sha256Hex y → x = y

def UsableAdmin (K : Site) (c : AccountConfig) : Prop :=
  ∃ t ∈ c.state.registry.tokens.rows, t.isUsable c.state.now = true ∧
    ∃ x, IssuedFor K c .admin x ∧ t.tokenDigest = K.sha256Hex x

def SeparateAt (K : Site) (c : AccountConfig) (i : ℕ) (ch : Choice) (a : Activity) : Op → Prop
  | .enrollWorker token _ _ _ => hasAdminPrefix token = false ∧ Unlike K c token
  | .consumeBootstrapToken token _ => Unlike K c token
  | .createBootstrapToken t => (∀ m x, (⟨.mint, m⟩ : Entry Op Op.Resp) ∈ history c.log i →
        a.issue m = some (.join, x) → hasAdminPrefix x = false) ∧
      (a = .issueAdminBootstrapIfNeeded →
        ch.fault = none ∧ c.state.registry.tokens.contains t.tokenDigest = false)
  | .listBootstrapTokens => a = .issueAdminBootstrapIfNeeded → ch.fault = none ∧
      ∀ t ∈ c.state.registry.tokens.rows, t.isUsable c.state.now = true →
        ∀ x, IssuedFor K c .join x → t.tokenDigest ≠ K.sha256Hex x
  | _ => True

/-- No worker comes with the text of an administrator's token, and no token is issued for workers
that looks like one. No two texts have one digest. Who issues a token if one is needed finds no
usable token of a worker, and nothing that it calls fails. -/
def Separate (K : Site) (c : AccountConfig) : AccountAction → Prop
  | .run i ch => ∀ op, c.next i = some op → ∀ th, c.threads[i]? = some th →
      SeparateAt K c i ch th.act op
  | _ => True

section Runs

variable {K : Site} {c₀ c c' : AccountConfig} {cond : AccountConfig → AccountAction → Prop} {i : ℕ}
  {p : Purpose} {x y : String} {ch : Choice} {out : Response}

theorem IssuedFor.later (hi : IssuedFor K c p x) (h : (dashboard K).Reaches cond c c') :
    IssuedFor K c' p x := by
  obtain ⟨k, l, t, th, m, hk, he, hd, hth, hm, hx⟩ := hi
  obtain ⟨th', hth', -, ha⟩ := h.thread hth
  exact ⟨k, l, t, th', m, hk.trans h.log_suffix, he, hd, hth', hm, ha ▸ hx⟩

/-- What is issued for workers does not look like a token of an administrator. -/
theorem join_unprefixed (h₀ : Fresh c₀) (h : (dashboard K).Reaches (Separate K) c₀ c)
    (hi : IssuedFor K c .join x) : hasAdminPrefix x = false := by
  obtain ⟨k, l, t, th, m, hk, he, -, hth, hm, hx⟩ := hi
  obtain ⟨c₁, c₂, ch, h₁, hcond, hs, rfl, ⟨ran, -, -⟩, h₂⟩ := h.at_call h₀ hk
  obtain ⟨-, hact⟩ := ran.still h₂ hth
  have hc : SeparateAt K c₁ k.thread ch th.act k.op := hact ▸ hcond k.op ran.next _ ran.was
  rw [show k.op = .createBootstrapToken t from congrArg Entry.op he] at hc
  exact hc.1 m x hm hx

theorem admin_prefixed (hi : IssuedFor K c .admin x) : hasAdminPrefix x = true := by
  obtain ⟨k, l, t, th, m, -, -, -, -, -, hx⟩ := hi
  cases hact : th.act with
  | issueAdminBootstrapIfNeeded =>
    rw [hact] at hx
    cases hx
    exact adminPrefix_append m.token
  | issueAdminBootstrapToken hours =>
    rw [hact] at hx
    cases hx
    exact adminPrefix_append m.token
  | _ =>
    rw [hact] at hx
    cases hx

/-- Every token of the table was issued. -/
def AllIssued (K : Site) (c : AccountConfig) : Prop :=
  ∀ t ∈ c.state.registry.tokens.rows, ∃ p x, IssuedFor K c p x ∧ t.tokenDigest = K.sha256Hex x

theorem allIssued (h₀ : Fresh c₀) (he : c₀.state.registry.tokens = .empty)
    (h : (dashboard K).Reaches cond c₀ c) : AllIssued K c := by
  apply h.invariant (P := AllIssued K)
  · intro t ht
    rw [he] at ht
    cases ht
  · intro c a c' hr ha hs ih t ht
    have hstep : (dashboard K).Reaches cond c c' := .single ha hs
    have old {t₀ : BootstrapToken} (ht₀ : t₀ ∈ c.state.registry.tokens.rows)
        (hd : t₀.tokenDigest = t.tokenDigest) :
        ∃ p x, IssuedFor K c' p x ∧ t.tokenDigest = K.sha256Hex x := by
      obtain ⟨p, x, hi, hx⟩ := ih t₀ ht₀
      exact ⟨p, x, hi.later hstep, hd ▸ hx⟩
    cases a with
    | start q a => exact old (start_state hs ▸ ht) rfl
    | env e =>
      rw [env_state hs] at ht
      exact old (happen_rows ht) rfl
    | run i ch =>
      obtain ⟨op, ⟨ran⟩⟩ := step_run hs
      rcases exec_rows ran.done ht with ⟨t₀, ht₀, hd⟩ | he
      · exact old ht₀ hd
      · obtain ⟨act, hact, hl⟩ : ∃ act, act = ran.act ∧ PurposeRules K act (history c.log i) op :=
          ⟨_, rfl, ran.licensed purposes_disciplined h₀ hr⟩
        rw [show op = .createBootstrapToken t from congrArg Entry.op he] at hl
        obtain ⟨m, p, x, hm, hx, hd⟩ := hl
        rw [hact] at hx
        refine ⟨p, x, ⟨⟨i, ran.party, op, ran.resp⟩, c.log, t, _, m, ?_, he, hd, ran.after.1, hm, hx⟩, hd⟩
        rw [ran.log]

theorem enroll_separate (hx : Separate K c (.run i ch))
    (hs : (dashboard K).step c (.run i ch) = some c') {token usedBy : String} {worker : Worker}
    {credential : WorkerOperationalCredential}
    (hn : c.next i = some (.enrollWorker token usedBy worker credential))
    (hi : IssuedFor K c .admin y) : y ≠ token ∧
      c'.state.registry.tokens.get (K.sha256Hex y) = c.state.registry.tokens.get (K.sha256Hex y) := by
  obtain ⟨op, ⟨ran⟩⟩ := step_run hs
  have hop : op = .enrollWorker token usedBy worker credential :=
    Option.some.inj (ran.next.symm.trans hn)
  subst hop
  obtain ⟨hstart, hunlike⟩ := hx _ hn _ ran.was
  have hne : y ≠ token := by
    rintro rfl
    rw [admin_prefixed hi] at hstart
    cases hstart
  exact ⟨hne, enrolled_others ran.done fun he => hne (hunlike _ _ hi he)⟩

theorem bootstrap_separate (h₀ : Fresh c₀) (h : (dashboard K).Reaches (Separate K) c₀ c)
    (hx : Separate K c (.run i ch)) (hs : (dashboard K).step c (.run i ch) = some c')
    {token usedBy : String} (hn : c.next i = some (.consumeBootstrapToken token usedBy))
    (hi : IssuedFor K c .join y) : y ≠ token ∧
      c'.state.registry.tokens.get (K.sha256Hex y) = c.state.registry.tokens.get (K.sha256Hex y) := by
  obtain ⟨op, ⟨ran⟩⟩ := step_run hs
  have hop : op = .consumeBootstrapToken token usedBy := Option.some.inj (ran.next.symm.trans hn)
  subst hop
  have hunlike := hx _ hn _ ran.was
  have hstart : hasAdminPrefix token = true := ran.licensed purposes_disciplined h₀ h
  have hne : y ≠ token := by
    rintro rfl
    rw [join_unprefixed h₀ h hi] at hstart
    cases hstart
  exact ⟨hne, consumed_others ran.done fun he => hne (hunlike _ _ hi he)⟩

/-- What the activity has seen, and has answered to it. -/
theorem issueIfNeeded_yields {h : History} (hy : Yields (issueAdminBootstrapIfNeeded K) [] out h) :
    (∃ m t h₁, out.reply = .issued (some (ADMIN_PREFIX ++ m.token)) ∧
      h = ⟨.createBootstrapToken t, .ok ()⟩ :: h₁ ∧ ⟨.mint, m⟩ ∈ h₁ ∧
      t.tokenDigest = K.sha256Hex (ADMIN_PREFIX ++ m.token)) ∨
    (∃ e, out.reply = .refused e ∧ (⟨.listBootstrapTokens, .error e⟩ ∈ h ∨
      ∃ t, ⟨.createBootstrapToken t, .error e⟩ ∈ h)) ∨
    ∃ rows now, out.reply = .issued none ∧
      h = [⟨.readClock, now⟩, ⟨.listBootstrapTokens, .ok rows⟩] ∧ ∃ t ∈ rows, t.isUsable now = true := by
  unfold issueAdminBootstrapIfNeeded at hy
  obtain ⟨x, hy⟩ := yields_step hy
  cases x with
  | error e =>
    cases hy
    exact .inr (.inl ⟨e, rfl, .inl (.head _)⟩)
  | ok rows =>
    obtain ⟨now, hy⟩ := yields_step hy
    split_ifs at hy with hany
    · cases hy
      exact .inr (.inr ⟨rows, now, rfl, rfl, List.any_eq_true.mp hany⟩)
    · obtain ⟨m, hy⟩ := yields_step hy
      obtain ⟨base, hy⟩ := yields_step hy
      obtain ⟨x, hy⟩ := yields_step hy
      cases x with
      | error e =>
        cases hy
        exact .inr (.inl ⟨e, rfl, .inr ⟨_, .head _⟩⟩)
      | ok u =>
        cases hy
        exact .inl ⟨m, _, _, rfl, rfl, .tail _ (.head _), rfl⟩

/-- What a thread is told in a run came of a step that met the condition. -/
theorem told_at (h₀ : Fresh c₀) (h : (dashboard K).Reaches cond c₀ c) {q : Call Response}
    {act : Activity} (ht : c.threads[i]? = some ⟨(), act, q⟩) {e : Entry Op Op.Resp}
    (he : e ∈ history c.log i) : ∃ c₁ c₂ ch, (dashboard K).Reaches cond c₀ c₁ ∧
      cond c₁ (.run i ch) ∧ (dashboard K).step c₁ (.run i ch) = some c₂ ∧
      (dashboard K).Reaches cond c₂ c ∧ c₁.next i = some e.op ∧
      (∃ q₁, c₁.threads[i]? = some ⟨(), act, q₁⟩) ∧
      exec K ch e.op c₁.state = some (e.resp, c₂.state) ∧ e :: history c₁.log i <:+ history c.log i := by
  obtain ⟨k, hk, rfl, rfl⟩ := mem_history.mp he
  obtain ⟨l, hl⟩ := placed hk
  obtain ⟨c₁, c₂, ch, h₁, hx, hs, rfl, ⟨ran, -, hresp⟩, h₂⟩ := h.at_call h₀ hl
  obtain ⟨-, hact⟩ := ran.still h₂ ht
  refine ⟨c₁, c₂, ch, h₁, hx, hs, h₂, ran.next, ⟨_, hact ▸ ran.was⟩, ?_, history_at hl⟩
  change exec K ch k.op c₁.state = some (k.resp, c₂.state)
  rw [← hresp]
  exact ran.done

theorem create_told {t : BootstrapToken} {w w' : World} {e : StoreError} (hf : ch.fault = none)
    (hc : w.registry.tokens.contains t.tokenDigest = false) :
    exec K ch (.createBootstrapToken t) w ≠ some (.error e, w') := by
  intro h
  have h := Option.some.inj h
  unfold attempt at h
  rw [hf] at h
  cases hb : K.backend with
  | mem =>
    simp only [hb, byBackend, MemStore.createBootstrapToken, hc] at h
    cases h
  | pg =>
    simp only [hb, byBackend, PgStore.createBootstrapToken, hc] at h
    cases h

/-- What a thread has been told since. -/
theorem told_since (h : (dashboard K).Reaches cond c c') {t : ℤ}
    (he : (⟨.readClock, t⟩ : Entry Op Op.Resp) ∈ history c'.log i)
    (hn : (⟨.readClock, t⟩ : Entry Op Op.Resp) ∉ history c.log i) : c.state.now ≤ t := by
  obtain ⟨k, hk, hi, hke⟩ := mem_history.mp he
  obtain ⟨l, hl⟩ := placed hk
  have hno : k ∉ c.log := fun hkc => hn (mem_history.mpr ⟨k, hkc, hi, hke⟩)
  apply clock_after h hl hke
  rcases List.suffix_or_suffix_of_suffix hl h.log_suffix with hs | hs
  · exact absurd (hs.subset List.mem_cons_self) hno
  · rcases List.suffix_cons_iff.mp hs with heq | hs
    · exact absurd (heq ▸ List.mem_cons_self) hno
    · exact hs

/-- Who gets no token has found a usable one of an administrator. -/
theorem issued_unless_usable (h₀ : Fresh c₀) (he : c₀.state.registry.tokens = .empty)
    (h : (dashboard K).Reaches (Separate K) c₀ c)
    (ht : c.threads[i]? = some ⟨(), .issueAdminBootstrapIfNeeded, .ret out⟩) :
    (∃ token, out.reply = .issued (some token)) ∨ ∃ c₁ c₂ ch,
      (dashboard K).Reaches (Separate K) c₀ c₁ ∧ c₁.next i = some .listBootstrapTokens ∧
      (dashboard K).step c₁ (.run i ch) = some c₂ ∧ (dashboard K).Reaches (Separate K) c₂ c ∧
      UsableAdmin K c₁ := by
  rcases issueIfNeeded_yields (finished_yields purposes_disciplined h₀ h ht) with
    ⟨m, t, h₁, hi, -⟩ | ⟨e, -, hl | ⟨t, hcreate⟩⟩ | ⟨rows, now, -, hh, t, hrow, husable⟩
  · exact .inl ⟨_, hi⟩
  · obtain ⟨c₁, c₂, ch, -, hx, -, -, hn, ⟨q, hq⟩, hdone, -⟩ := told_at h₀ h ht hl
    obtain ⟨hf, -⟩ := hx _ hn _ hq rfl
    rcases attempt_cases (Option.some.inj hdone) with ⟨e', he', -⟩ | ⟨-, he'⟩
    · rw [hf] at he'
      cases he'
    · cases (Prod.mk.inj he').1
  · obtain ⟨c₁, c₂, ch, -, hx, -, -, hn, ⟨q, hq⟩, hdone, -⟩ := told_at h₀ h ht hcreate
    obtain ⟨hf, hc⟩ := (hx _ hn _ hq).2 rfl
    exact absurd hdone (create_told hf hc)
  · have hl : (⟨.listBootstrapTokens, .ok rows⟩ : Entry Op Op.Resp) ∈ history c.log i := by
      rw [hh]
      exact .tail _ (.head _)
    obtain ⟨c₁, c₂, ch, h₁, hx, hs, h₂, hn, ⟨q, hq⟩, hdone, hafter⟩ := told_at h₀ h ht hl
    obtain ⟨hf, hfree⟩ := hx _ hn _ hq rfl
    rcases attempt_cases (Option.some.inj hdone) with ⟨e', he', -⟩ | ⟨-, hlist⟩
    · rw [hf] at he'
      cases he'
    · cases (Prod.mk.inj hlist).1
      -- The clock is read when the rows have been listed.
      have hclock : c₁.state.now ≤ now := by
        apply told_since ((Reaches.single hx hs).trans h₂) (i := i)
        · rw [hh]
          exact .head _
        · intro hm
          rw [hh] at hafter
          rcases List.suffix_cons_iff.mp hafter with heq | hs
          · cases heq
          · have hlen := hs.length_le
            have hpos := List.length_pos_of_mem hm
            simp only [List.length_cons, List.length_nil] at hlen
            omega
      have hnow := usable_earlier hclock husable
      obtain ⟨p, x, hi, hd⟩ := allIssued h₀ he h₁ t hrow
      cases p with
      | join => exact absurd hd (hfree t hrow hnow x hi)
      | admin => exact .inr ⟨c₁, c₂, ch, h₁, hn, hs, h₂, t, hrow, hnow, x, hi, hd⟩

theorem issued_at {q : Call Response} {act : Activity} {t : BootstrapToken} {m : Minted}
    (ht : c.threads[i]? = some ⟨(), act, q⟩) (new : History) {h : History}
    (hh : history c.log i = new ++ ⟨.createBootstrapToken t, .ok ()⟩ :: h)
    (hm : (⟨.mint, m⟩ : Entry Op Op.Resp) ∈ h) (hx : act.issue m = some (p, x))
    (hd : t.tokenDigest = K.sha256Hex x) : IssuedFor K c p x := by
  have hs : ⟨.createBootstrapToken t, .ok ()⟩ :: h <:+ history c.log i := by
    rw [hh]
    exact List.suffix_append new _
  obtain ⟨k, l, hk, rfl, he, rfl⟩ := of_history_at hs
  exact ⟨k, l, t, _, m, hk, he, hd, ht, hm, hx⟩

/-- The token in the answer was issued, by the program of the administrator's tokens. -/
theorem issued_admin (h₀ : Fresh c₀) (h : (dashboard K).Reaches cond c₀ c)
    (ht : c.threads[i]? = some ⟨(), .issueAdminBootstrapIfNeeded, .ret out⟩)
    (hr : out.reply = .issued (some x)) : IssuedFor K c .admin x := by
  rcases issueIfNeeded_yields (finished_yields purposes_disciplined h₀ h ht) with
    ⟨m, t, h₁, hi, hh, hm, hd⟩ | ⟨e, he, -⟩ | ⟨rows, now, hnone, -⟩
  · rw [hr] at hi
    cases hi
    exact issued_at ht [] hh hm rfl hd
  · rw [hr] at he
    cases he
  · rw [hr] at hnone
    cases hnone

theorem issueJoinToken_yields {h₀ h : History} {bt : BootstrapToken}
    (hy : Yields (issueJoinToken bt x) h₀ out h) :
    (out.reply = .created x ∧ ∃ a, h = ⟨.recordAuditEvent "token.bootstrap.issue", a⟩ ::
      ⟨.createBootstrapToken bt, .ok ()⟩ :: h₀) ∨
    (∃ e, out.reply = .refused e) ∨ ∃ status message, out.reply = .failed status message := by
  obtain ⟨y, hy⟩ := yields_step hy
  cases y with
  | error e =>
    cases hy
    exact .inr (.inl ⟨e, rfl⟩)
  | ok u =>
    obtain ⟨y, hy⟩ := yields_step hy
    cases y with
    | ok u =>
      cases hy
      exact .inl ⟨rfl, _, rfl⟩
    | error e =>
      obtain ⟨y, hy⟩ := yields_step hy
      cases hy
      exact .inr (.inr ⟨_, _, rfl⟩)

theorem issued_join (h₀ : Fresh c₀) (h : (dashboard K).Reaches cond c₀ c) {req : JoinTokenRequest}
    (ht : c.threads[i]? = some ⟨(), .createBootstrapToken req, .ret out⟩)
    (hr : out.reply = .created x) : IssuedFor K c .join x := by
  have hy := finished_yields purposes_disciplined h₀ h ht
  change Yields (createBootstrapToken K req) [] out _ at hy
  generalize hh : history c.log i = h' at hy
  unfold createBootstrapToken at hy
  split at hy
  · cases hy
    cases hr
  · obtain ⟨m, hy⟩ := yields_step hy
    obtain ⟨now, hy⟩ := yields_step hy
    dsimp only at hy
    split at hy
    · cases hy
      cases hr
    · rcases issueJoinToken_yields hy with ⟨hc, a, rfl⟩ | ⟨e, he⟩ | ⟨status, message, he⟩
      · rw [hr] at hc
        cases hc
        exact issued_at ht [_] hh (.tail _ (.head _)) rfl rfl
      · cases hr.symm.trans he
      · cases hr.symm.trans he

end Runs

/-- No worker enrols with a token that was issued for an administrator, nor uses it up; no
bootstrap succeeds with one that was issued for workers; and the administrator's token is issued
whenever there is no usable one. -/
theorem purposes_kept {K : Site} {c₀ c : AccountConfig} (h₀ : Fresh c₀)
    (he : c₀.state.registry.tokens = .empty) (h : (dashboard K).Reaches (Separate K) c₀ c) :
    (∀ i ch c', Separate K c (.run i ch) → (dashboard K).step c (.run i ch) = some c' →
      (∀ token usedBy worker credential x,
        c.next i = some (.enrollWorker token usedBy worker credential) → IssuedFor K c .admin x →
          x ≠ token ∧ c'.state.registry.tokens.get (K.sha256Hex x) =
            c.state.registry.tokens.get (K.sha256Hex x)) ∧
      ∀ token usedBy x, c.next i = some (.consumeBootstrapToken token usedBy) →
        IssuedFor K c .join x → x ≠ token ∧ c'.state.registry.tokens.get (K.sha256Hex x) =
          c.state.registry.tokens.get (K.sha256Hex x)) ∧
      (∀ i r form out, c.threads[i]? = some ⟨(), .bootstrap r form, .ret out⟩ →
        out.reply = .redirect (K.abs "/") → Consumed (history c.log i)) ∧
      ∀ i out, c.threads[i]? = some ⟨(), .issueAdminBootstrapIfNeeded, .ret out⟩ →
        (∃ token, out.reply = .issued (some token)) ∨ ∃ c₁ c₂ ch,
          (dashboard K).Reaches (Separate K) c₀ c₁ ∧ c₁.next i = some .listBootstrapTokens ∧
          (dashboard K).step c₁ (.run i ch) = some c₂ ∧ (dashboard K).Reaches (Separate K) c₂ c ∧
          UsableAdmin K c₁ := by
  refine ⟨fun i ch c' hx hs => ⟨fun token usedBy worker credential x hn hi => ?_,
    fun token usedBy x hn hi => ?_⟩, fun i r form out ht hr => ?_, fun i out ht => ?_⟩
  · exact enroll_separate hx hs hn hi
  · exact bootstrap_separate h₀ h hx hs hn hi
  · exact returned purposes_disciplined h₀ h ht trivial hr
  · exact issued_unless_usable h₀ he h ht

section Example

def unfounded : World := { roles := [⟨⟨7⟩, "admin"⟩] }

def joining (token : String) : Activity :=
  .joinWorker token "w" { id := ⟨1⟩, name := "w", registeredAt := 0, incarnationStartedAt := 0 }
    { workerId := ⟨1⟩, credentialDigest := "c", issuedAt := 0 }

/-- A worker takes the administrator's token, and a token for workers gets what it is to be put in
front. -/
def mixedRun : List AccountAction :=
  .start () .issueAdminBootstrapIfNeeded :: calls 0 5 { token := "aaaaaaaaaa", uuid := 1 } ++
    .start () (joining "fleet_boot_aaaaaaaaaa") :: calls 1 1 ++
    .start () (.createBootstrapToken { tokenPrefix := "fleet_boot" }) ::
      calls 2 4 { token := "bbbbbbbbbb", uuid := 2 } ++ [.start () .issueAdminBootstrapIfNeeded]

def mixedConfig : AccountConfig := (dashboard plainSite).after (started unfounded) mixedRun

def mixedRest : List AccountAction :=
  calls 3 2 ++ .start () (founding "fleet_boot_bbbbbbbbbb" "bob@fleet.dev") ::
    calls 4 7 { hashed := some "h", token := "u", uuid := 3 } ++ calls 4 16 { token := "v", uuid := 4 }

def mixedEnd : AccountConfig := (dashboard plainSite).after mixedConfig mixedRest

def issuingReply (c : AccountConfig) (i : ℕ) : Option (Purpose × Reply) :=
  match c.threads[i]? with
  | some ⟨_, .issueAdminBootstrapIfNeeded, .ret out⟩ => some (.admin, out.reply)
  | some ⟨_, .createBootstrapToken _, .ret out⟩ => some (.join, out.reply)
  | _ => none

theorem issuing_admin {c : AccountConfig} {i : ℕ} {r : Reply}
    (h : issuingReply c i = some (.admin, r)) : ∃ out,
      c.threads[i]? = some ⟨(), .issueAdminBootstrapIfNeeded, .ret out⟩ ∧ out.reply = r := by
  unfold issuingReply at h
  split at h
  · next out ht =>
    cases h
    exact ⟨out, ht, rfl⟩
  · cases h
  · cases h

theorem issuing_join {c : AccountConfig} {i : ℕ} {r : Reply}
    (h : issuingReply c i = some (.join, r)) : ∃ req out,
      c.threads[i]? = some ⟨(), .createBootstrapToken req, .ret out⟩ ∧ out.reply = r := by
  unfold issuingReply at h
  split at h
  · cases h
  · next req out ht =>
    cases h
    exact ⟨req, out, ht, rfl⟩
  · cases h

theorem purposes_mixed : (dashboard plainSite).Reaches always (started unfounded) mixedConfig ∧
    (dashboard plainSite).Reaches always mixedConfig mixedEnd ∧
    IssuedFor plainSite mixedConfig .admin "fleet_boot_aaaaaaaaaa" ∧
    replyOf mixedConfig 1 = some .enrolled ∧
    (mixedConfig.state.registry.tokens.get "fleet_boot_aaaaaaaaaa").map BootstrapToken.useCount =
      some 1 ∧
    IssuedFor plainSite mixedConfig .join "fleet_boot_bbbbbbbbbb" ∧
    (mixedConfig.state.registry.tokens.rows.filter fun t => t.isUsable mixedConfig.state.now).map
      BootstrapToken.tokenDigest = ["fleet_boot_bbbbbbbbbb"] ∧
    issuingReply mixedEnd 3 = some (.admin, .issued none) ∧
    replyOf mixedEnd 4 = some (.redirect "/") ∧
    (mixedEnd.state.registry.tokens.get "fleet_boot_bbbbbbbbbb").map BootstrapToken.useCount =
      some 1 := by
  have hrun : (dashboard plainSite).Reaches always (started unfounded) mixedConfig :=
    after_reaches mixedRun
  have hadmin : issuingReply mixedConfig 0 = some (.admin, .issued (some "fleet_boot_aaaaaaaaaa")) := by
    decide +kernel
  have hjoin : issuingReply mixedConfig 2 = some (.join, .created "fleet_boot_bbbbbbbbbb") := by
    decide +kernel
  obtain ⟨out, ht, hr⟩ := issuing_admin hadmin
  obtain ⟨req, out', ht', hr'⟩ := issuing_join hjoin
  refine ⟨hrun, after_reaches mixedRest, issued_admin (started_fresh _) hrun ht hr, ?_, ?_,
    issued_join (started_fresh _) hrun ht' hr', ?_, ?_, ?_, ?_⟩
  all_goals decide +kernel

def isNeeded : Activity → Bool
  | .issueAdminBootstrapIfNeeded => true
  | _ => false

def joinText (a : Activity) : Entry Op Op.Resp → Option String
  | ⟨.mint, m⟩ => match a.issue m with
    | some (.join, x) => some x
    | _ => none
  | _ => none

/-- Who looks for a usable token of an administrator finds none of any kind. -/
def apart (c : AccountConfig) : AccountAction → Bool
  | .run i ch =>
    c.threads[i]?.all fun th => match c.next i with
      | some (.enrollWorker token _ _ _) => !hasAdminPrefix token
      | some (.createBootstrapToken t) =>
        ch.fault.isNone && !c.state.registry.tokens.contains t.tokenDigest &&
          (history c.log i).all fun e => !(joinText th.act e).any hasAdminPrefix
      | some .listBootstrapTokens => !isNeeded th.act ||
        ch.fault.isNone && c.state.registry.tokens.rows.all fun t => !t.isUsable c.state.now
      | _ => true
  | _ => true

theorem separate_of_apart {c : AccountConfig} {x : AccountAction} (h : apart c x = true) :
    Separate plainSite c x := by
  cases x with
  | start p a => trivial
  | env e => trivial
  | run i ch =>
    intro op hn th hth
    simp only [apart, hn, hth, Option.all_some] at h
    cases op with
    | enrollWorker token usedBy worker credential =>
      exact ⟨by simpa using h, fun p x _ he => he⟩
    | consumeBootstrapToken token usedBy => exact fun p x _ he => he
    | createBootstrapToken t =>
      simp only [Bool.and_eq_true, Option.isNone_iff_eq_none, Bool.not_eq_true', List.all_eq_true] at h
      obtain ⟨⟨hf, hc⟩, hall⟩ := h
      refine ⟨fun m x hm hx => ?_, fun _ => ⟨hf, hc⟩⟩
      have hno := hall _ hm
      simpa only [joinText, hx, Option.any_some] using hno
    | listBootstrapTokens =>
      intro ha
      simp only [Bool.or_eq_true, Bool.and_eq_true, Option.isNone_iff_eq_none, List.all_eq_true,
        Bool.not_eq_true'] at h
      rcases h with h | ⟨hf, hall⟩
      · rw [ha] at h
        cases h
      · refine ⟨hf, fun t ht hu => ?_⟩
        rw [hall t ht] at hu
        cases hu
    | _ => trivial

/-- Every token is used by whom it was issued for, and then another is needed. -/
def apartRun : List AccountAction :=
  .start () .issueAdminBootstrapIfNeeded :: calls 0 5 { token := "aaaaaaaaaa", uuid := 1 } ++
    .start () (.createBootstrapToken {}) :: calls 1 4 { token := "bbbbbbbbbb", uuid := 2 } ++
    .start () (joining "bbbbbbbbbb") :: calls 2 1 ++
    .start () (founding "fleet_boot_aaaaaaaaaa" "ann@fleet.dev") ::
      calls 3 7 { hashed := some "h", token := "u", uuid := 3 } ++
      calls 3 16 { token := "v", uuid := 4 } ++
    .start () .issueAdminBootstrapIfNeeded :: calls 4 5 { token := "cccccccccc", uuid := 5 }

theorem another_issued : ∃ c : AccountConfig, replyOf c 2 = some .enrolled ∧
    replyOf c 3 = some (.redirect "/") ∧
    replyOf c 4 = some (.issued (some "fleet_boot_cccccccccc")) ∧
    ∀ i r form out, c.threads[i]? = some ⟨(), .bootstrap r form, .ret out⟩ →
      out.reply = .redirect "/" → Consumed (history c.log i) := by
  have hrun : (((dashboard plainSite).replayWhile apart (started unfounded) apartRun).map fun c =>
      (replyOf c 2, replyOf c 3, replyOf c 4)) = some (some .enrolled, some (.redirect "/"),
        some (.issued (some "fleet_boot_cccccccccc"))) := by
    decide +kernel
  obtain ⟨c, hc, hreplies⟩ := Option.map_eq_some_iff.mp hrun
  simp only [Prod.mk.injEq] at hreplies
  refine ⟨c, hreplies.1, hreplies.2.1, hreplies.2.2, ?_⟩
  exact (purposes_kept (started_fresh unfounded) rfl
    ((replayWhile_reaches hc).mono fun c x => separate_of_apart)).2.1

end Example

end FleetOrchestrator.Accounts
