import FleetOrchestrator.Accounts.Rotation

/-! How many administrators the bootstrap makes, and what a bootstrap that fails leaves behind. -/

namespace FleetOrchestrator.Accounts

open Api Core Tables Store Enrolment Interleaving Machine

def Consumed (h : History) : Prop := ∃ token usedBy, Told h (.consumeBootstrapToken token usedBy) (.ok ())

/-- What stops a bootstrap once its token is consumed. -/
inductive Fails : Entry Op Op.Resp → Prop
  | user (u : User) (e : StoreError) : Fails ⟨.createUser u, .error e⟩
  | role (name : String) (e : StoreError) : Fails ⟨.getRoleByName name, .error e⟩
  | noRole (name : String) : Fails ⟨.getRoleByName name, .ok none⟩
  | assign (id : UserId) (role : RoleId) (e : StoreError) : Fails ⟨.assignUserRole id role, .error e⟩
  | session (s : Session) (e : StoreError) : Fails ⟨.createSession s, .error e⟩

def FoundingRules (a : Activity) (h : History) : Op → Prop
  | .createUser _ => Consumed h
  | .assignUserRole _ _ => Told h .countUsers (.ok 0) ∧ (∃ u, Told h (.createUser u) (.ok ())) ∧
      Consumed h ∧ ∀ e ∈ h, e.op.onRoles = false
  | .createSession _ | .updateUserLastLogin _ _ => IsBootstrap a → Consumed h
  | _ => True

/-- A bootstrap that has consumed its token and does not succeed was stopped by a later call. -/
def FoundingEnds (K : Site) (a : Activity) (out : Response) (h : History) : Prop :=
  IsBootstrap a → out.reply ≠ .redirect (K.abs "/") → Consumed h → ∃ e ∈ h, Fails e

section Conduct

variable {K : Site} {r : Request} {h : History} {a : Activity}

theorem limits_founding (h : History) (op : Op) (ho : op.limits = true) : FoundingRules a h op := by
  cases op <;> trivial

theorem clears_founding (h : History) (op : Op) (ho : op.clears = true) : FoundingRules a h op := by
  cases op <;> trivial

/-- Nothing is consumed, and no role is given yet. -/
def Preliminary (op : Op) : Prop :=
  op.onRoles = false ∧ ∀ token usedBy, op ≠ .consumeBootstrapToken token usedBy

theorem limits_preliminary (op : Op) (ho : op.limits = true) : Preliminary op := by
  cases op <;> first | cases ho; done | exact ⟨rfl, fun _ _ he => by cases he⟩

theorem not_consumed (hg : Grew Preliminary [] h) : ¬ Consumed h := by
  rintro ⟨token, usedBy, he⟩
  obtain ⟨new, rfl, hn⟩ := hg
  rw [List.append_nil] at he
  exact (hn _ he).2 token usedBy rfl

theorem founding_early {out : Response} (hg : Grew Preliminary [] h) : FoundingEnds K a out h :=
  fun _ _ hc => absurd hc (not_consumed hg)

theorem preliminary_roles (hg : Grew Preliminary [] h) : ∀ e ∈ h, e.op.onRoles = false := by
  intro e he
  obtain ⟨new, rfl, hn⟩ := hg
  rw [List.append_nil] at he
  exact (hn e he).1

theorem consumed_later {h' : History} (hc : Consumed h) (hs : h <:+ h') : Consumed h' := by
  obtain ⟨token, usedBy, ht⟩ := hc
  exact ⟨token, usedBy, ht.later hs⟩

theorem founding_stopped {out : Response} {e : Entry Op Op.Resp} (he : e ∈ h) (hf : Fails e) :
    FoundingEnds K a out h :=
  fun _ _ _ => ⟨e, he, hf⟩

theorem createAdmin_founding {token : String} {user : User} (hg : Grew Preliminary [] h)
    (hc : Told h .countUsers (.ok 0)) :
    Obeys (FoundingRules a) (fun x h' => match x with
      | .error e => FoundingEnds K a e.response h'
      | .ok _ => True) (consumeBootstrapAndCreateAdmin K token user) h := by
  unfold consumeBootstrapAndCreateAdmin
  apply obeys_step trivial
  intro x
  cases x with
  | error e =>
    intro _ _ hcons
    obtain ⟨token, usedBy, he⟩ := hcons
    rcases List.mem_cons.mp he with he | he
    · cases he
    · exact absurd ⟨token, usedBy, he⟩ (not_consumed hg)
  | ok u =>
    have hcons : Consumed (⟨.consumeBootstrapToken token user.username, .ok ()⟩ :: h) :=
      ⟨token, user.username, .head _⟩
    have later (e : Entry Op Op.Resp) {h : History} (hcons : Consumed h) : Consumed (e :: h) :=
      consumed_later hcons (List.suffix_cons _ _)
    apply obeys_step hcons
    intro x
    cases x with
    | error e => exact founding_stopped (.head _) (.user user e)
    | ok u =>
      apply obeys_step trivial
      intro x
      cases x with
      | error e => exact founding_stopped (.head _) (.role _ e)
      | ok found =>
        cases found with
        | none => exact founding_stopped (.head _) (.noRole _)
        | some role =>
          have hroles := preliminary_roles hg
          refine obeys_step ⟨.tail _ (.tail _ (.tail _ hc)), ⟨user, .tail _ (.head _)⟩,
            later _ (later _ hcons), ?_⟩ ?_
          · simpa [Op.onRoles] using hroles
          · intro x
            cases x with
            | error e => exact founding_stopped (.head _) (.assign _ _ e)
            | ok u =>
              have hdone := later ⟨.assignUserRole user.id role.id, .ok ()⟩ (later
                ⟨.getRoleByName "admin", .ok (some role)⟩ (later ⟨.createUser user, .ok ()⟩ hcons))
              apply obeys_step trivial
              intro m
              apply obeys_step trivial
              intro createdAt
              apply obeys_step trivial
              intro base
              apply obeys_step fun _ => later _ (later _ (later _ hdone))
              intro x
              cases x with
              | error e => exact founding_stopped (.head _) (.session _ e)
              | ok u =>
                apply obeys_step trivial
                intro now
                apply obeys_step fun _ => later _ (later _ (later _ (later _ (later _ hdone))))
                intro x
                trivial

theorem createFirstAdmin_founding {form : BootstrapForm} {token : String}
    (hg : Grew Preliminary [] h) (hc : Told h .countUsers (.ok 0)) :
    Obeys (FoundingRules a) (FoundingEnds K a) (createFirstAdmin K r form token) h := by
  refine obeys_ite (fun _ => founding_early hg) fun _ => ?_
  refine obeys_ite (fun _ => founding_early hg) fun _ => ?_
  have one {op : Op} (ho : Preliminary op) (x : op.Resp) {h : History} (hg : Grew Preliminary [] h) :
      Grew Preliminary [] (⟨op, x⟩ :: h) := .cons ho hg
  apply obeys_step trivial
  intro hashed
  have hg := one ⟨rfl, fun _ _ he => by cases he⟩ hashed hg
  cases hashed with
  | none => exact founding_early hg
  | some hash =>
    apply obeys_step trivial
    intro m
    have hg := one ⟨rfl, fun _ _ he => by cases he⟩ m hg
    apply obeys_step trivial
    intro now
    have hg := one ⟨rfl, fun _ _ he => by cases he⟩ now hg
    apply obeys_bind (createAdmin_founding hg (.tail _ (.tail _ (.tail _ hc))))
    intro x h' hx
    cases x with
    | error e => exact hx
    | ok token =>
      apply obeys_bind (obeys_of_uses (uses_recordLoginSuccess fun _ ho => ho) clears_founding)
      intro _ h'' _ _ hno
      exact absurd rfl hno

theorem bootstrap_founding (form : BootstrapForm) :
    Obeys (FoundingRules a) (FoundingEnds K a) (bootstrap K r form) [] := by
  refine obeys_ite (fun _ => founding_early (.refl [])) fun _ => ?_
  apply obeys_step trivial
  intro x
  have hg : Grew Preliminary [] [(⟨.countUsers, x⟩ : Entry Op Op.Resp)] :=
    .one ⟨rfl, fun _ _ he => by cases he⟩
  cases x with
  | error e => exact founding_early hg
  | ok count =>
    refine obeys_ite (fun _ => founding_early hg) fun hz => ?_
    have hc : Told [(⟨.countUsers, .ok count⟩ : Entry Op Op.Resp)] .countUsers (.ok 0) := by
      obtain rfl : count = 0 := by omega
      exact .head _
    apply obeys_bind (obeys_of_uses (uses_checkRateLimitCustom fun _ ho => ho) limits_founding)
    intro x h hl
    have hg := hg.trans (hl.mono limits_preliminary)
    have hc := hc.later hl.suffix
    cases x with
    | error e => exact founding_early hg
    | ok granted =>
      cases granted with
      | false => exact founding_early hg
      | true =>
        dsimp only
        have hp : Uses Preliminary (matchBootstrapToken K r form.otpFull) :=
          uses_matchBootstrapToken limits_preliminary ⟨rfl, fun _ _ he => by cases he⟩
        have hu : Uses (fun op => op.limits = true ∨ op = .listBootstrapTokens)
            (matchBootstrapToken K r form.otpFull) :=
          uses_matchBootstrapToken (fun _ ho => .inl ho) (.inr rfl)
        have hrules : ∀ (h : History) (op : Op), op.limits = true ∨ op = .listBootstrapTokens →
            FoundingRules a h op := by
          rintro h op (ho | rfl)
          · exact limits_founding h op ho
          · trivial
        refine obeys_bind (obeys_grew (obeys_of_uses hu hrules) hp) ?_
        rintro x h' ⟨-, hg'⟩
        cases x with
        | error response => exact founding_early (hg.trans hg')
        | ok token => exact createFirstAdmin_founding (hg.trans hg') (hc.later hg'.suffix)

theorem founding_disciplined : (dashboard K).Disciplined (fun _ a => FoundingRules a)
    fun _ a => FoundingEnds K a := by
  intro p a
  cases a with
  | bootstrap r form => exact bootstrap_founding form
  | _ =>
    refine obeys_conseq (program_obeys fun h op ho => ?_) fun _ _ _ hb => hb.elim
    cases op <;> first | trivial | exact fun hb => hb.elim

end Conduct

/-- The calls of a bootstrap after the consumption of its token. -/
def Op.completes : Op → Bool
  | .createUser _ | .getRoleByName _ | .assignUserRole _ _ | .createSession _ => true
  | _ => false

/-- The store has no reason to refuse. -/
def World.accepts (K : Site) (w : World) : Op → Prop
  | .createUser u => match K.backend with
    | .mem => ∀ x ∈ w.users.rows, x.username ≠ u.username
    | .pg => PgStore.insertUserRefusal w u = none
  | .getRoleByName name => ∃ r ∈ w.roles, r.name = name
  | .assignUserRole id role => K.backend = .pg →
      w.users.contains id = true ∧ (w.roles.any fun r => r.id = role) = true
  | .createSession s => K.backend = .pg → (w.sessions.rows.any fun x => x.id = s.id) = false ∧
      w.sessions.contains s.tokenHash = false ∧ w.users.contains s.userId = true
  | _ => True

def Bootstraps (c : AccountConfig) (i : ℕ) : Prop :=
  ∃ r form q, c.threads[i]? = some ⟨(), .bootstrap r form, q⟩

/-- Who counts the users finds no other bootstrap at work that has counted none. What follows the
consumption of a token does not fail. The last user is not deleted. -/
def Sole (K : Site) (c : AccountConfig) : AccountAction → Prop
  | .env (.deleteUser id) => ∀ u ∈ c.state.users.rows, u.id = id → ∃ v ∈ c.state.users.rows, v.id ≠ id
  | .run i ch => ∀ op, c.next i = some op →
    (op = .countUsers → ∀ j, Told (history c.log j) .countUsers (.ok 0) → Finished c j) ∧
      (Bootstraps c i → op.completes = true → ch.fault = none ∧ c.state.accepts K op)
  | _ => True

/-- The call makes its user an administrator. -/
def Founds (k : Interleaving.Call Op Op.Resp Unit) : Prop :=
  ∃ id role, k.entry = ⟨.assignUserRole id role, .ok ()⟩

section Users

variable {K : Site} {ch : Choice} {op : Op} {r : op.Resp} {w w' : World} {u : User}

theorem exec_accepted (hf : ch.fault = none) (ha : w.accepts K op)
    (h : exec K ch op w = some (r, w')) : ¬ Fails ⟨op, r⟩ := by
  intro hfail
  have unfaulted {α : Type} {k : Except StoreError α × World} {a : Except StoreError α}
      (h : some (attempt ch w k) = some (a, w')) : k = (a, w') := by
    rcases attempt_cases (Option.some.inj h) with ⟨e, he, -⟩ | ⟨-, h⟩
    · rw [hf] at he
      cases he
    · exact h
  generalize he : (⟨op, r⟩ : Entry Op Op.Resp) = e at hfail
  cases hfail with
  | user u e =>
    cases he
    have h := unfaulted h
    cases hb : K.backend with
    | mem =>
      simp only [World.accepts, hb] at ha
      simp only [hb, byBackend, MemStore.createUser] at h
      rw [if_neg (by simpa using ha)] at h
      cases h
    | pg =>
      simp only [World.accepts, hb] at ha
      simp only [hb, byBackend, PgStore.createUser, ha] at h
      cases h
  | role name e =>
    cases he
    cases unfaulted h
  | noRole name =>
    cases he
    obtain ⟨x, hx, hname⟩ := ha
    have hnone := Except.ok.inj (Prod.mk.inj (unfaulted h)).1
    rw [List.find?_eq_none] at hnone
    exact hnone x hx (by simpa using hname)
  | assign id role e =>
    cases he
    have h := unfaulted h
    cases hb : K.backend with
    | mem =>
      simp only [hb, byBackend, MemStore.assignUserRole] at h
      split_ifs at h <;> cases h
    | pg =>
      obtain ⟨hu, hr⟩ := ha hb
      simp only [hb, byBackend, PgStore.assignUserRole, MemStore.assignUserRole, hu, hr] at h
      rw [if_neg (by simp), if_neg (by simp)] at h
      split_ifs at h <;> cases h
  | session s e =>
    cases he
    have h := unfaulted h
    cases hb : K.backend with
    | mem =>
      simp only [hb, byBackend, MemStore.createSession] at h
      cases h
    | pg =>
      obtain ⟨hid, hhash, hu⟩ := ha hb
      simp only [hb, byBackend, PgStore.createSession, hid, hhash, hu] at h
      cases h

theorem put_rows {t : UserTable} : (t.put u).rows ≠ [] := by
  change _ ++ [u] ≠ []
  simp

theorem modify_rows {id : UserId} {f : User → User} {hf : ∀ u, (f u).id = u.id}
    (hw : w.users.rows ≠ []) : (w.modifyUser id f hf).users.rows ≠ [] := by
  intro he
  exact hw (List.map_eq_nil_iff.mp he)

theorem updated_rows {id : UserId} {f : User → User} {hf : ∀ u, (f u).id = u.id} {b : Backend}
    {a : Except StoreError Unit} (hw : w.users.rows ≠ [])
    (h : byBackend (MemStore.updateUser w id f hf) (PgStore.updateUser w id f hf) b = (a, w')) :
    w'.users.rows ≠ [] := by
  cases b with
  | mem =>
    simp only [byBackend, MemStore.updateUser] at h
    split_ifs at h
    · cases h
      exact modify_rows hw
    · cases h
      exact hw
  | pg =>
    cases h
    exact modify_rows hw

theorem created_rows {b : Backend} {a : Except StoreError Unit}
    (h : byBackend (MemStore.createUser w u) (PgStore.createUser w u) b = (a, w')) :
    (∃ e, a = .error e ∧ w' = w) ∨ a = .ok () ∧ w'.users.rows ≠ [] := by
  cases b with
  | mem =>
    simp only [byBackend, MemStore.createUser] at h
    split_ifs at h
    · cases h
      exact .inl ⟨_, rfl, rfl⟩
    · cases h
      exact .inr ⟨rfl, put_rows⟩
  | pg =>
    simp only [byBackend, PgStore.createUser] at h
    cases hr : PgStore.insertUserRefusal w u with
    | some e =>
      rw [hr] at h
      cases h
      exact .inl ⟨e, rfl, rfl⟩
    | none =>
      rw [hr] at h
      cases h
      exact .inr ⟨rfl, put_rows⟩

theorem exec_created (h : exec K ch (.createUser u) w = some (.ok (), w')) : w'.users.rows ≠ [] := by
  rcases attempt_cases (Option.some.inj h) with ⟨e, -, he, -⟩ | ⟨-, h⟩
  · cases he
  · rcases created_rows h with ⟨e, he, -⟩ | ⟨-, hw⟩
    · cases he
    · exact hw

/-- No call takes the last user away. -/
theorem exec_users (h : exec K ch op w = some (r, w')) (hw : w.users.rows ≠ []) :
    w'.users.rows ≠ [] := by
  cases hop : op.onUsers with
  | false =>
    rw [(exec_frame h).users hop]
    exact hw
  | true =>
    cases op with
    | createUser u =>
      rcases attempt_cases (Option.some.inj h) with ⟨e, -, -, rfl⟩ | ⟨-, h⟩
      · exact hw
      · rcases created_rows h with ⟨e, -, rfl⟩ | ⟨-, hw'⟩
        · exact hw
        · exact hw'
    | updateUserPassword id hash =>
      rcases attempt_cases (Option.some.inj h) with ⟨e, -, -, rfl⟩ | ⟨-, h⟩
      · exact hw
      · unfold World.setPassword at h
        cases hb : K.backend with
        | mem => exact updated_rows (b := .mem) hw (hb ▸ h)
        | pg => exact updated_rows (b := .pg) hw (hb ▸ h)
    | updateUserLastLogin id at_ =>
      rcases attempt_cases (Option.some.inj h) with ⟨e, -, -, rfl⟩ | ⟨-, h⟩
      · exact hw
      · unfold World.setLastLogin at h
        cases hb : K.backend with
        | mem => exact updated_rows (b := .mem) hw (hb ▸ h)
        | pg => exact updated_rows (b := .pg) hw (hb ▸ h)
    | _ => cases hop

end Users

section Runs

variable {K : Site} {c₀ c c₁ c₂ : AccountConfig} {i j : ℕ} {k k' : Interleaving.Call Op Op.Resp Unit}
  {l l' : Log} {out : Response}

def Peopled (c : AccountConfig) : Prop :=
  (∃ k ∈ c.log, ∃ u, k.entry = ⟨.createUser u, .ok ()⟩) → c.state.users.rows ≠ []

/-- Once a user has been created there is a user. -/
theorem peopled (h₀ : Fresh c₀) (h : (dashboard K).Reaches (Sole K) c₀ c) : Peopled c := by
  apply h.invariant (P := Peopled)
  · rintro ⟨k, hk, -⟩
    rw [h₀.log] at hk
    cases hk
  · intro c x c' hr hx hs ih hu
    cases x with
    | start p a =>
      rw [(step_start hs).2.2] at hu
      rw [start_state hs]
      exact ih hu
    | env e =>
      rw [(step_env hs).2.2] at hu
      have hrows := ih hu
      rw [env_state hs]
      cases e with
      | putUser u => exact put_rows
      | deleteUser id =>
        intro hnone
        have hall : ∀ u ∈ c.state.users.rows, u.id = id := by
          intro u hu
          by_contra hne
          have hmem : u ∈ (c.state.users.erase id).rows := List.mem_filter.mpr ⟨hu, by simpa using hne⟩
          rw [show (c.state.users.erase id).rows = [] from hnone] at hmem
          cases hmem
        obtain ⟨u, hu⟩ := List.exists_mem_of_ne_nil _ hrows
        obtain ⟨v, hv, hne⟩ := hx u hu (hall u hu)
        exact hne (hall v hv)
      | _ => exact hrows
    | run i ch =>
      obtain ⟨op, ⟨r⟩⟩ := step_run hs
      obtain ⟨k, hk, u, he⟩ := hu
      rw [r.log] at hk
      rcases List.mem_cons.mp hk with rfl | hk
      · exact exec_created (ran_done r he)
      · exact exec_users r.done (ih ⟨k, hk, u, he⟩)

theorem founds_licence (h₀ : Fresh c₀) (h : (dashboard K).Reaches (Sole K) c₀ c)
    (hk : k :: l <:+ c.log) (hf : Founds k) : Told (history l k.thread) .countUsers (.ok 0) ∧
      (∃ u, Told (history l k.thread) (.createUser u) (.ok ())) ∧
      ∀ e ∈ history l k.thread, e.op.onRoles = false := by
  obtain ⟨id, role, he⟩ := hf
  obtain ⟨th, -, -, hl⟩ := logged_licence founding_disciplined h₀ h hk
  rw [show k.op = .assignUserRole id role from congrArg Entry.op he] at hl
  exact ⟨hl.1, hl.2.1, hl.2.2.2⟩

/-- Behind one administrator there is no other. -/
theorem no_second_admin (h₀ : Fresh c₀) (h : (dashboard K).Reaches (Sole K) c₀ c)
    (hk : k :: l <:+ c.log) (hk' : k' :: l' <:+ c.log) (hf : Founds k) (hf' : Founds k')
    (hs : k :: l <:+ l') : False := by
  obtain ⟨hcount, ⟨u, hu⟩, -⟩ := founds_licence h₀ h hk hf
  obtain ⟨hcount', -, honce⟩ := founds_licence h₀ h hk' hf'
  have hne : k.thread ≠ k'.thread := by
    intro hi
    have hmem := (history_at hs).subset List.mem_cons_self
    rw [hi] at hmem
    have := honce _ hmem
    obtain ⟨id, role, he⟩ := hf
    rw [he] at this
    cases this
  have hkl : l <:+ c.log := (List.suffix_cons k l).trans hk
  have hkl' : l' <:+ c.log := (List.suffix_cons k' l').trans hk'
  obtain ⟨r, hr, hri, hre⟩ := told_logged hcount
  obtain ⟨r', hr', hri', hre'⟩ := told_logged hcount'
  obtain ⟨lr, hlr⟩ := placed hr
  obtain ⟨lr', hlr'⟩ := placed hr'
  rcases ordered (hlr.trans hkl) (hlr'.trans hkl') with ⟨rfl, -⟩ | hb | hb
  · exact hne (hri.symm.trans hri')
  · -- The later count was made when the earlier bootstrap had finished.
    obtain ⟨c₁, c₂, ch, h₁, hx, hstep, rfl, ⟨ran, -, hresp⟩, h₂⟩ := h.at_call h₀ (hlr'.trans hkl')
    have hc₁ : (dashboard K).Reaches (Sole K) c₁ c := (Reaches.single hx hstep).trans h₂
    have htold : Told (history c₁.log k.thread) .countUsers (.ok 0) := by
      have hmem := (history_at hb).subset List.mem_cons_self
      rwa [hre, hri] at hmem
    obtain ⟨p, a, out, hout⟩ := (hx r'.op ran.next).1 (congrArg Entry.op hre') k.thread htold
    have hdone := hc₁.done_before hout hk
    obtain ⟨k₁, hk₁, -, he₁⟩ := told_logged hu
    have hpeople := peopled h₀ h₁ ⟨k₁, hdone.subset (.tail _ hk₁), u, he₁⟩
    have hent : (⟨r'.op, ran.resp⟩ : Entry Op Op.Resp) = ⟨.countUsers, .ok 0⟩ := by
      rw [hresp]
      exact hre'
    have hexec := ran_done ran hent
    rcases attempt_cases (Option.some.inj hexec) with ⟨e, -, he, -⟩ | ⟨-, he⟩
    · cases he
    · have hzero := Except.ok.inj (Prod.mk.inj he).1
      exact hpeople (List.length_eq_zero_iff.mp hzero)
  · obtain ⟨c₁, c₂, ch, h₁, hx, hstep, rfl, ⟨ran, -, -⟩, h₂⟩ := h.at_call h₀ (hlr.trans hkl)
    have hc₁ : (dashboard K).Reaches (Sole K) c₁ c := (Reaches.single hx hstep).trans h₂
    have htold : Told (history c₁.log k'.thread) .countUsers (.ok 0) := by
      have hmem := (history_at hb).subset List.mem_cons_self
      rwa [hre', hri'] at hmem
    obtain ⟨p, a, out, hout⟩ := (hx r.op ran.next).1 (congrArg Entry.op hre) k'.thread htold
    have hbefore : c₁.log <:+ l' :=
      (List.suffix_cons r _).trans (hlr.trans ((List.suffix_cons k l).trans hs))
    have hlen := ((hc₁.done_before hout hk').trans hbefore).length_le
    rw [List.length_cons] at hlen
    omega

theorem Fails.completes {e : Entry Op Op.Resp} (h : Fails e) : e.op.completes = true := by
  cases h <;> rfl

theorem Bootstraps.before {cond : AccountConfig → AccountAction → Prop} {ch : Choice} {op : Op}
    (hb : Bootstraps c i) (ran : (dashboard K).Ran c₁ c₂ i ch op)
    (h : (dashboard K).Reaches cond c₂ c) : Bootstraps c₁ i := by
  obtain ⟨r, form, q, hq⟩ := hb
  obtain ⟨-, hact⟩ := ran.still h hq
  refine ⟨r, form, .call op ran.cont, ?_⟩
  rw [ran.was, ← hact]

/-- Nothing that a bootstrap calls after the consumption of its token fails. -/
theorem nothing_fails (h₀ : Fresh c₀) (h : (dashboard K).Reaches (Sole K) c₀ c)
    (hb : Bootstraps c i) : ∀ e ∈ history c.log i, ¬ Fails e := by
  intro e he hf
  obtain ⟨k, hk, rfl, rfl⟩ := mem_history.mp he
  obtain ⟨l, hl⟩ := placed hk
  obtain ⟨c₁, c₂, ch, h₁, hx, hs, rfl, ⟨ran, -, hresp⟩, h₂⟩ := h.at_call h₀ hl
  obtain ⟨hfault, hacc⟩ := (hx k.op ran.next).2 (hb.before ran h₂) hf.completes
  have hno := exec_accepted hfault hacc ran.done
  rw [hresp] at hno
  exact hno hf

/-- A bootstrap that does not succeed has consumed no token. -/
theorem unsuccessful (h₀ : Fresh c₀) (h : (dashboard K).Reaches (Sole K) c₀ c) {r : Request}
    {form : BootstrapForm} (ht : c.threads[i]? = some ⟨(), .bootstrap r form, .ret out⟩)
    (hno : out.reply ≠ .redirect (K.abs "/")) : ¬ Consumed (history c.log i) := by
  intro hc
  obtain ⟨e, he, hf⟩ := returned founding_disciplined h₀ h ht trivial hno hc
  exact nothing_fails h₀ h ⟨r, form, _, ht⟩ e he hf

/-- What a bootstrap does that has not consumed a token leaves accounts and tokens alone. -/
theorem unconsumed_leaves (h₀ : Fresh c₀) (h : (dashboard K).Reaches (Sole K) c₀ c₁) {ch : Choice}
    (hs : (dashboard K).step c₁ (.run i ch) = some c₂) (hb : Bootstraps c₁ i)
    (hc : ¬ Consumed (history c₂.log i)) : c₂.state.registry = c₁.state.registry ∧
      c₂.state.users = c₁.state.users ∧ c₂.state.userRoles = c₁.state.userRoles ∧
      c₂.state.sessions = c₁.state.sessions := by
  obtain ⟨op, ⟨ran⟩⟩ := step_run hs
  obtain ⟨r, form, q, hq⟩ := hb
  have hact : Activity.bootstrap r form = ran.act :=
    congrArg Thread.act (Option.some.inj (hq.symm.trans ran.was))
  have hframe := exec_frame ran.done
  have hrules := ran.licensed founding_disciplined h₀ h
  have hcalls := ran.licensed calls_disciplined h₀ h
  rw [← hact] at hrules hcalls
  have hafter := ran.after.2
  have hbefore : ¬ Consumed (history c₁.log i) := by
    intro hcons
    refine hc (consumed_later hcons ?_)
    rw [hafter]
    exact List.suffix_cons _ _
  have same (hr : op.onRegistry = false) (hu : op.onUsers = false) (ho : op.onRoles = false)
      (hss : op.onSessions = false) : c₂.state.registry = c₁.state.registry ∧
      c₂.state.users = c₁.state.users ∧ c₂.state.userRoles = c₁.state.userRoles ∧
      c₂.state.sessions = c₁.state.sessions :=
    ⟨hframe.registry hr, hframe.users hu, hframe.userRoles ho, hframe.sessions hss⟩
  generalize hresp : ran.resp = resp at hafter
  have hdone := ran.done
  rw [hresp] at hdone
  cases op with
  | consumeBootstrapToken token usedBy =>
    rcases exec_consumeToken hdone with ⟨e, -, hw⟩ | ⟨hok, -⟩
    · rw [hw]
      exact ⟨rfl, rfl, rfl, rfl⟩
    · refine absurd ⟨token, usedBy, ?_⟩ hc
      rw [hafter, hok]
      exact .head _
  | createUser u => exact absurd hrules hbefore
  | assignUserRole id role => exact absurd hrules.2.2.1 hbefore
  | createSession s => exact absurd (hrules trivial) hbefore
  | updateUserLastLogin id at_ => exact absurd (hrules trivial) hbefore
  | _ => first | cases hcalls; done | exact same rfl rfl rfl rfl

end Runs

/-- At most one administrator is ever made, and a bootstrap that does not succeed has left the
tokens, the users, their roles and the sessions as it found them with everything it did. -/
theorem one_administrator {K : Site} {c₀ c : AccountConfig} (h₀ : Fresh c₀)
    (h : (dashboard K).Reaches (Sole K) c₀ c) :
    (∀ k l k' l', k :: l <:+ c.log → k' :: l' <:+ c.log → Founds k → Founds k' → k = k' ∧ l = l') ∧
      ∀ i r form out, c.threads[i]? = some ⟨(), .bootstrap r form, .ret out⟩ →
        out.reply ≠ .redirect (K.abs "/") → ∀ c₁ ch c₂, (dashboard K).Reaches (Sole K) c₀ c₁ →
        (dashboard K).step c₁ (.run i ch) = some c₂ → (dashboard K).Reaches (Sole K) c₂ c →
          c₂.state.registry = c₁.state.registry ∧ c₂.state.users = c₁.state.users ∧
            c₂.state.userRoles = c₁.state.userRoles ∧ c₂.state.sessions = c₁.state.sessions := by
  constructor
  · intro k l k' l' hk hk' hf hf'
    rcases ordered hk hk' with hs | hs | hs
    · exact hs
    · exact (no_second_admin h₀ h hk hk' hf hf' hs).elim
    · exact (no_second_admin h₀ h hk' hk hf' hf hs).elim
  · intro i r form out ht hno c₁ ch c₂ h₁ hs h₂
    have hc := unsuccessful h₀ h ht hno
    obtain ⟨op, ⟨ran⟩⟩ := step_run hs
    have hb : Bootstraps c i := ⟨r, form, _, ht⟩
    refine unconsumed_leaves h₀ h₁ hs (hb.before ran h₂) fun hcons => hc ?_
    exact consumed_later hcons (history_suffix h₂.log_suffix i)

section Example

def foundingWorld : World where
  roles := [⟨⟨7⟩, "admin"⟩]
  registry :=
    { tokens := (Keyed.empty.put { tokenDigest := "fleet_boot_aaaaaaaaaa" }).put
        { tokenDigest := "fleet_boot_bbbbbbbbbb" } }

def founding (otpFull email : String) : Activity :=
  .bootstrap (from_ "10.0.0.1") { otpFull, email, password := "secret", csrfToken := "x" }

/-- Two bootstraps that have both counted no user; the second cannot store its session. -/
def foundingRun : List AccountAction :=
  [.start () (founding "fleet_boot_aaaaaaaaaa" "ann@fleet.dev"),
    .start () (founding "fleet_boot_bbbbbbbbbb" "bob@fleet.dev")] ++ calls 0 1 ++ calls 1 1 ++
    calls 0 6 { hashed := some "h", token := "u", uuid := 1 } ++
    calls 0 16 { token := "v", uuid := 2 } ++
    calls 1 6 { hashed := some "h", token := "w", uuid := 3 } ++
    calls 1 8 { token := "z", uuid := 4 } ++ calls 1 1 { fault := some (.sqlx "lost") }

def foundingConfig : AccountConfig := (dashboard plainSite).after (started foundingWorld) foundingRun

def replyOf (c : AccountConfig) (i : ℕ) : Option Reply :=
  match c.threads[i]? with
  | some ⟨_, _, .ret out⟩ => some out.reply
  | _ => none

def foundsAt (k : Interleaving.Call Op Op.Resp Unit) : Bool :=
  match k.entry with
  | ⟨.assignUserRole _ _, .ok ()⟩ => true
  | _ => false

theorem founds_of_at {k : Interleaving.Call Op Op.Resp Unit} (h : foundsAt k = true) : Founds k := by
  unfold foundsAt at h
  split at h
  · next id role he => exact ⟨id, role, he⟩
  · cases h

/-- Where the log tells of an administrator made by that request. -/
theorem founded_by {log : Log} {threads : List ℕ} {i : ℕ}
    (h : (log.filter foundsAt).map Interleaving.Call.thread = threads) (hi : i ∈ threads) :
    ∃ k l, k :: l <:+ log ∧ Founds k ∧ k.thread = i := by
  rw [← h] at hi
  obtain ⟨k, hk, hki⟩ := List.mem_map.mp hi
  obtain ⟨hkl, hf⟩ := List.mem_filter.mp hk
  obtain ⟨l, hl⟩ := placed hkl
  exact ⟨k, l, hl, founds_of_at hf, hki⟩

theorem two_administrators : (dashboard plainSite).Reaches always (started foundingWorld) foundingConfig ∧
    (∃ k l k' l', k :: l <:+ foundingConfig.log ∧ k' :: l' <:+ foundingConfig.log ∧ Founds k ∧
      Founds k' ∧ k.thread ≠ k'.thread) ∧
    replyOf foundingConfig 1 = some (.failed 500 "A system error occurred. Please try again.") ∧
    (foundingConfig.state.registry.tokens.get "fleet_boot_bbbbbbbbbb").map BootstrapToken.useCount =
      some 1 ∧
    foundingConfig.state.users.rows.map User.username = ["ann", "bob"] := by
  have hboth : (foundingConfig.log.filter foundsAt).map Interleaving.Call.thread = [1, 0] := by
    decide +kernel
  refine ⟨after_reaches foundingRun, ?_, ?_, ?_, ?_⟩
  · obtain ⟨k, l, hk, hf, hi⟩ := founded_by hboth (.head _)
    obtain ⟨k', l', hk', hf', hi'⟩ := founded_by hboth (.tail _ (.head _))
    refine ⟨k, l, k', l', hk, hk', hf, hf', ?_⟩
    omega
  · decide +kernel
  · decide +kernel
  · decide +kernel

def Op.counts : Op → Bool
  | .countUsers => true
  | _ => false

/-- One bootstrap counts the users, and nothing that it calls after that fails. -/
def lone (c : AccountConfig) : AccountAction → Bool
  | .start _ _ => true
  | .env _ => false
  | .run i ch =>
    match c.next i with
    | some .countUsers => c.log.all fun k => !k.op.counts
    | some (.createUser u) =>
      ch.fault.isNone && c.state.users.rows.all fun x => x.username ≠ u.username
    | some (.getRoleByName name) => ch.fault.isNone && c.state.roles.any fun r => r.name = name
    | some (.assignUserRole _ _) | some (.createSession _) => ch.fault.isNone
    | _ => true

theorem sole_of_lone {c : AccountConfig} {x : AccountAction} (h : lone c x = true) :
    Sole plainSite c x := by
  cases x with
  | start p a => trivial
  | env e => cases h
  | run i ch =>
    intro op hn
    simp only [lone, hn] at h
    constructor
    · rintro rfl j ht
      obtain ⟨k, hk, -, he⟩ := told_logged ht
      have hno := List.all_eq_true.mp h k hk
      rw [show k.op = .countUsers from congrArg Entry.op he] at hno
      cases hno
    · intro _ hcomp
      cases op with
      | createUser u =>
        simp only [Bool.and_eq_true, Option.isNone_iff_eq_none, List.all_eq_true] at h
        exact ⟨h.1, fun x hx => of_decide_eq_true (h.2 x hx)⟩
      | getRoleByName name =>
        simp only [Bool.and_eq_true, Option.isNone_iff_eq_none, List.any_eq_true] at h
        obtain ⟨hf, r, hr, hname⟩ := h
        exact ⟨hf, r, hr, of_decide_eq_true hname⟩
      | assignUserRole id role => exact ⟨by simpa using h, fun hb => by cases hb⟩
      | createSession s => exact ⟨by simpa using h, fun hb => by cases hb⟩
      | _ => cases hcomp

/-- One bootstrap after the other. -/
def soleRun : List AccountAction :=
  .start () (founding "fleet_boot_aaaaaaaaaa" "ann@fleet.dev") ::
    calls 0 7 { hashed := some "h", token := "u", uuid := 1 } ++
    calls 0 16 { token := "v", uuid := 2 }

theorem one_bootstrap : ∃ c : AccountConfig, (c.log.filter foundsAt).map Interleaving.Call.thread = [0] ∧
    ∀ k l k' l', k :: l <:+ c.log → k' :: l' <:+ c.log → Founds k → Founds k' → k = k' ∧ l = l' := by
  have hrun : (((dashboard plainSite).replayWhile lone (started foundingWorld) soleRun).map fun c =>
      (c.log.filter foundsAt).map Interleaving.Call.thread) = some [0] := by
    decide +kernel
  obtain ⟨c, hc, hone⟩ := Option.map_eq_some_iff.mp hrun
  exact ⟨c, hone, (one_administrator (started_fresh foundingWorld)
    ((replayWhile_reaches hc).mono fun c x => sole_of_lone)).1⟩

end Example

end FleetOrchestrator.Accounts
