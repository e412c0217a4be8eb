import FleetOrchestrator.Accounts.Conduct
import FleetOrchestrator.Interleaving.Passage

/-! Which requests touch the table of sessions, after what, and where the rows of it come from. -/

namespace FleetOrchestrator.Accounts

open Api Core Tables Store Enrolment Interleaving Machine

/-- The call was made, and answered so. -/
def Told (h : History) (op : Op) (a : op.Resp) : Prop := (⟨op, a⟩ : Entry Op Op.Resp) ∈ h

def readOf (hash : String) (s : Session) : Entry Op Op.Resp :=
  ⟨.getSessionByTokenHash hash, .ok (some s)⟩

/-- The request came with the token of that session: to look it up is the first that is done. -/
def Presents (h : History) (s : Session) : Prop := ∃ hash, [readOf hash s] <:+ h

/-- A request is about to replace its session, going by the clock. -/
def Rotates (K : Site) (h : History) (s s' : Session) (t : ℤ) : Prop :=
  ∃ m h₁, h = ⟨.mint, m⟩ :: ⟨.readClock, t⟩ :: h₁ ∧ Presents h₁ s ∧
    shouldRotate s.createdAt s.expiresAt t = true ∧ s' = s.rotated K m t

def Op.isRead : Op → Bool
  | .getSessionByTokenHash _ => true
  | _ => false

/-- No session is read or written. -/
def Quiet (op : Op) : Prop := op.onSessions = false ∧ op.isRead = false

/-- What a new session rests on: the row of its user, read or written. -/
inductive Ground (id : UserId) : Entry Op Op.Resp → Prop
  | found (email : String) (u : User) (hu : u.id = id) :
    Ground id ⟨.getUserByEmail email, .ok (some u)⟩
  | founded (u : User) (hu : u.id = id) : Ground id ⟨.createUser u, .ok ()⟩

/-- A login or a bootstrap is about to open a session. -/
def Opens (K : Site) (h : History) (s : Session) : Prop :=
  ∃ user m createdAt base ip agent h₁,
    h = ⟨.readClock, base⟩ :: ⟨.readClock, createdAt⟩ :: ⟨.mint, m⟩ :: h₁ ∧
      s = newSession K user m createdAt base ip agent ∧ Grew Quiet [] h₁ ∧
      ∃ e ∈ h₁, Ground user e

def Licensed (K : Site) (h : History) : Op → Prop
  | .getSessionByTokenHash _ => h = []
  | .createSession s' => (∃ s t, Rotates K h s s' t) ∨ Opens K h s'
  | .updateSessionExpiry id d => ∃ s s' t h₁, h = ⟨.createSession s', .ok ()⟩ :: h₁ ∧
      Rotates K h₁ s s' t ∧ id = s.id ∧ d = t + SESSION_ROTATION_GRACE_SECS
  | .deleteSession id => ∃ s, Presents h s ∧ id = s.id
  | _ => True

section Conduct

variable {K : Site} {r : Request} {h h' : History} {s s' : Session} {p : AuthPrincipal}

theorem Told.later {op : Op} {a : op.Resp} (ht : Told h op a) (hs : h <:+ h') : Told h' op a :=
  hs.subset ht

theorem Presents.later (hp : Presents h s) (hs : h <:+ h') : Presents h' s := by
  obtain ⟨hash, hr⟩ := hp
  exact ⟨hash, hr.trans hs⟩

/-- A request comes with one session. -/
theorem Presents.unique (hp : Presents h s) (hp' : Presents h s') : s = s' := by
  obtain ⟨hash, hr⟩ := hp
  obtain ⟨hash', hr'⟩ := hp'
  have he := (List.suffix_of_suffix_length_le hr hr' le_rfl).eq_of_length rfl
  simp only [readOf, List.cons.injEq, Entry.mk.injEq, and_true, Op.getSessionByTokenHash.injEq] at he
  obtain ⟨rfl, he⟩ := he
  exact Option.some.inj (Except.ok.inj (eq_of_heq he))

theorem Presents.isRead (hp : Presents h s) : ∃ e ∈ h, e.op.isRead = true := by
  obtain ⟨hash, hr⟩ := hp
  exact ⟨_, hr.subset List.mem_cons_self, rfl⟩

theorem licensed_of_quiet {op : Op} (ho : Quiet op) : Licensed K h op := by
  cases op with
  | getSessionByTokenHash hash => cases ho.2
  | createSession s => cases ho.1
  | updateSessionExpiry id d => cases ho.1
  | deleteSession id => cases ho.1
  | _ => trivial

/-- What a request that is let through has been told. -/
theorem authenticate_passed (hy : Yields (authenticate K r) [] (.ok (p, s)) h) :
    ∃ token t permissions, r.sessionCookie = some token ∧
      h = [⟨.listUserPermissions p.user.id, .ok permissions⟩,
        ⟨.getUserById s.userId, .ok (some p.user)⟩, ⟨.readClock, t⟩,
        readOf (K.sha256Hex token) s] ∧
      s.isExpired t = false ∧ p.user.enabled = true ∧ p.sessionId = s.id := by
  unfold authenticate at hy
  cases hc : r.sessionCookie with
  | none =>
    rw [hc] at hy
    cases hy
  | some token =>
    rw [hc] at hy
    obtain ⟨a, hy⟩ := yields_step hy
    cases a with
    | error e => cases hy
    | ok found =>
      cases found with
      | none => cases hy
      | some session =>
        obtain ⟨t, hy⟩ := yields_step hy
        split_ifs at hy with hexp
        · obtain ⟨a, hy⟩ := yields_step hy
          cases hy
        · obtain ⟨a, hy⟩ := yields_step hy
          cases a with
          | error e => cases hy
          | ok found =>
            cases found with
            | none => cases hy
            | some user =>
              dsimp only at hy
              split_ifs at hy with hen
              · cases hy
              · obtain ⟨a, hy⟩ := yields_step hy
                cases a with
                | error e => cases hy
                | ok permissions =>
                  cases hy
                  exact ⟨token, t, permissions, rfl, rfl, by simpa using hexp,
                    by simpa using hen, rfl⟩

theorem passed_presents (hy : Yields (authenticate K r) [] (.ok (p, s)) h) : Presents h s := by
  obtain ⟨token, t, permissions, -, rfl, -⟩ := authenticate_passed hy
  exact ⟨_, List.suffix_append [_, _, _] _⟩

theorem authenticate_obeys : Obeys (Licensed K) (fun _ _ => True) (authenticate K r) [] := by
  unfold authenticate
  cases r.sessionCookie with
  | none => exact obeys_ret trivial
  | some token =>
    apply obeys_step rfl
    intro a
    cases a with
    | error e => trivial
    | ok found =>
      cases found with
      | none => trivial
      | some session =>
        apply obeys_step trivial
        intro t
        split_ifs
        · apply obeys_step ⟨session, ⟨_, List.suffix_append [_] _⟩, rfl⟩
          intro a
          trivial
        · apply obeys_step trivial
          intro a
          cases a with
          | error e => trivial
          | ok found =>
            cases found with
            | none => trivial
            | some user =>
              dsimp only
              split_ifs
              · trivial
              · apply obeys_step trivial
                intro a
                cases a <;> trivial

theorem rotation_obeys (hp : Presents h s) :
    Obeys (Licensed K) (fun _ h' => Presents h' s) (maybeRotateSession K s) h := by
  unfold maybeRotateSession
  apply obeys_step trivial
  intro t
  have later (e : Entry Op Op.Resp) {h₁ : History} (hp : Presents h₁ s) : Presents (e :: h₁) s :=
    hp.later (List.suffix_cons _ _)
  split_ifs with hrot
  · exact later _ hp
  · apply obeys_step trivial
    intro m
    have hrotates : Rotates K (⟨.mint, m⟩ :: ⟨.readClock, t⟩ :: h) s (s.rotated K m t) t :=
      ⟨m, h, rfl, hp, by simpa using hrot, rfl⟩
    apply obeys_step (.inl ⟨s, t, hrotates⟩)
    intro a
    cases a with
    | error e => exact later _ (later _ (later _ hp))
    | ok u =>
      apply obeys_step ⟨s, _, t, _, rfl, hrotates, rfl, rfl⟩
      intro a
      exact later _ (later _ (later _ (later _ hp)))

theorem csrf_obeys (hp : Presents h s) :
    Obeys (Licensed K) (fun _ h' => Presents h' s) (csrfTokenOf r) h := by
  unfold csrfTokenOf
  cases r.csrfCookie with
  | some token => exact hp
  | none => exact obeys_perform trivial fun a => hp.later (List.suffix_cons _ _)

theorem handle_obeys (handler : Handler) (hp : Presents h s) (hid : p.sessionId = s.id) :
    Obeys (Licensed K) (fun _ _ => True) (handle K r handler p) h := by
  cases handler with
  | page => trivial
  | logout csrfHeader =>
    change Obeys _ _ (logout K r csrfHeader p) h
    refine obeys_ite (fun _ => trivial) fun _ => ?_
    exact obeys_step ⟨s, hp, hid⟩ fun _ => trivial

theorem guarded_obeys (handler : Handler) :
    Obeys (Licensed K) (fun _ _ => True) (requireSession K r (handle K r handler)) [] := by
  apply obeys_bind (obeys_yields authenticate_obeys)
  intro a h hy
  cases a with
  | error response => trivial
  | ok ps =>
    obtain ⟨p, s⟩ := ps
    obtain ⟨token, t, permissions, -, -, -, -, hid⟩ := authenticate_passed hy
    apply obeys_bind (csrf_obeys (passed_presents hy))
    intro csrfToken h₁ hp
    apply obeys_bind (rotation_obeys hp)
    intro rotation h₂ hp
    apply obeys_bind (handle_obeys handler hp hid)
    intro response h₃ _
    cases rotation <;> trivial

section Openings

theorem limits_quiet (op : Op) (ho : op.limits = true) : Quiet op := by
  cases op <;> first | exact ⟨rfl, rfl⟩ | cases ho

theorem clears_quiet (op : Op) (ho : op.clears = true) : Quiet op := by
  cases op <;> first | exact ⟨rfl, rfl⟩ | cases ho

theorem obeys_quiet {α : Type} {q : Call α} (hu : Uses Quiet q) :
    Obeys (Licensed K) (fun _ _ => True) q h :=
  obeys_conseq (obeys_of_uses hu fun _ _ => licensed_of_quiet) fun _ _ _ => trivial

/-- Quiet calls go on from a quiet history to a quiet history. -/
theorem obeys_quietly {α : Type} {q : Call α} (hu : Uses Quiet q) (hg : Grew Quiet [] h) :
    Obeys (Licensed K) (fun _ h' => Grew Quiet [] h') q h :=
  obeys_conseq (obeys_of_uses hu fun _ _ => licensed_of_quiet) fun _ _ hg' => hg.trans hg'

theorem openSession_obeys {email : String} {user : User} (hg : Grew Quiet [] h)
    (he : ∃ e ∈ h, Ground user.id e) :
    Obeys (Licensed K) (fun _ _ => True) (openSession K r email user) h := by
  unfold openSession
  apply obeys_step trivial
  intro m
  apply obeys_step trivial
  intro createdAt
  apply obeys_step trivial
  intro base
  apply obeys_step (.inr ⟨user.id, m, createdAt, base, some r.ip, r.userAgent, h, rfl, rfl, hg, he⟩)
  intro a
  cases a with
  | error e => trivial
  | ok u =>
    apply obeys_step trivial
    intro now
    apply obeys_step trivial
    intro a
    apply obeys_bind (obeys_quiet (uses_recordLoginSuccess clears_quiet))
    intro a h' _
    exact obeys_step trivial fun _ => trivial

theorem login_obeys (form : LoginForm) :
    Obeys (Licensed K) (fun _ _ => True) (login K r form) [] := by
  unfold login
  split_ifs
  · trivial
  · apply obeys_bind (obeys_quietly (uses_checkRateLimitCustom limits_quiet) (.refl []))
    intro a h hg
    cases a with
    | error e => trivial
    | ok allowed =>
      cases allowed with
      | false => trivial
      | true =>
        apply obeys_step trivial
        intro a
        cases a with
        | error e => trivial
        | ok found =>
          dsimp only
          cases hf : found.filter fun u => u.enabled with
          | none => exact obeys_step trivial fun _ => obeys_quiet (uses_loginRefused limits_quiet)
          | some user =>
            obtain ⟨rfl, -⟩ := Option.filter_eq_some_iff.mp hf
            apply obeys_step trivial
            intro valid
            split_ifs
            · exact obeys_quiet (uses_loginRefused limits_quiet)
            · exact obeys_bind (obeys_quiet (uses_recordLoginFailure limits_quiet)) fun _ _ _ => trivial
            · apply openSession_obeys
              · exact .cons ⟨rfl, rfl⟩ (.cons ⟨rfl, rfl⟩ hg)
              · exact ⟨_, .tail _ (.head _), .found form.email user rfl⟩

theorem createAdmin_obeys {token : String} {user : User} (hg : Grew Quiet [] h) :
    Obeys (Licensed K) (fun _ _ => True) (consumeBootstrapAndCreateAdmin K token user) h := by
  unfold consumeBootstrapAndCreateAdmin
  apply obeys_step trivial
  intro a
  cases a with
  | error e => trivial
  | ok u =>
    apply obeys_step trivial
    intro a
    cases a with
    | error e => trivial
    | ok u =>
      apply obeys_step trivial
      intro a
      cases a with
      | error e => trivial
      | ok found =>
        cases found with
        | none => trivial
        | some role =>
          apply obeys_step trivial
          intro a
          cases a with
          | error e => trivial
          | ok u =>
            apply obeys_step trivial
            intro m
            apply obeys_step trivial
            intro createdAt
            apply obeys_step trivial
            intro base
            refine obeys_step (.inr ⟨user.id, m, createdAt, base, none, none, _, rfl, rfl, ?_,
              _, .tail _ (.tail _ (.head _)), .founded user rfl⟩) ?_
            · exact .cons ⟨rfl, rfl⟩ (.cons ⟨rfl, rfl⟩ (.cons ⟨rfl, rfl⟩ (.cons ⟨rfl, rfl⟩ hg)))
            · intro a
              cases a with
              | error e => trivial
              | ok u => exact obeys_step trivial fun _ => obeys_step trivial fun _ => trivial

theorem createFirstAdmin_obeys {form : BootstrapForm} {token : String} (hg : Grew Quiet [] h) :
    Obeys (Licensed K) (fun _ _ => True) (createFirstAdmin K r form token) h := by
  refine obeys_ite (fun _ => trivial) fun _ => ?_
  refine obeys_ite (fun _ => trivial) fun _ => ?_
  apply obeys_step trivial
  intro hashed
  cases hashed with
  | none => trivial
  | some hash =>
    apply obeys_step trivial
    intro m
    apply obeys_step trivial
    intro now
    apply obeys_bind (createAdmin_obeys
      (.cons ⟨rfl, rfl⟩ (.cons ⟨rfl, rfl⟩ (.cons ⟨rfl, rfl⟩ hg))))
    intro a h' _
    cases a with
    | error e => trivial
    | ok token => exact obeys_bind (obeys_quiet (uses_recordLoginSuccess clears_quiet)) fun _ _ _ => trivial

theorem bootstrap_obeys (form : BootstrapForm) :
    Obeys (Licensed K) (fun _ _ => True) (bootstrap K r form) [] := by
  refine obeys_ite (fun _ => trivial) fun _ => ?_
  apply obeys_step trivial
  intro a
  cases a with
  | error e => trivial
  | ok count =>
    refine obeys_ite (fun _ => trivial) fun _ => ?_
    apply obeys_bind (obeys_quietly (uses_checkRateLimitCustom limits_quiet) (.one ⟨rfl, rfl⟩))
    intro a h hg
    cases a with
    | error e => trivial
    | ok allowed =>
      cases allowed with
      | false => trivial
      | true =>
        dsimp only
        refine obeys_bind (obeys_quietly (uses_matchBootstrapToken limits_quiet ⟨rfl, rfl⟩) hg) ?_
        intro a h hg
        cases a with
        | error response => trivial
        | ok token => exact createFirstAdmin_obeys hg

end Openings

theorem disciplined : (dashboard K).Disciplined (fun _ _ => Licensed K) fun _ _ _ _ => True := by
  intro _ a
  cases a with
  | guarded r handler => exact guarded_obeys handler
  | login r form => exact login_obeys form
  | bootstrap r form => exact bootstrap_obeys form
  | _ =>
    refine program_obeys fun h op ho => ?_
    cases op <;> trivial

end Conduct

end FleetOrchestrator.Accounts
