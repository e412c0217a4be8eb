import FleetOrchestrator.Accounts.Rotation

/-! What a logout leaves of the sessions of its login, in the store and in the browser. -/

namespace FleetOrchestrator.Accounts

open Api Core Tables Store Enrolment Interleaving Machine

structure Cookie where
  name : String
  path : String
  value : String
  deriving DecidableEq

/-- The path of a cookie that came without one: that of the request, up to its last slash. -/
def defaultPath (uri : String) : String :=
  let directory := ((uri.toList.reverse.dropWhile (· ≠ '/')).drop 1).reverse
  if directory.isEmpty then "/" else String.ofList directory

/-- A browser holds one cookie of a name for each path, and drops one that is to last no time. -/
def receive (uri : String) (jar : List Cookie) (c : SetCookie) : List Cookie :=
  let path := c.path.getD (defaultPath uri)
  let others := jar.filter fun x => !(x.name = c.name && x.path = path)
  if c.maxAge ≤ 0 then others else { name := c.name, path, value := c.value } :: others

def receiveAll (uri : String) (jar : List Cookie) (r : Response) : List Cookie :=
  r.cookies.foldl (receive uri) jar

def NoSession (jar : List Cookie) : Prop := ∀ c ∈ jar, c.name ≠ SESSION_COOKIE

/-- The session cookies in the browser are those that the dashboard has set. -/
def OwnCookies (jar : List Cookie) : Prop := ∀ c ∈ jar, c.name = SESSION_COOKIE → c.path = "/"

def IsLogout (c : AccountConfig) (j : ℕ) : Prop :=
  ∃ r csrf q, c.threads[j]? = some ⟨(), .guarded r (.logout csrf), q⟩

/-- The logout came with the session, was let through, and has answered. -/
def LoggedOut (K : Site) (c : AccountConfig) (j : ℕ) (s : Session) (response : Response) : Prop :=
  ∃ r csrf p h, c.threads[j]? = some ⟨(), .guarded r (.logout csrf), .ret response⟩ ∧
    csrfValid r.csrfCookie csrf = true ∧ Yields (authenticate K r) [] (.ok (p, s)) h ∧
    h <:+ history c.log j

/-- Both sessions come from one. -/
def SameLogin (log : Log) (x y : SessionId) : Prop := ∃ z, Descends log z x ∧ Descends log z y

/-- A session with which a logout comes has not been replaced, and its predecessors that are still
stored have been shortened. No session is replaced twice, or after a logout has come with it. What
a logout deletes is deleted. -/
def Orderly (c : AccountConfig) : AccountAction → Prop
  | .run i ch => ∀ op, c.next i = some op →
    match op with
    | .getSessionByTokenHash hash => IsLogout c i → ∀ s, c.state.sessions.get hash = some s →
        (∀ y, ¬ Rotated c.log s.id y) ∧
          ∀ x ∈ c.state.sessions.rows, Relation.TransGen (Rotated c.log) x.id s.id →
            Shortened c.log x.id
    | .createSession _ => ∀ s, Presents (history c.log i) s → (∀ y, ¬ Rotated c.log s.id y) ∧
        ∀ j s', IsLogout c j → Presents (history c.log j) s' → s'.id ≠ s.id
    | .deleteSession _ => IsLogout c i → ch.fault = none
    | _ => True
  | _ => True

section Browser

variable {uri : String} {jar : List Cookie} {c : SetCookie}

theorem receive_other (hn : c.name ≠ SESSION_COOKIE) (h : NoSession jar) :
    NoSession (receive uri jar c) := by
  intro x hx
  unfold receive at hx
  split_ifs at hx
  · exact h x (List.mem_filter.mp hx).1
  · rcases List.mem_cons.mp hx with rfl | hx
    · exact hn
    · exact h x (List.mem_filter.mp hx).1

theorem receive_removal (hu : defaultPath uri = "/") (h : OwnCookies jar) :
    NoSession (receive uri jar (removal SESSION_COOKIE)) := by
  intro x hx hname
  have hpath : (removal SESSION_COOKIE).path.getD (defaultPath uri) = "/" := hu
  simp only [receive, hpath] at hx
  have hmem := List.mem_filter.mp hx
  have hown := h x hmem.1 hname
  simp [removal, hname, hown] at hmem

theorem loggedOut_browser {token : String} {r : Response} (h : OwnCookies jar)
    (hr : r.cookies = [removal SESSION_COOKIE, csrfCookie token]) :
    NoSession (receiveAll "/logout" jar r) := by
  rw [receiveAll, hr]
  apply receive_other (c := csrfCookie token)
  · change CSRF_COOKIE ≠ SESSION_COOKIE
    decide
  · exact receive_removal rfl h

end Browser

section Lineage

variable {K : Site} {c₀ c c' : AccountConfig} {cond : AccountConfig → AccountAction → Prop}
  {i j : ℕ} {s : Session} {x y z : SessionId} {k : Interleaving.Call Op Op.Resp Unit} {l l' : Log}

theorem Rotated.later (hr : Rotated l x y) (hl : l <:+ l') : Rotated l' x y := by
  obtain ⟨k, l₁, s, s', hk, he⟩ := hr
  exact ⟨k, l₁, s, s', hk.trans hl, he⟩

/-- A created session that is no longer stored is stored no more. -/
theorem gone_stays (h₀ : Fresh c₀) (h : (dashboard K).Reaches cond c₀ c)
    (hc : ∃ k ∈ c.log, Creates x k) (hg : ∀ r ∈ c.state.sessions.rows, r.id ≠ x)
    (h' : (dashboard K).Reaches cond c c') : ∀ r ∈ c'.state.sessions.rows, r.id ≠ x := by
  induction h' with
  | refl => exact hg
  | @tail c₁ c₂ a h₁ ha hs ih =>
    intro r hr hid
    cases a with
    | start p a =>
      rw [start_state hs] at hr
      exact ih r hr hid
    | env e =>
      rw [env_state hs] at hr
      exact ih r ((happen_frame _ _ _).1 r hr) hid
    | run i ch =>
      obtain ⟨op, ⟨ran⟩⟩ := step_run hs
      have harr := exec_arrives ran.done hr
      generalize he : (⟨op, ran.resp⟩ : Entry Op Op.Resp) = e at harr
      cases harr with
      | kept hold => exact ih r hold hid
      | created =>
        obtain ⟨k, hk, hkx⟩ := hc
        have hreach : (dashboard K).Reaches cond c₀ c₂ := .tail _ (h.trans h₁) ha hs
        have hself : Creates x (⟨i, ran.party, op, ran.resp⟩ : Interleaving.Call Op Op.Resp Unit) :=
          hid ▸ creates_of_entry he
        exact created_once h₀ hreach x _ c₁.log (ran.log ▸ List.suffix_rfl) hself k
          (h₁.log_suffix.subset hk) hkx
      | shortened y d hy hry =>
        rw [hry] at hid
        exact ih y hy hid

theorem rotated_created (h₀ : Fresh c₀) (hs : c₀.state.sessions = .empty)
    (h : (dashboard K).Reaches cond c₀ c) (hr : Rotated l x y) (hl : l <:+ c.log) :
    (∃ k ∈ l, Creates x k) ∧ ∃ k ∈ l, Creates y k := by
  obtain ⟨k, l₁, s, s', hk, he, hp, rfl, rfl⟩ := hr
  refine ⟨?_, k, hk.subset List.mem_cons_self, creates_of_entry he⟩
  obtain ⟨c₁, c₂, ch, h₁, -, -, rfl, -, -⟩ := h.at_call h₀ (hk.trans hl)
  obtain ⟨k₁, hk₁, -, hash, hread⟩ := presents_logged hp
  obtain ⟨k₂, hk₂, s₂, hs₂, hid, -⟩ := (kept h₀ hs h₁).told k₁ hk₁ hash s hread
  exact ⟨k₂, hk.subset (.tail _ hk₂), s₂, congrArg Entry.op hs₂, hid.symm⟩

/-- The predecessors of a session were there when it was created, and were replaced by then. -/
theorem ancestor_earlier (h₀ : Fresh c₀) (hs : c₀.state.sessions = .empty)
    (h : (dashboard K).Reaches cond c₀ c) (hl : l <:+ c.log)
    (hd : Relation.TransGen (Rotated c.log) x y) (hy : ∃ k ∈ l, Creates y k) :
    Relation.TransGen (Rotated l) x y := by
  have one {a b : SessionId} (hr : Rotated c.log a b) (hb : ∃ k ∈ l, Creates b k) : Rotated l a b := by
    obtain ⟨k, l₁, s, s', hk, he, hp, ha, rfl⟩ := hr
    obtain ⟨k', hk', hc⟩ := hb
    obtain ⟨l₂, hl₂⟩ := placed hk'
    obtain ⟨rfl, rfl⟩ := (created_once h₀ h s'.id).place hk (hl₂.trans hl) (creates_of_entry he) hc
    exact ⟨k, l₁, s, s', hl₂, he, hp, ha, rfl⟩
  induction hd with
  | single hr => exact .single (one hr hy)
  | tail hd hr ih =>
    have hr := one hr hy
    exact (ih (rotated_created h₀ hs h hr hl).1).tail hr

theorem isLogout_later (hl : IsLogout c j) (h : (dashboard K).Reaches cond c c') : IsLogout c' j := by
  obtain ⟨r, csrf, q, ht⟩ := hl
  obtain ⟨⟨p, a, q'⟩, ht', -, ha⟩ := h.thread ht
  cases ha
  exact ⟨r, csrf, q', ht'⟩

theorem isLogout_before (hl : IsLogout c' j) (h : (dashboard K).Reaches cond c c')
    (hj : j < c.threads.length) : IsLogout c j := by
  obtain ⟨r, csrf, q, ht⟩ := hl
  have hc := List.getElem?_eq_getElem hj
  obtain ⟨t', ht', -, ha⟩ := h.thread hc
  rw [ht] at ht'
  cases ht'
  refine ⟨r, csrf, c.threads[j].prog, ?_⟩
  rw [hc]
  congr 1
  generalize c.threads[j] = t at ha ⊢
  cases t
  cases ha
  rfl

end Lineage

section Runs

variable {K : Site} {c₀ c c' : AccountConfig} {i j : ℕ} {s P : Session} {x y z : SessionId}
  {k : Interleaving.Call Op Op.Resp Unit} {l : Log} {response : Response}

/-- Where a request replaces its session, nothing has replaced it, and no logout came with it. -/
theorem orderly_create (h₀ : Fresh c₀) (h : (dashboard K).Reaches Orderly c₀ c)
    (hk : k :: l <:+ c.log) {s' : Session} (hc : k.op = .createSession s')
    (hp : Presents (history l k.thread) s) :
    (∀ y, ¬ Rotated l s.id y) ∧ ∀ j s', IsLogout c j → (∃ e, e ∈ history l j) →
      Presents (history l j) s' → s'.id ≠ s.id := by
  obtain ⟨c₁, c₂, ch, h₁, hx, hs, rfl, ⟨r, -, -⟩, h₂⟩ := h.at_call h₀ hk
  have hcond := hx k.op r.next
  rw [hc] at hcond
  obtain ⟨hfirst, hlogout⟩ := hcond s hp
  refine ⟨hfirst, ?_⟩
  rintro j s' hj ⟨e, he⟩ hp'
  refine hlogout j s' (isLogout_before hj ((Reaches.single hx hs).trans h₂) ?_) hp'
  obtain ⟨k', hk', hkj, -⟩ := mem_history.mp he
  exact hkj ▸ within_of_reaches h₀ h₁ k' hk'

theorem orderly_functional (h₀ : Fresh c₀) (h : (dashboard K).Reaches Orderly c₀ c)
    (hy : Rotated c.log x y) (hz : Rotated c.log x z) : y = z := by
  obtain ⟨k, l, s, s', hk, he, hp, hx, rfl⟩ := hy
  obtain ⟨k₁, l₁, s₁, s₁', hk₁, he₁, hp₁, hx₁, rfl⟩ := hz
  rcases ordered hk hk₁ with ⟨rfl, rfl⟩ | hs | hs
  · rw [he] at he₁
    have hop := congrArg Entry.op he₁
    cases hop
    rfl
  · have hno := (orderly_create h₀ h hk₁ (congrArg Entry.op he₁) hp₁).1 s'.id
    exact absurd ⟨k, l, s, s', hs, he, hp, hx.trans hx₁.symm, rfl⟩ hno
  · have hno := (orderly_create h₀ h hk (congrArg Entry.op he) hp).1 s₁'.id
    exact absurd ⟨k₁, l₁, s₁, s₁', hs, he₁, hp₁, hx₁.trans hx.symm, rfl⟩ hno

/-- A logout as it looks its session up. -/
theorem logout_read (h₀ : Fresh c₀) (h : (dashboard K).Reaches Orderly c₀ c) (hj : IsLogout c j)
    (hp : Presents (history c.log j) P) :
    ∃ k l c₁, k :: l <:+ c.log ∧ k.thread = j ∧ (∃ hash, k.entry = readOf hash P) ∧ c₁.log = l ∧
      (dashboard K).Reaches Orderly c₀ c₁ ∧ (dashboard K).Reaches Orderly c₁ c ∧
      P ∈ c₁.state.sessions.rows ∧ (∀ y, ¬ Rotated l P.id y) ∧
      ∀ x ∈ c₁.state.sessions.rows, Relation.TransGen (Rotated l) x.id P.id → Shortened l x.id := by
  obtain ⟨hash, hr⟩ := hp
  obtain ⟨k, l, hk, rfl, he, -⟩ := of_history_at hr
  obtain ⟨c₁, c₂, ch, h₁, hx, hs, rfl, ⟨r, -, hresp⟩, h₂⟩ := h.at_call h₀ hk
  have h₁c := (Reaches.single hx hs).trans h₂
  have hent : (⟨k.op, r.resp⟩ : Entry Op Op.Resp) = readOf hash P := by
    rw [hresp]
    exact he
  have hget := exec_read (ran_done r hent)
  have hcond := hx k.op r.next
  rw [show k.op = .getSessionByTokenHash hash from congrArg Entry.op he] at hcond
  have hj₁ := isLogout_before hj h₁c (List.getElem?_eq_some_iff.mp r.was).1
  obtain ⟨hno, hshort⟩ := hcond hj₁ P hget
  exact ⟨k, c₁.log, c₁, hk, rfl, ⟨hash, he⟩, rfl, h₁, h₁c, (Keyed.get_eq_some.mp hget).1, hno, hshort⟩

/-- What a logout comes with is never replaced. -/
theorem logout_unrotated (h₀ : Fresh c₀) (h : (dashboard K).Reaches Orderly c₀ c) (hj : IsLogout c j)
    (hp : Presents (history c.log j) P) : ¬ Rotated c.log P.id y := by
  rintro ⟨k, l, s, s', hk, he, hps, hid, -⟩
  obtain ⟨k₁, l₁, c₁, hk₁, rfl, ⟨hash, he₁⟩, rfl, h₁, h₂, -, hno, -⟩ := logout_read h₀ h hj hp
  rcases ordered hk hk₁ with ⟨rfl, -⟩ | hs | hs
  · rw [he] at he₁
    have hop := congrArg Entry.op he₁
    cases hop
  · exact hno s'.id ⟨k, l, s, s', hs, he, hps, hid, rfl⟩
  · have hpj := read_presents h₀ h hk₁ he₁ hs
    have hmem : k₁.entry ∈ history l k₁.thread := (history_at hs).subset List.mem_cons_self
    exact (orderly_create h₀ h hk (congrArg Entry.op he) hps).2 k₁.thread P hj ⟨_, hmem⟩ hpj hid.symm

/-- A rotation that hands out a token has created a session. -/
theorem rotation_yields {token : String} {h h' : History}
    (hy : Yields (maybeRotateSession K s) h (some token) h') :
    ∃ s' h₁, (⟨.createSession s', .ok ()⟩ : Entry Op Op.Resp) :: h₁ <:+ h' ∧ h <:+ h₁ := by
  unfold maybeRotateSession at hy
  obtain ⟨t, hy⟩ := yields_step hy
  split_ifs at hy
  · cases hy
  · obtain ⟨m, hy⟩ := yields_step hy
    obtain ⟨a, hy⟩ := yields_step hy
    cases a with
    | error e => cases hy
    | ok u => exact ⟨_, _, hy.suffix, List.suffix_append [_, _] h⟩

theorem logout_yields {r : Request} {csrf : String} {p : AuthPrincipal} {h h' : History}
    (hv : csrfValid r.csrfCookie csrf = true) (hc : r.sessionCookie.isSome = true)
    (hy : Yields (logout K r csrf p) h response h') :
    response.cookies = [removal SESSION_COOKIE] ∧
      ∃ a, h' = (⟨.deleteSession p.sessionId, a⟩ : Entry Op Op.Resp) :: h := by
  unfold logout at hy
  rw [hv] at hy
  obtain ⟨a, hy⟩ := yields_step hy
  cases hy
  refine ⟨?_, a, rfl⟩
  simp [hc]

/-- What a logout does that is let through: it removes the cookie and deletes what it came with. -/
theorem logout_done (h₀ : Fresh c₀) (h : (dashboard K).Reaches Orderly c₀ c)
    (ho : LoggedOut K c j P response) :
    (∃ token, response.cookies = [removal SESSION_COOKIE, csrfCookie token]) ∧
      ∃ a h₁, (⟨.deleteSession P.id, a⟩ : Entry Op Op.Resp) :: h₁ <:+ history c.log j ∧
        Presents h₁ P := by
  obtain ⟨r, csrf, p, hist, ht, hv, hauth, hh⟩ := ho
  have hlogout : IsLogout c j := ⟨r, csrf, _, ht⟩
  have hP : Presents hist P := passed_presents hauth
  obtain ⟨token₀, t₀, permissions, hcookie, -, -, -, hid⟩ := authenticate_passed hauth
  obtain ⟨a, h₁, hy₁, hy⟩ := yields_bind (finished_yields disciplined h₀ h ht)
  obtain ⟨rfl, rfl⟩ := hauth.unique hy₁ hh hy.suffix
  obtain ⟨token, h₂, hy₂, hy⟩ := yields_bind hy
  obtain ⟨rotation, h₃, hy₃, hy⟩ := yields_bind hy
  obtain ⟨answer, h₄, hy₄, hy⟩ := yields_bind hy
  obtain ⟨hcookies, d, rfl⟩ := logout_yields hv (by rw [hcookie]; rfl) hy₄
  cases rotation with
  | some new =>
    obtain ⟨s', h₅, hs', hbefore⟩ := rotation_yields hy₃
    obtain ⟨k, l, hk, rfl, he, rfl⟩ :=
      of_history_at (hs'.trans ((List.suffix_cons _ _).trans hy.suffix))
    have hpk : Presents (history l k.thread) P := hP.later (hy₂.suffix.trans hbefore)
    exact absurd ⟨k, l, P, s', hk, he, hpk, rfl, rfl⟩
      (logout_unrotated (y := s'.id) h₀ h hlogout (hP.later hh))
  | none =>
    have hbefore := (hy₂.suffix.trans hy₃.suffix)
    refine ⟨?_, d, h₃, hid ▸ hy.suffix, hP.later hbefore⟩
    generalize history c.log j = h₄ at hy
    cases hy
    exact ⟨token, by simp [Response.append, hcookies]⟩

/-- What a logout came with is stored no more. -/
theorem logout_gone (h₀ : Fresh c₀) (hs : c₀.state.sessions = .empty)
    (h : (dashboard K).Reaches Orderly c₀ c) (ho : LoggedOut K c j P response) :
    ∀ x ∈ c.state.sessions.rows, x.id ≠ P.id := by
  obtain ⟨-, a, h₁, hd, hp⟩ := logout_done h₀ h ho
  obtain ⟨r, csrf, -, -, ht, -⟩ := ho
  obtain ⟨k, l, hk, rfl, he, rfl⟩ := of_history_at hd
  obtain ⟨c₁, c₂, ch, hr, hx, hstep, rfl, ⟨ran, -, hresp⟩, h₂⟩ := h.at_call h₀ hk
  have hop : k.op = .deleteSession P.id := congrArg Entry.op he
  have hent : (⟨k.op, ran.resp⟩ : Entry Op Op.Resp) = ⟨.deleteSession P.id, a⟩ := by
    rw [hresp]
    exact he
  have hfrom : (dashboard K).Reaches Orderly c₁ c := (Reaches.single hx hstep).trans h₂
  have hj : IsLogout c₁ k.thread :=
    isLogout_before ⟨r, csrf, _, ht⟩ hfrom (List.getElem?_eq_some_iff.mp ran.was).1
  have hfault := hx k.op ran.next
  rw [hop] at hfault
  have hgone := exec_deleted (hfault hj) (ran_done ran hent)
  -- What was read had been created, so that no row of its id comes after.
  obtain ⟨k₁, hk₁, -, hash, hread⟩ := presents_logged hp
  obtain ⟨k₂, hk₂, s₂, hs₂, hid, -⟩ := (kept h₀ hs hr).told k₁ hk₁ hash P hread
  have hcreated : ∃ k ∈ c₂.log, Creates P.id k :=
    ⟨k₂, (step_log hstep).subset hk₂, s₂, congrArg Entry.op hs₂, hid.symm⟩
  exact gone_stays h₀ (.tail _ hr hx hstep) hcreated hgone h₂

/-- Of two sessions of one login one comes from the other, where none is replaced twice. -/
theorem orderly_lineage (h₀ : Fresh c₀) (h : (dashboard K).Reaches Orderly c₀ c)
    (hl : SameLogin c.log x y) : Descends c.log x y ∨ Descends c.log y x := by
  obtain ⟨z, hx, hy⟩ := hl
  refine Relation.ReflTransGen.total_of_right_unique ?_ hx hy
  intro a b b' hb hb'
  exact orderly_functional h₀ h hb hb'

/-- What is let through of the login of a logout, by a request that was begun after it. -/
theorem accepted_after (h₀ : Fresh c₀) (hs : c₀.state.sessions = .empty)
    (h : (dashboard K).Reaches Orderly c₀ c) (ho : LoggedOut K c j P response)
    (h' : (dashboard K).Reaches Orderly c c') (hi : history c.log i = []) {t : ℤ}
    (ha : Accepted K c' i s t l) (hl : SameLogin c'.log P.id s.id) :
    Relation.TransGen (Rotated c'.log) s.id P.id ∧
      ∃ u, LastRotated l s.id u ∧ t < u + SESSION_ROTATION_GRACE_SECS := by
  have hc' := h.trans h'
  have hgone := logout_gone h₀ hs h ho
  obtain ⟨r, csrf, p, hist, ht, -, hauth, hh⟩ := ho
  have hlogout : IsLogout c j := ⟨r, csrf, _, ht⟩
  have hP : Presents (history c.log j) P := (passed_presents hauth).later hh
  obtain ⟨c₂, h₂, -, rfl, hrow⟩ := accepted_row h' hi ha
  obtain ⟨k₁, l₁, c₁, hk₁, hk₁j, -, rfl, h₁, h₁c, hProw, -, hshort⟩ := logout_read h₀ h hlogout hP
  have hcreatedP : ∃ k ∈ c₁.log, Creates P.id k := by
    obtain ⟨k₂, hk₂, s₂, hs₂, hid, -⟩ := (kept h₀ hs h₁).rows P hProw
    exact ⟨k₂, hk₂, s₂, congrArg Entry.op hs₂, hid.symm⟩
  have hne : s.id ≠ P.id := by
    obtain ⟨k₂, hk₂, hc₂⟩ := hcreatedP
    exact gone_stays h₀ h ⟨k₂, h₁c.log_suffix.subset hk₂, hc₂⟩ hgone h₂ s hrow
  have hl₁ : c₁.log <:+ c'.log := h₁c.log_suffix.trans h'.log_suffix
  rcases orderly_lineage h₀ hc' hl with hd | hd
  · rcases hd.cases_head with hid | ⟨y, hy, -⟩
    · exact absurd hid.symm hne
    · have hP' := hP.later (history_suffix h'.log_suffix j)
      exact absurd hy (logout_unrotated h₀ hc' (isLogout_later hlogout h') hP')
  · rcases Relation.reflTransGen_iff_eq_or_transGen.mp hd with hid | htrans
    · exact absurd hid.symm hne
    · refine ⟨htrans, ?_⟩
      have hearly := ancestor_earlier h₀ hs hc' hl₁ htrans hcreatedP
      have hstored : ∃ x ∈ c₁.state.sessions.rows, x.id = s.id := by
        by_contra hno
        obtain ⟨y, hy, -⟩ := Relation.TransGen.head'_iff.mp hearly
        have hcreated := (rotated_created h₀ hs h₁ hy List.suffix_rfl).1
        exact gone_stays h₀ h₁ hcreated (fun x hx hid => hno ⟨x, hx, hid⟩) (h₁c.trans h₂) s hrow rfl
      obtain ⟨x, hx, hid⟩ := hstored
      have hd₁ := hshort x hx (hid ▸ hearly)
      rw [hid] at hd₁
      obtain ⟨k₂, hk₂, hd₂⟩ := hd₁
      have hsub : c₁.log <:+ c₂.log := h₁c.log_suffix.trans h₂.log_suffix
      exact accepted_shortened h₀ hs hc' ha ⟨k₂, hsub.subset hk₂, hd₂⟩

end Runs

/-- The dashboard is at the root of its site and the run is orderly: a logout that succeeds leaves
the browser without a session cookie, and of what came from its login only a session that the one
it came with has replaced lets a later request through, within its grace. -/
theorem logout_ends_login {K : Site} {c₀ c₁ : AccountConfig} {j : ℕ} {P : Session}
    {response : Response} (hbase : K.basePath = "") (h₀ : Fresh c₀)
    (hs : c₀.state.sessions = .empty) (h₁ : (dashboard K).Reaches Orderly c₀ c₁)
    (ho : LoggedOut K c₁ j P response) :
    (∀ jar, OwnCookies jar → NoSession (receiveAll (K.abs "/logout") jar response)) ∧
      ∀ c i s t l, (dashboard K).Reaches Orderly c₁ c → history c₁.log i = [] →
        Accepted K c i s t l → SameLogin c.log P.id s.id →
          Relation.TransGen (Rotated c.log) s.id P.id ∧
            ∃ u, LastRotated l s.id u ∧ t < u + SESSION_ROTATION_GRACE_SECS := by
  constructor
  · intro jar hjar
    obtain ⟨⟨token, hcookies⟩, -⟩ := logout_done h₀ h₁ ho
    have huri : K.abs "/logout" = "/logout" := by
      rw [Site.abs, hbase]
      rfl
    rw [huri]
    exact loggedOut_browser hjar hcookies
  · intro c i s t l h hi ha hl
    exact accepted_after h₀ hs h₁ ho h hi ha hl

section Example

def annLogout (token : String) : Activity := .guarded (from_ "10.0.0.1" (some token)) (.logout "x")

def annCookies : List Cookie :=
  [{ name := SESSION_COOKIE, path := "/", value := "a" }, { name := CSRF_COOKIE, path := "/", value := "x" }]

/-- No request has looked up a session before a logout looks up one or one is created. -/
def calm (c : AccountConfig) : AccountAction → Bool
  | .run i ch =>
    match c.next i with
    | some (.getSessionByTokenHash _) | some (.createSession _) => c.log.all fun k => !k.op.isRead
    | some (.deleteSession _) => ch.fault.isNone
    | _ => true
  | _ => true

theorem unread {log : Log} {s : Session} {l : Log} {i : ℕ} (h : log.all (fun k => !k.op.isRead) = true)
    (hl : l <:+ log) : ¬ Presents (history l i) s := by
  intro hp
  obtain ⟨k, hk, -, hash, he⟩ := presents_logged hp
  have hread := List.all_eq_true.mp h k (hl.subset hk)
  rw [show k.op = .getSessionByTokenHash hash from congrArg Entry.op he] at hread
  cases hread

theorem orderly_of_calm {c : AccountConfig} {x : AccountAction} (h : calm c x = true) :
    Orderly c x := by
  cases x with
  | start p a => trivial
  | env e => trivial
  | run i ch =>
    intro op hn
    simp only [calm, hn] at h
    have hno {x y : SessionId} (hu : c.log.all (fun k => !k.op.isRead) = true) :
        ¬ Rotated c.log x y := by
      rintro ⟨k, l, s, s', hk, -, hp, -⟩
      exact unread hu ((List.suffix_cons k l).trans hk) hp
    cases op with
    | getSessionByTokenHash hash =>
      intro _ s _
      refine ⟨fun y => hno h, ?_⟩
      intro x _ ht
      obtain ⟨y, hy, -⟩ := Relation.TransGen.head'_iff.mp ht
      exact absurd hy (hno h)
    | createSession s' =>
      intro s hp
      exact absurd hp (unread h List.suffix_rfl)
    | deleteSession id =>
      intro _
      simpa using h
    | _ => trivial

def logoutRun : List AccountAction :=
  .start () annLogin :: calls 0 16 { token := "a", uuid := 1 } ++
    .start () (annLogout "a") :: calls 1 6

def logoutConfig : AccountConfig := (dashboard plainSite).after (started annWorld) logoutRun

def logoutResponse : Response :=
  ⟨.redirect "/login", [removal SESSION_COOKIE, csrfCookie "x"]⟩

set_option maxRecDepth 20000 in
theorem annLogout_empties : NoSession (receiveAll (plainSite.abs "/logout") annCookies logoutResponse) := by
  have hreplay : (dashboard plainSite).replayWhile calm (started annWorld) logoutRun =
      some logoutConfig := rfl
  have hact : logoutConfig.threads[1]? =
      some ⟨(), annLogout "a", .ret logoutResponse⟩ := rfl
  have hhist : history logoutConfig.log 1 =
      [⟨.deleteSession ⟨1⟩, .ok ()⟩, ⟨.readClock, (0 : ℤ)⟩] ++ passed seenAnn annSession 0 := rfl
  have hown : OwnCookies annCookies := by
    unfold OwnCookies
    decide
  have hlogout : LoggedOut plainSite logoutConfig 1 annSession logoutResponse := by
    refine ⟨_, _, seenPrincipal seenAnn annSession, passed seenAnn annSession 0, hact, rfl, ?_, ?_⟩
    · exact yields_passed rfl rfl rfl
    · exact hhist ▸ List.suffix_append _ _
  exact (logout_ends_login rfl (started_fresh annWorld) rfl
    ((replayWhile_reaches hreplay).mono fun c x => orderly_of_calm) hlogout).1 annCookies hown

def lateLogoutRun : List AccountAction :=
  .start () annLogin :: calls 0 16 { token := "a", uuid := 1 } ++
    [.env (.elapse 1800), .start () (annLogout "a")] ++ calls 1 9 { token := "b", uuid := 2 }

def lateConfig : AccountConfig := (dashboard plainSite).after (started annWorld) lateLogoutRun

def lateResponse : Response :=
  ⟨.redirect "/login", [removal SESSION_COOKIE, csrfCookie "x", sessionCookie "b"]⟩

def laterRun : List AccountAction :=
  .start () (.guarded (from_ "10.0.0.1" (some "b")) .page) :: calls 2 5

def laterConfig : AccountConfig := (dashboard plainSite).after lateConfig laterRun

def replacedSession : Session :=
  { annSession with id := ⟨2⟩, tokenHash := "b", createdAt := 1800 }

set_option maxRecDepth 20000 in
/-- A logout with a session of half an hour replaces it, and hands the new one out. -/
theorem late_logout_keeps_login :
    (dashboard plainSite).Reaches always (started annWorld) lateConfig ∧
      (dashboard plainSite).Reaches always lateConfig laterConfig ∧
      LoggedOut plainSite lateConfig 1 annSession lateResponse ∧ OwnCookies annCookies ∧
      ¬ NoSession (receiveAll (plainSite.abs "/logout") annCookies lateResponse) ∧
      history lateConfig.log 2 = [] ∧
      Accepted plainSite laterConfig 2 replacedSession 1800 (laterConfig.log.drop 5) ∧
      SameLogin laterConfig.log annSession.id replacedSession.id ∧
      ¬ ∃ u, LastRotated (laterConfig.log.drop 5) replacedSession.id u := by
  have hact : lateConfig.threads[1]? = some ⟨(), annLogout "a", .ret lateResponse⟩ := rfl
  have hhist : history lateConfig.log 1 = [⟨.deleteSession ⟨1⟩, .ok ()⟩,
      ⟨.updateSessionExpiry ⟨1⟩ 1830, .ok ()⟩, ⟨.createSession replacedSession, .ok ()⟩,
      ⟨.mint, (⟨"b", 2⟩ : Minted)⟩, ⟨.readClock, (1800 : ℤ)⟩] ++ passed seenAnn annSession 1800 := rfl
  have hlater : laterConfig.threads[2]? = some ⟨(), .guarded (from_ "10.0.0.1" (some "b")) .page,
      .ret ⟨.served, [csrfCookie "x"]⟩⟩ := rfl
  have hhist' : history laterConfig.log 2 =
      [⟨.readClock, (1800 : ℤ)⟩] ++ passed seenAnn replacedSession 1800 := rfl
  have hread : laterConfig.log.drop 4 = ⟨2, (), .getSessionByTokenHash "b",
      .ok (some replacedSession)⟩ :: laterConfig.log.drop 5 := rfl
  have hrotated : laterConfig.log.drop 7 = ⟨1, (), .createSession replacedSession, .ok ()⟩ ::
      laterConfig.log.drop 8 := rfl
  have hpresented : history (laterConfig.log.drop 8) 1 =
      [⟨.mint, (⟨"b", 2⟩ : Minted)⟩, ⟨.readClock, (1800 : ℤ)⟩,
        ⟨.listUserPermissions ⟨1⟩, .ok []⟩, ⟨.getUserById ⟨1⟩, .ok (some seenAnn)⟩,
        ⟨.readClock, (1800 : ℤ)⟩] ++ [readOf "a" annSession] := rfl
  have hshort : (laterConfig.log.drop 5).all (fun k =>
      match k.op with
      | .updateSessionExpiry id _ => id ≠ ⟨2⟩
      | _ => true) = true := rfl
  refine ⟨after_reaches lateLogoutRun, after_reaches laterRun, ?_, ?_, ?_, rfl, ?_, ?_, ?_⟩
  · refine ⟨_, _, seenPrincipal seenAnn annSession, passed seenAnn annSession 1800, hact, rfl, ?_, ?_⟩
    · exact yields_passed rfl rfl rfl
    · exact hhist ▸ List.suffix_append _ _
  · unfold OwnCookies
    decide
  · unfold NoSession
    decide
  · refine ⟨_, _, seenPrincipal seenAnn replacedSession, passed seenAnn replacedSession 1800, ⟨_, hlater⟩, ?_, ?_,
      .tail _ (.tail _ (.head _)), _, "b", hread ▸ List.drop_suffix 4 _, rfl, rfl⟩
    · exact yields_passed rfl rfl rfl
    · exact hhist' ▸ List.suffix_append _ _
  · refine ⟨annSession.id, .refl, .single ⟨_, _, annSession, replacedSession,
      hrotated ▸ List.drop_suffix 7 _, rfl, ⟨"a", ?_⟩, rfl, rfl⟩⟩
    exact hpresented ▸ List.suffix_append _ _
  · rintro ⟨u, k, l, new, hl, he, -⟩
    have hk : k ∈ laterConfig.log.drop 5 := by
      rw [hl]
      simp
    have hne := List.all_eq_true.mp hshort k hk
    rw [show k.op = .updateSessionExpiry _ _ from congrArg Entry.op he] at hne
    cases hne

end Example

end FleetOrchestrator.Accounts
