import FleetOrchestrator.Accounts.Sessions
import Mathlib.Logic.Relation

/-! How long the sessions live that come from one login, however many requests replace them at
once. -/

namespace FleetOrchestrator.Accounts

open Api Core Tables Store Enrolment Interleaving Machine

/-- One session was replaced by the other. -/
def Rotated (log : Log) (x y : SessionId) : Prop :=
  ∃ k l s s', k :: l <:+ log ∧ k.entry = ⟨.createSession s', .ok ()⟩ ∧
    Presents (history l k.thread) s ∧ s.id = x ∧ s'.id = y

def Descends (log : Log) : SessionId → SessionId → Prop := Relation.ReflTransGen (Rotated log)

/-- A login has opened the session. -/
def LoggedIn (log : Log) (s : Session) : Prop :=
  ∃ k l email user, k :: l <:+ log ∧ k.entry = ⟨.createSession s, .ok ()⟩ ∧
    Told (history l k.thread) (.getUserByEmail email) (.ok (some user))

def Shortens (id : SessionId) (k : Interleaving.Call Op Op.Resp Unit) : Prop :=
  ∃ d, k.entry = ⟨.updateSessionExpiry id d, .ok ()⟩

def Shortened (log : Log) (id : SessionId) : Prop := ∃ k ∈ log, Shortens id k

/-- The last rotation from the session that has shortened it went by that reading of the clock. -/
def LastRotated (log : Log) (id : SessionId) (u : ℤ) : Prop :=
  ∃ k l new, log = new ++ k :: l ∧
    k.entry = ⟨.updateSessionExpiry id (u + SESSION_ROTATION_GRACE_SECS), .ok ()⟩ ∧
    Told (history l k.thread) .readClock u ∧ ∀ k' ∈ new, ¬ Shortens id k'

/-- A request was let through with the session, which it had read after `l`, at the time `t`. -/
def Accepted (K : Site) (c : AccountConfig) (i : ℕ) (s : Session) (t : ℤ) (l : Log) : Prop :=
  ∃ r handler p h, (∃ q, c.threads[i]? = some ⟨(), .guarded r handler, q⟩) ∧
    Yields (authenticate K r) [] (.ok (p, s)) h ∧ h <:+ history c.log i ∧ Told h .readClock t ∧
    ∃ k hash, k :: l <:+ c.log ∧ k.thread = i ∧ k.entry = readOf hash s

/-- The session was created, and has not got longer since. -/
def Born (log : Log) (x : Session) : Prop :=
  ∃ k ∈ log, ∃ s, k.entry = ⟨.createSession s, .ok ()⟩ ∧ x.id = s.id ∧ x.userId = s.userId ∧
    x.expiresAt ≤ s.expiresAt

def Creates (x : SessionId) (k : Interleaving.Call Op Op.Resp Unit) : Prop :=
  ∃ s, k.op = .createSession s ∧ s.id = x

section Draws

variable {K : Site} {ch : Choice} {w w' : World} {m m' : Minted} {c₀ c c' : AccountConfig}
  {cond : AccountConfig → AccountAction → Prop} {i : ℕ}

theorem exec_mint (h : exec K ch .mint w = some (m, w')) :
    m.uuid ∉ w.ids ∧ K.sha256Hex m.token ∉ w.drawn ∧ w'.ids = m.uuid :: w.ids ∧
      w'.drawn = K.sha256Hex m.token :: w.drawn := by
  simp only [exec] at h
  split_ifs at h with hn
  cases h
  simp only [Bool.or_eq_true, List.contains_iff_mem, not_or] at hn
  exact ⟨hn.2, hn.1, rfl, rfl⟩

/-- A step did what its entry tells. -/
theorem ran_done {op : Op} (r : (dashboard K).Ran c c' i ch op) {e : Entry Op Op.Resp}
    (he : (⟨op, r.resp⟩ : Entry Op Op.Resp) = e) : exec K ch e.op c.state = some (e.resp, c'.state) := by
  subst he
  exact r.done

theorem step_draws {x : AccountAction} (hs : (dashboard K).step c x = some c') :
    c.state.ids ⊆ c'.state.ids ∧ c.state.drawn ⊆ c'.state.drawn := by
  have same (hd : c'.state.drawn = c.state.drawn) (hi : c'.state.ids = c.state.ids) :
      c.state.ids ⊆ c'.state.ids ∧ c.state.drawn ⊆ c'.state.drawn := by
    rw [hd, hi]
    exact ⟨List.Subset.refl _, List.Subset.refl _⟩
  cases x with
  | start p a =>
    rw [start_state hs]
    exact ⟨List.Subset.refl _, List.Subset.refl _⟩
  | env e =>
    rw [env_state hs]
    obtain ⟨-, -, hd, hi⟩ := happen_frame K.backend c.state e
    rw [hd, hi]
    exact ⟨List.Subset.refl _, List.Subset.refl _⟩
  | run i ch =>
    obtain ⟨op, ⟨r⟩⟩ := step_run hs
    cases hop : op.draws with
    | false =>
      obtain ⟨hd, hi⟩ := (exec_frame r.done).drawn hop
      exact same hd hi
    | true =>
      cases op with
      | mint =>
        obtain ⟨-, -, hi, hd⟩ := exec_mint r.done
        rw [hi, hd]
        exact ⟨List.subset_cons_self _ _, List.subset_cons_self _ _⟩
      | _ => cases hop

theorem mint_drawn (h₀ : Fresh c₀) (h : (dashboard K).Reaches cond c₀ c) :
    ∀ k ∈ c.log, ∀ m, k.entry = ⟨.mint, m⟩ →
      m.uuid ∈ c.state.ids ∧ K.sha256Hex m.token ∈ c.state.drawn := by
  apply h.logged (P := fun c k => ∀ m, k.entry = ⟨.mint, m⟩ →
    m.uuid ∈ c.state.ids ∧ K.sha256Hex m.token ∈ c.state.drawn) h₀
  · intro c c' i ch op r _ _ _ m he
    obtain ⟨-, -, hi, hd⟩ := exec_mint (ran_done r he)
    rw [hi, hd]
    exact ⟨.head _, .head _⟩
  · intro c x c' k _ _ hs _ ih m he
    obtain ⟨hi, hd⟩ := step_draws hs
    exact ⟨hi (ih m he).1, hd (ih m he).2⟩

/-- What is drawn has not been drawn before. -/
theorem mints_differ (h₀ : Fresh c₀) (h : (dashboard K).Reaches cond c₀ c)
    {k : Interleaving.Call Op Op.Resp Unit} {l : Log} (hk : k :: l <:+ c.log)
    (hm : k.entry = ⟨.mint, m⟩) {k' : Interleaving.Call Op Op.Resp Unit} (hk' : k' ∈ l)
    (hm' : k'.entry = ⟨.mint, m'⟩) :
    m'.uuid ≠ m.uuid ∧ K.sha256Hex m'.token ≠ K.sha256Hex m.token := by
  obtain ⟨c₁, c₂, ch, h₁, -, -, rfl, ⟨r, -, hr⟩, -⟩ := h.at_call h₀ hk
  obtain ⟨hi, hd⟩ := mint_drawn h₀ h₁ k' hk' m' hm'
  have he : (⟨k.op, r.resp⟩ : Entry Op Op.Resp) = ⟨.mint, m⟩ := by
    rw [hr]
    exact hm
  obtain ⟨hni, hnd, -⟩ := exec_mint (ran_done r he)
  constructor
  · intro he
    exact hni (he ▸ hi)
  · intro he
    exact hnd (he ▸ hd)

theorem minted_once (h₀ : Fresh c₀) (h : (dashboard K).Reaches cond c₀ c) (x : ℕ) :
    Once (fun k => ∃ m, k.entry = ⟨.mint, m⟩ ∧ m.uuid = x) c.log := by
  rintro k l hk ⟨m, hm, rfl⟩ k' hk' ⟨m', hm', he⟩
  exact (mints_differ h₀ h hk hm hk' hm').1 he

theorem clock_told (h₀ : Fresh c₀) (h : (dashboard K).Reaches cond c₀ c) :
    ∀ k ∈ c.log, ∀ t, k.entry = ⟨.readClock, t⟩ → t ≤ c.state.now := by
  apply h.logged (P := fun c k => ∀ t, k.entry = ⟨.readClock, t⟩ → t ≤ c.state.now) h₀
  · intro c c' i ch op r _ _ _ t he
    obtain ⟨rfl, hw⟩ := Prod.mk.inj (Option.some.inj (ran_done r he))
    exact (congrArg World.now hw).le
  · intro c x c' k _ _ hs _ ih t he
    exact (ih t he).trans (step_now hs)

theorem told_logged {log : Log} {op : Op} {a : op.Resp} (ht : Told (history log i) op a) :
    ∃ k ∈ log, k.thread = i ∧ k.entry = ⟨op, a⟩ := mem_history.mp ht

end Draws

section Lineage

variable {K : Site} {c₀ c c' : AccountConfig} {cond : AccountConfig → AccountAction → Prop}
  {i : ℕ} {s s' L x : Session} {id : SessionId} {log : Log}
  {k k' : Interleaving.Call Op Op.Resp Unit} {l : Log}

theorem presents_logged (hp : Presents (history log i) s) :
    ∃ k ∈ log, k.thread = i ∧ ∃ hash, k.entry = readOf hash s := by
  obtain ⟨hash, hr⟩ := hp
  obtain ⟨k, hk, ht, he⟩ := mem_history.mp (hr.subset List.mem_cons_self)
  exact ⟨k, hk, ht, hash, he⟩

theorem created_licence (h₀ : Fresh c₀) (h : (dashboard K).Reaches cond c₀ c) (hk : k :: l <:+ c.log)
    (hs : k.op = .createSession s') :
    (∃ s t, Rotates K (history l k.thread) s s' t) ∨ Opens K (history l k.thread) s' := by
  obtain ⟨-, -, -, hl⟩ := logged_licence disciplined h₀ h hk
  rw [hs] at hl
  exact hl

/-- A session is created once. -/
theorem created_once (h₀ : Fresh c₀) (h : (dashboard K).Reaches cond c₀ c) (x : SessionId) :
    Once (Creates x) c.log := by
  apply Once.follows (fun op => ∀ s, op ≠ .createSession s) (minted_once h₀ h x.uuid)
  · rintro k ⟨s, hs, -⟩ hn
    exact hn s hs
  · rintro k l hk ⟨s, hs, rfl⟩
    rcases created_licence h₀ h hk hs with ⟨s₀, t, m, h₁, hh, -, -, rfl⟩ |
      ⟨user, m, createdAt, base, ip, agent, h₁, hh, rfl, -⟩
    · refine ⟨⟨.readClock, t⟩ :: h₁, ⟨.mint, m⟩, ?_, fun k hk => ⟨m, hk, rfl⟩⟩
      rw [hh]
      exact .refl _
    · refine ⟨h₁, ⟨.mint, m⟩, ?_, fun k hk => ⟨m, hk, rfl⟩⟩
      rw [hh]
      exact .cons (fun s hs => by cases hs) (.one fun s hs => by cases hs)

theorem creates_of_entry (he : k.entry = ⟨.createSession s, .ok ()⟩) : Creates s.id k :=
  ⟨s, congrArg Entry.op he, rfl⟩

/-- Only one session has the id. -/
theorem created_eq (h₀ : Fresh c₀) (h : (dashboard K).Reaches cond c₀ c) (hk : k ∈ c.log)
    (hs : k.entry = ⟨.createSession s, .ok ()⟩) (hk' : k' ∈ c.log)
    (hs' : k'.entry = ⟨.createSession s', .ok ()⟩) (hid : s.id = s'.id) : k = k' ∧ s = s' := by
  have he := (created_once h₀ h s'.id).eq hk hk' (hid ▸ creates_of_entry hs) (creates_of_entry hs')
  subst he
  rw [hs] at hs'
  have hop := congrArg Entry.op hs'
  cases hop
  exact ⟨rfl, rfl⟩

theorem Born.later (hb : Born log x) (hs : log <:+ l) : Born l x := by
  obtain ⟨k, hk, hb⟩ := hb
  exact ⟨k, hs.subset hk, hb⟩

theorem quiet_presents {h h₁ : History} {m : Minted} {createdAt base : ℤ}
    (hh : h = ⟨.readClock, base⟩ :: ⟨.readClock, createdAt⟩ :: ⟨.mint, m⟩ :: h₁)
    (hg : Grew Quiet [] h₁) : ¬ Presents h s := by
  intro hp
  obtain ⟨e, he, hread⟩ := hp.isRead
  have hq : Grew Quiet [] h := by
    rw [hh]
    exact .cons ⟨rfl, rfl⟩ (.cons ⟨rfl, rfl⟩ (.cons ⟨rfl, rfl⟩ hg))
  obtain ⟨new, rfl, hn⟩ := hq
  rw [List.append_nil] at he
  have := (hn e he).2
  rw [hread] at this
  cases this

/-- What a request that came with a session creates is the replacement of that session. -/
theorem rotated_from (h₀ : Fresh c₀) (h : (dashboard K).Reaches cond c₀ c) (hk : k :: l <:+ c.log)
    (hs : k.op = .createSession s') (hp : Presents (history l k.thread) s) :
    ∃ t, Rotates K (history l k.thread) s s' t := by
  rcases created_licence h₀ h hk hs with ⟨s₀, t, hr⟩ |
    ⟨user, m, createdAt, base, ip, agent, h₁, hh, rfl, hg, -⟩
  · have hp' := hr
    obtain ⟨m, h₁, hh, hp₁, -, -⟩ := hp'
    have hfirst : Presents (history l k.thread) s₀ := by
      rw [hh]
      exact hp₁.later (List.suffix_append [_, _] h₁)
    cases hp.unique hfirst
    exact ⟨t, hr⟩
  · exact absurd hp (quiet_presents hh hg)

/-- Every row, and every row that was ever read, was created. -/
structure Kept (c : AccountConfig) : Prop where
  rows : ∀ x ∈ c.state.sessions.rows, Born c.log x
  told : ∀ k ∈ c.log, ∀ hash x, k.entry = readOf hash x → Born c.log x

theorem shortened_licence {ch : Choice} {op : Op} (h₀ : Fresh c₀)
    (h : (dashboard K).Reaches cond c₀ c) (r : (dashboard K).Ran c c' i ch op) {d : ℤ}
    (he : op = .updateSessionExpiry id d) :
    ∃ s t, Presents (history c.log i) s ∧ id = s.id ∧ d = t + SESSION_ROTATION_GRACE_SECS ∧
      d < s.expiresAt ∧ Told (history c.log i) .readClock t := by
  have hl := r.licensed disciplined h₀ h
  rw [he] at hl
  obtain ⟨s, s', t, h₁, hh, ⟨m, h₂, hh₁, hp, hrot, -⟩, rfl, rfl⟩ := hl
  simp only [shouldRotate, Bool.and_eq_true, decide_eq_true_eq] at hrot
  rw [hh, hh₁]
  refine ⟨s, t, hp.later (List.suffix_append [_, _, _] h₂), rfl, rfl, hrot.2, ?_⟩
  exact .tail _ (.tail _ (.head _))

theorem kept_step {x : AccountAction} (h₀ : Fresh c₀) (h : (dashboard K).Reaches cond c₀ c)
    (hx : cond c x) (hs : (dashboard K).step c x = some c') (hk : Kept c) : Kept c' := by
  have hlog := step_log hs
  have htold : ∀ k ∈ c.log, ∀ hash y, k.entry = readOf hash y → Born c'.log y :=
    fun k hkl hash y he => (hk.told k hkl hash y he).later hlog
  cases x with
  | start p a =>
    have hl := (step_start hs).2.2
    refine ⟨fun y hy => ?_, fun k hkl => htold k (hl ▸ hkl)⟩
    rw [start_state hs] at hy
    exact (hk.rows y hy).later hlog
  | env e =>
    have hl := (step_env hs).2.2
    refine ⟨fun y hy => ?_, fun k hkl => htold k (hl ▸ hkl)⟩
    rw [env_state hs] at hy
    exact (hk.rows y ((happen_frame _ _ _).1 y hy)).later hlog
  | run i ch =>
    obtain ⟨op, ⟨r⟩⟩ := step_run hs
    have hreach : (dashboard K).Reaches cond c₀ c' := .tail _ h hx hs
    constructor
    · intro y hy
      have harr := exec_arrives r.done hy
      generalize he : (⟨op, r.resp⟩ : Entry Op Op.Resp) = e at harr
      cases harr with
      | kept hold => exact (hk.rows y hold).later hlog
      | created =>
        refine ⟨⟨i, r.party, op, r.resp⟩, ?_, y, he, rfl, rfl, le_rfl⟩
        rw [r.log]
        exact .head _
      | shortened z d hz hzy =>
        obtain ⟨s, t, hp, hid, -, hlt, -⟩ := shortened_licence h₀ h r (congrArg Entry.op he)
        obtain ⟨k, hkl, -, hash, hread⟩ := presents_logged hp
        obtain ⟨k₁, hk₁, s₁, hs₁, hid₁, -, hle₁⟩ := hk.told k hkl hash s hread
        obtain ⟨k₂, hk₂, s₂, hs₂, hid₂, huser₂, -⟩ := hk.rows z hz
        have hsame : s₁.id = s₂.id := by rw [← hid₁, ← hid, hid₂]
        obtain ⟨-, rfl⟩ := created_eq h₀ h hk₁ hs₁ hk₂ hs₂ hsame
        rw [hzy]
        refine Born.later ⟨k₂, hk₂, s₁, hs₂, hid₂, huser₂, ?_⟩ hlog
        change d ≤ s₁.expiresAt
        omega
    · intro k hkl hash y he
      rw [r.log] at hkl
      rcases List.mem_cons.mp hkl with rfl | hkl
      · have hget := exec_read (ran_done r he)
        exact (hk.rows y (Keyed.get_eq_some.mp hget).1).later hlog
      · exact htold k hkl hash y he

theorem kept (h₀ : Fresh c₀) (hs : c₀.state.sessions = .empty)
    (h : (dashboard K).Reaches cond c₀ c) : Kept c := by
  apply h.invariant (P := Kept)
  · constructor
    · intro x hx
      rw [hs] at hx
      cases hx
    · intro k hk
      rw [h₀.log] at hk
      cases hk
  · intro c x c' hr hx hstep hk
    exact kept_step h₀ hr hx hstep hk

/-- What descends from a session ends no later. -/
theorem descendant_expires (h₀ : Fresh c₀) (hs : c₀.state.sessions = .empty)
    (h : (dashboard K).Reaches cond c₀ c) (hL : k ∈ c.log)
    (hLe : k.entry = ⟨.createSession L, .ok ()⟩) (hd : Descends c.log L.id id) (hs' : k' ∈ c.log)
    (hse : k'.entry = ⟨.createSession s, .ok ()⟩) (hid : s.id = id) : s.expiresAt ≤ L.expiresAt := by
  induction hd generalizing s k' with
  | refl =>
    obtain ⟨-, rfl⟩ := created_eq h₀ h hs' hse hL hLe hid
    exact le_rfl
  | tail hd hr ih =>
    obtain ⟨k₁, l, y, y', hk₁, hy', hp, rfl, hid'⟩ := hr
    have hmem : k₁ ∈ c.log := hk₁.subset List.mem_cons_self
    obtain ⟨-, rfl⟩ := created_eq h₀ h hs' hse hmem hy' (hid.trans hid'.symm)
    obtain ⟨t, m, h₁, -, -, -, rfl⟩ := rotated_from h₀ h hk₁ (congrArg Entry.op hy') hp
    obtain ⟨k₂, hk₂, -, hash, hread⟩ := presents_logged hp
    have hin : k₂ ∈ c.log := hk₁.subset (.tail _ hk₂)
    obtain ⟨k₃, hk₃, s₃, hs₃, hid₃, -, hle⟩ := (kept h₀ hs h).told k₂ hin hash y hread
    exact hle.trans (ih hk₃ hs₃ hid₃.symm)

section Deadlines

variable {u : ℤ}

theorem LastRotated.cons (hl : LastRotated log id u) (hk : ¬ Shortens id k) :
    LastRotated (k :: log) id u := by
  obtain ⟨k₁, l, new, rfl, he, ht, hn⟩ := hl
  refine ⟨k₁, l, k :: new, rfl, he, ht, ?_⟩
  intro k' hk'
  rcases List.mem_cons.mp hk' with rfl | hk'
  · exact hk
  · exact hn k' hk'

theorem Shortened.of_cons (hl : Shortened (k :: log) id) (hk : ¬ Shortens id k) :
    Shortened log id := by
  obtain ⟨k', hk', hd⟩ := hl
  rcases List.mem_cons.mp hk' with rfl | hk'
  · exact absurd hd hk
  · exact ⟨k', hk', hd⟩

/-- A session that was shortened ends with the grace of the last rotation from it. -/
def Ends (c : AccountConfig) : Prop :=
  ∀ x ∈ c.state.sessions.rows, Shortened c.log x.id → ∃ u, LastRotated c.log x.id u ∧
    x.expiresAt = u + SESSION_ROTATION_GRACE_SECS ∧ u ≤ c.state.now

/-- What is shortened has been created before. -/
theorem shortened_created (h₀ : Fresh c₀) (hs : c₀.state.sessions = .empty)
    (h : (dashboard K).Reaches cond c₀ c) (hd : Shortened c.log id) : ∃ k ∈ c.log, Creates id k := by
  obtain ⟨k, hk, d, he⟩ := hd
  obtain ⟨l, hl⟩ := placed hk
  obtain ⟨-, -, -, hlic⟩ := logged_licence disciplined h₀ h hl
  rw [show k.op = .updateSessionExpiry id d from congrArg Entry.op he] at hlic
  obtain ⟨s, s', t, h₁, hh, ⟨m, h₂, hh₁, hp, -, -⟩, rfl, -⟩ := hlic
  have hfirst : Presents (history l k.thread) s := by
    rw [hh, hh₁]
    exact hp.later (List.suffix_append [_, _, _] h₂)
  obtain ⟨k₁, hk₁, -, hash, hread⟩ := presents_logged hfirst
  obtain ⟨k₂, hk₂, s₂, hs₂, hid, -⟩ :=
    (kept h₀ hs h).told k₁ (hl.subset (.tail _ hk₁)) hash s hread
  exact ⟨k₂, hk₂, s₂, congrArg Entry.op hs₂, hid.symm⟩

theorem ends_step {x : AccountAction} (h₀ : Fresh c₀) (hempty : c₀.state.sessions = .empty)
    (h : (dashboard K).Reaches cond c₀ c) (hx : cond c x)
    (hs : (dashboard K).step c x = some c') (he : Ends c) : Ends c' := by
  intro y hy hd
  cases x with
  | start p a =>
    rw [start_state hs] at hy ⊢
    rw [(step_start hs).2.2] at hd ⊢
    exact he y hy hd
  | env e =>
    have hnow := step_now hs
    rw [env_state hs] at hy
    rw [(step_env hs).2.2] at hd ⊢
    obtain ⟨u, hu, hexp, hle⟩ := he y ((happen_frame _ _ _).1 y hy) hd
    exact ⟨u, hu, hexp, hle.trans hnow⟩
  | run i ch =>
    obtain ⟨op, ⟨r⟩⟩ := step_run hs
    have hnow : c'.state.now = c.state.now := (exec_frame r.done).now
    rw [hnow]
    by_cases hk : Shortens y.id ⟨i, r.party, op, r.resp⟩
    · obtain ⟨d, hent⟩ := hk
      obtain ⟨s, t, -, -, rfl, -, ht⟩ := shortened_licence h₀ h r (congrArg Entry.op hent)
      obtain ⟨k, hk, hki, hke⟩ := told_logged ht
      refine ⟨t, ?_, exec_shortened (ran_done r hent) hy rfl, clock_told h₀ h k hk t hke⟩
      exact ⟨_, c.log, [], r.log, hent, ht, fun _ hn => by cases hn⟩
    · rw [r.log] at hd ⊢
      have hd := hd.of_cons hk
      have harr := exec_arrives r.done hy
      generalize hent : (⟨op, r.resp⟩ : Entry Op Op.Resp) = e at harr
      cases harr with
      | kept hold =>
        obtain ⟨u, hu, hexp, hle⟩ := he y hold hd
        exact ⟨u, hu.cons hk, hexp, hle⟩
      | created =>
        -- Nobody can have shortened what is only created now.
        have hreach : (dashboard K).Reaches cond c₀ c' := .tail _ h hx hs
        obtain ⟨k, hkl, hc⟩ := shortened_created h₀ hempty h hd
        have hself : Creates y.id (⟨i, r.party, op, r.resp⟩ : Interleaving.Call Op Op.Resp Unit) :=
          creates_of_entry hent
        exact absurd hc (created_once h₀ hreach y.id _ c.log (r.log ▸ List.suffix_rfl) hself k hkl)
      | shortened z d hz hzy =>
        refine absurd ⟨d, ?_⟩ hk
        rw [hzy]
        exact hent

theorem ends (h₀ : Fresh c₀) (hs : c₀.state.sessions = .empty)
    (h : (dashboard K).Reaches cond c₀ c) : Ends c := by
  apply h.invariant (P := Ends)
  · intro x hx
    rw [hs] at hx
    cases hx
  · intro c x c' hr hx hstep he
    exact ends_step h₀ hs hr hx hstep he

/-- Where a session was read, it was a row. -/
theorem read_row (h₀ : Fresh c₀) (h : (dashboard K).Reaches cond c₀ c) (hk : k :: l <:+ c.log)
    {hash : String} (he : k.entry = readOf hash s) :
    ∃ c₁, (dashboard K).Reaches cond c₀ c₁ ∧ (dashboard K).Reaches cond c₁ c ∧ c₁.log = l ∧
      s ∈ c₁.state.sessions.rows := by
  obtain ⟨c₁, c₂, ch, h₁, hx, hs, rfl, ⟨r, -, hr⟩, h₂⟩ := h.at_call h₀ hk
  have hent : (⟨k.op, r.resp⟩ : Entry Op Op.Resp) = readOf hash s := by
    rw [hr]
    exact he
  have hget := exec_read (ran_done r hent)
  exact ⟨c₁, h₁, (Reaches.single hx hs).trans h₂, rfl, (Keyed.get_eq_some.mp hget).1⟩

/-- A request that was begun later read its session later, as a row. -/
theorem accepted_row {t : ℤ} (h : (dashboard K).Reaches cond c c') (hi : history c.log i = [])
    (ha : Accepted K c' i s t l) :
    ∃ c₁, (dashboard K).Reaches cond c c₁ ∧ (dashboard K).Reaches cond c₁ c' ∧ c₁.log = l ∧
      s ∈ c₁.state.sessions.rows := by
  obtain ⟨-, -, -, -, -, -, -, -, k, hash, hk, rfl, he⟩ := ha
  have hbehind : c.log <:+ l := behind_idle hk h.log_suffix hi
  have hn : ¬ k :: l <:+ c.log := by
    intro hsuf
    have hlen := (hsuf.trans hbehind).length_le
    rw [List.length_cons] at hlen
    omega
  obtain ⟨c₁, c₂, ch, h₁, hx, hs, rfl, ⟨ran, -, hresp⟩, h₂⟩ := h.step_of_log hk hn
  have hent : (⟨k.op, ran.resp⟩ : Entry Op Op.Resp) = readOf hash s := by
    rw [hresp]
    exact he
  have hget := exec_read (ran_done ran hent)
  exact ⟨c₁, h₁, (Reaches.single hx hs).trans h₂, rfl, (Keyed.get_eq_some.mp hget).1⟩

/-- Who reads a session after it was shortened reads the end of its grace. -/
theorem read_shortened (h₀ : Fresh c₀) (hs : c₀.state.sessions = .empty)
    (h : (dashboard K).Reaches cond c₀ c) (hk : k :: l <:+ c.log) {hash : String}
    (he : k.entry = readOf hash s) (hd : Shortened l s.id) :
    ∃ u c₁, LastRotated l s.id u ∧ s.expiresAt = u + SESSION_ROTATION_GRACE_SECS ∧
      u ≤ c₁.state.now ∧ c₁.log = l ∧ (dashboard K).Reaches cond c₀ c₁ ∧
      (dashboard K).Reaches cond c₁ c := by
  obtain ⟨c₁, h₁, h₂, rfl, hrow⟩ := read_row h₀ h hk he
  obtain ⟨u, hu, hexp, hle⟩ := ends h₀ hs h₁ s hrow hd
  exact ⟨u, c₁, hu, hexp, hle, rfl, h₁, h₂⟩

/-- A reading of the clock that came later tells a later time. -/
theorem clock_after (h : (dashboard K).Reaches cond c c') (hk : k :: l <:+ c'.log) {t : ℤ}
    (he : k.entry = ⟨.readClock, t⟩) (hl : c.log <:+ l) : c.state.now ≤ t := by
  have hn : ¬ k :: l <:+ c.log := by
    intro hs
    have hlen := (hs.trans hl).length_le
    rw [List.length_cons] at hlen
    omega
  obtain ⟨c₁, c₂, ch, h₁, -, -, -, ⟨r, -, hr⟩, -⟩ := h.step_of_log hk hn
  have hent : (⟨k.op, r.resp⟩ : Entry Op Op.Resp) = ⟨.readClock, t⟩ := by
    rw [hr]
    exact he
  obtain ⟨rfl, -⟩ := Prod.mk.inj (Option.some.inj (ran_done r hent))
  exact reaches_now h₁

/-- The look-up of a session is the first that a request does. -/
theorem read_first (h₀ : Fresh c₀) (h : (dashboard K).Reaches cond c₀ c) (hk : k :: l <:+ c.log)
    {hash : String} (he : k.entry = readOf hash s) : history l k.thread = [] := by
  obtain ⟨-, -, -, hl⟩ := logged_licence disciplined h₀ h hk
  rw [show k.op = .getSessionByTokenHash hash from congrArg Entry.op he] at hl
  exact hl

theorem read_presents (h₀ : Fresh c₀) (h : (dashboard K).Reaches cond c₀ c) (hk : k :: l <:+ c.log)
    {hash : String} (he : k.entry = readOf hash s) {log : Log} (hl : k :: l <:+ log) :
    Presents (history log k.thread) s := by
  have hat := history_at hl
  rw [he, read_first h₀ h hk he] at hat
  exact ⟨hash, hat⟩

/-- The first operation of a thread stands at one place. -/
theorem first_place (hk : k :: l <:+ log) (hk' : k' :: log' <:+ log) (hi : k.thread = k'.thread)
    (hl : history l k.thread = []) (hl' : history log' k'.thread = []) : k = k' ∧ l = log' := by
  rcases ordered hk hk' with he | hs | hs
  · exact he
  · have hat := history_at hs
    rw [hi, hl', List.suffix_nil] at hat
    cases hat
  · have hat := history_at hs
    rw [← hi, hl, List.suffix_nil] at hat
    cases hat

/-- Who reads a session after it was shortened does not replace it. -/
theorem shortened_not_rotated (h₀ : Fresh c₀) (hs : c₀.state.sessions = .empty)
    (h : (dashboard K).Reaches cond c₀ c) (hk : k :: l <:+ c.log) (hc : k.op = .createSession s')
    (hr : k' :: log <:+ l) (hi : k'.thread = k.thread) {hash : String} (he : k'.entry = readOf hash s) :
    ¬ Shortened log s.id := by
  intro hd
  have hkl : l <:+ c.log := (List.suffix_cons k l).trans hk
  have hr' := hr.trans hkl
  obtain ⟨t, m, h₁, hh, hp, hrot, -⟩ := rotated_from h₀ h hk hc (hi ▸ read_presents h₀ h hr' he hr)
  obtain ⟨u, c₁, -, hexp, hle, hlog, -, h₂⟩ := read_shortened h₀ hs h hr' he hd
  have hclock : (⟨.readClock, t⟩ : Entry Op Op.Resp) :: h₁ <:+ history l k.thread := by
    rw [hh]
    exact List.suffix_cons _ _
  obtain ⟨q, lq, hq, hqi, hqe, hqh⟩ := of_history_at hclock
  obtain ⟨hash', hpre⟩ := hp
  rw [← hqh] at hpre
  obtain ⟨r, lr, hrq, hri, hre, hrh⟩ := of_history_at hpre
  have hlq : lq <:+ l := (List.suffix_cons q lq).trans hq
  obtain ⟨rfl, rfl⟩ := first_place hr (hrq.trans hlq) (hi.trans hri.symm) (read_first h₀ h hr' he)
    (hri ▸ hrh)
  have hbefore : c₁.log <:+ lq := by
    rw [hlog]
    exact (List.suffix_cons _ _).trans hrq
  have hnow := clock_after h₂ (hq.trans hkl) hqe hbefore
  simp only [shouldRotate, Bool.and_eq_true, decide_eq_true_eq] at hrot
  omega

theorem accepted_shortened {t : ℤ} (h₀ : Fresh c₀) (hs : c₀.state.sessions = .empty)
    (h : (dashboard K).Reaches cond c₀ c) (ha : Accepted K c i s t l) (hd : Shortened l s.id) :
    ∃ u, LastRotated l s.id u ∧ t < u + SESSION_ROTATION_GRACE_SECS := by
  obtain ⟨r, handler, p, hist, -, hy, -, ht, k, hash, hk, -, he⟩ := ha
  obtain ⟨u, c₁, hu, hexp, -⟩ := read_shortened h₀ hs h hk he hd
  obtain ⟨token, t', permissions, -, hh, hlive, -⟩ := authenticate_passed hy
  have htime : t = t' := by
    rw [hh] at ht
    simpa [Told, readOf] using ht
  simp only [Session.isExpired, decide_eq_false_iff_not] at hlive
  exact ⟨u, hu, by omega⟩

end Deadlines

end Lineage

/-- However requests interleave: nothing that comes from a login outlives what the login opened, who
reads a session after it was shortened does not replace it, and a replaced session lets nobody
through once the grace of the last rotation from it is over. -/
theorem rotations_bounded {K : Site} {c₀ c : AccountConfig} (h₀ : Fresh c₀)
    (hs : c₀.state.sessions = .empty) (h : (dashboard K).Reaches always c₀ c) :
    (∀ L, LoggedIn c.log L → ∀ s ∈ c.state.sessions.rows, Descends c.log L.id s.id →
        s.expiresAt ≤ L.expiresAt) ∧
      (∀ k l s' r lr s hash, k :: l <:+ c.log → k.op = .createSession s' → r :: lr <:+ l →
        r.thread = k.thread → r.entry = readOf hash s → ¬ Shortened lr s.id) ∧
      ∀ i s t l, Accepted K c i s t l → Shortened l s.id →
        ∃ u, LastRotated l s.id u ∧ t < u + SESSION_ROTATION_GRACE_SECS := by
  refine ⟨?_, ?_, ?_⟩
  · rintro L ⟨k, l, email, user, hk, hL, -⟩ s hrow hd
    obtain ⟨k', hk', s', hs', hid, -, hle⟩ := (kept h₀ hs h).rows s hrow
    have hin : k ∈ c.log := hk.subset List.mem_cons_self
    exact hle.trans (descendant_expires h₀ hs h hin hL hd hk' hs' hid.symm)
  · intro k l s' r lr s hash hk hc hr hi he
    exact shortened_not_rotated h₀ hs h hk hc hr hi he
  · intro i s t l ha hd
    exact accepted_shortened h₀ hs h ha hd

section Example

/-- A site with toy functions for those of other packages. -/
def plainSite : Site where
  sha256Hex s := s
  verifyPassword password hash := password = hash
  validatePassword _ _ := true

def ann : User :=
  { id := ⟨1⟩, username := "ann", email := some "ann@fleet.dev", emailVerified := true,
    passwordHash := "secret", createdAt := 0 }

def annWorld : World := { users := Keyed.empty.put ann }

def started (w : World) : AccountConfig := ⟨w, [], []⟩

theorem started_fresh (w : World) : Fresh (started w) := ⟨rfl, rfl⟩

def calls (i n : ℕ) (ch : Choice := {}) : List AccountAction := List.replicate n (.run i ch)

def from_ (ip : String) (token : Option String := none) : Request :=
  { ip, sessionCookie := token, csrfCookie := some "x" }

def annLogin : Activity :=
  .login (from_ "10.0.0.1") { email := "ann@fleet.dev", password := "secret", csrfToken := "x" }

/-- A login, a rotation half an hour later, and a request with the old token after that. -/
def rotatedRun : List AccountAction :=
  .start () annLogin :: calls 0 16 { token := "a", uuid := 1 } ++
    [.env (.elapse 1800), .start () (.guarded (from_ "10.0.0.1" (some "a")) .page)] ++
    calls 1 8 { token := "b", uuid := 2 } ++
    [.env (.elapse 10), .start () (.guarded (from_ "10.0.0.1" (some "a")) .page)] ++ calls 2 5

def shortenedAnn : Session :=
  { id := ⟨1⟩, userId := ⟨1⟩, tokenHash := "a", createdAt := 0, expiresAt := 1830,
    ipAddress := some "10.0.0.1" }

def annSession : Session :=
  { id := ⟨1⟩, userId := ⟨1⟩, tokenHash := "a", createdAt := 0, expiresAt := 28800,
    ipAddress := some "10.0.0.1" }

def seenAnn : User := { ann with lastLoginAt := some 0 }

def seenPrincipal (u : User) (s : Session) : AuthPrincipal :=
  { user := u, permissions := [], sessionId := s.id }

/-- What a request with a session is told that is let through. -/
def passed (u : User) (s : Session) (t : ℤ) : History :=
  [⟨.listUserPermissions u.id, .ok []⟩, ⟨.getUserById s.userId, .ok (some u)⟩, ⟨.readClock, t⟩,
    readOf s.tokenHash s]

theorem yields_passed {r : Request} {s : Session} {u : User} {t : ℤ}
    (hc : r.sessionCookie = some s.tokenHash) (ht : s.isExpired t = false) (hu : u.enabled = true) :
    Yields (authenticate plainSite r) [] (.ok (seenPrincipal u s, s)) (passed u s t) := by
  unfold authenticate
  rw [hc]
  refine .call (.ok (some s)) (.call t ?_)
  change Yields (if s.isExpired t = true then _ else _) _ _ _
  rw [if_neg (by simp [ht])]
  refine .call (.ok (some u)) ?_
  change Yields (if (!u.enabled) = true then _ else _) _ _ _
  rw [if_neg (by simp [hu])]
  exact .call (.ok []) .ret

def rotatedConfig : AccountConfig := (dashboard plainSite).after (started annWorld) rotatedRun

set_option maxRecDepth 20000 in
theorem old_token_accepted : ∃ u, LastRotated (rotatedConfig.log.drop 5) ⟨1⟩ u ∧
    1810 < u + SESSION_ROTATION_GRACE_SECS := by
  have hact : rotatedConfig.threads[2]? = some ⟨(), .guarded (from_ "10.0.0.1" (some "a")) .page,
      .ret ⟨.served, [csrfCookie "x"]⟩⟩ := rfl
  have hhist : history rotatedConfig.log 2 =
      [⟨.readClock, (1810 : ℤ)⟩] ++ passed seenAnn shortenedAnn 1810 := rfl
  have hread : rotatedConfig.log.drop 4 = ⟨2, (), .getSessionByTokenHash "a",
      .ok (some shortenedAnn)⟩ :: rotatedConfig.log.drop 5 := rfl
  have hshort : (rotatedConfig.log.drop 5).head? =
      some ⟨1, (), .updateSessionExpiry ⟨1⟩ 1830, .ok ()⟩ := rfl
  apply (rotations_bounded (started_fresh annWorld) rfl (after_reaches rotatedRun)).2.2 2
    shortenedAnn 1810
  · refine ⟨_, _, seenPrincipal seenAnn shortenedAnn, passed seenAnn shortenedAnn 1810, ⟨_, hact⟩,
      yields_passed rfl rfl rfl, ?_, .tail _ (.tail _ (.head _)),
      ⟨2, (), .getSessionByTokenHash "a", .ok (some shortenedAnn)⟩, "a", ?_, rfl, rfl⟩
    · exact hhist ▸ List.suffix_append [_] _
    · exact hread ▸ List.drop_suffix 4 _
  · exact ⟨_, List.mem_of_mem_head? hshort, 1830, rfl⟩

end Example

end FleetOrchestrator.Accounts
