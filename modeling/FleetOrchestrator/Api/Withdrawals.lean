import FleetOrchestrator.Api.AdminTokens
import FleetOrchestrator.Interleaving.Passage

/-! Tokens that were withdrawn or never handed out open no server, and the first one is issued once. -/

namespace FleetOrchestrator.Api.AdminTokens

open Core Store Tables Interleaving Machine

section Runs

variable {K : Site} {cond : TokenConfig → Action ℕ Activity Choice Unit → Prop}
  {c₀ c c' : TokenConfig} {digest p : String} {l log : Log}

/-- The whole run began with an empty table and nothing asked. -/
structure Begun (c₀ : TokenConfig) : Prop extends Fresh c₀ where
  tokens : c₀.state.tokens = .empty
  drawn : c₀.state.drawn = []

theorem step_known (h₀ : Fresh c₀) (h : (servers K).Reaches cond c₀ c)
    {x : Action ℕ Activity Choice Unit} (hs : (servers K).step c x = some c')
    (ht : known c.state.tokens = told c.log) : known c'.state.tokens = told c'.log := by
  cases x with
  | start q a =>
    obtain ⟨hst, -, hlog⟩ := step_start hs
    rw [hlog, ← ht, ← Option.some.inj hst]
  | env e =>
    obtain ⟨hst, -, hlog⟩ := step_env hs
    rw [hlog, ← ht, ← Option.some.inj hst]
  | run i ch =>
    obtain ⟨op, ⟨r⟩⟩ := step_run hs
    have hrule := r.licensed (tokens_disciplined K) h₀ h
    have hcreated : ∀ t, op = .createAdminToken t → t.revokedAt = none := by
      rintro t rfl
      exact hrule.1
    rw [r.log, exec_known (q := r.party) r.done hcreated, ht]
    rfl

/-- The table holds what the log says, for every principal. -/
theorem tokens_told (h₀ : Begun c₀) (h : (servers K).Reaches cond c₀ c) :
    known c.state.tokens = told c.log := by
  apply h.invariant (P := fun c => known c.state.tokens = told c.log)
  · rw [h₀.tokens, h₀.log]
    rfl
  · intro c x c' hr _ hs ih
    exact step_known h₀.toFresh hr hs ih

/-- What is said of a token after an operation was said before, or the operation has put it. -/
theorem recorded_cases {s : Known} {e : Entry Op Op.Resp} {x : Standing}
    (hx : recorded s e p = some x) : put e = some (p, x.token.tokenDigest) ∨
      ∃ y, s p = some y ∧ y.token.tokenDigest = x.token.tokenDigest ∧ (x.active = true → y = x) := by
  have same (hx : s p = some x) : ∃ y, s p = some y ∧
      y.token.tokenDigest = x.token.tokenDigest ∧ (x.active = true → y = x) :=
    ⟨x, hx, rfl, fun _ => rfl⟩
  rcases e with ⟨op, r⟩
  cases op with
  | createAdminToken t =>
    cases r with
    | error e => exact .inr (same hx)
    | ok u =>
      simp only [recorded, Function.update_apply] at hx
      split_ifs at hx with hp
      · cases hx
        rw [hp]
        exact .inl rfl
      · exact .inr (same hx)
  | rotateAdminToken q d =>
    cases r with
    | error e => exact .inr (same hx)
    | ok u =>
      simp only [recorded, Known.change, Function.update_apply] at hx
      split_ifs at hx with hp
      · obtain ⟨y, -, rfl⟩ := Option.map_eq_some_iff.mp hx
        rw [hp]
        exact .inl rfl
      · exact .inr (same hx)
  | revokeAdminToken q =>
    rcases r with e | (_ | _)
    · exact .inr (same hx)
    · exact .inr (same hx)
    · simp only [recorded, Known.change, Function.update_apply] at hx
      split_ifs at hx with hp
      · obtain ⟨y, hy, rfl⟩ := Option.map_eq_some_iff.mp hx
        rw [hp]
        exact .inr ⟨y, hy, rfl, fun ha => by cases ha⟩
      · exact .inr (same hx)
  | _ => exact .inr (same hx)

theorem put_of_told {x : Standing} (ht : told log p = some x) :
    ∃ k ∈ log, put k.entry = some (p, x.token.tokenDigest) := by
  induction log generalizing x with
  | nil => cases ht
  | cons k log ih =>
    rcases recorded_cases ht with hput | ⟨y, hy, hd, -⟩
    · exact ⟨k, .head _, hput⟩
    · obtain ⟨k', hk', hput⟩ := ih hy
      exact ⟨k', .tail _ hk', hd ▸ hput⟩

/-- No principal's token has the digest. -/
def Gone (digest : String) (log : Log) : Prop :=
  ∀ p x, told log p = some x → x.active = true → x.token.tokenDigest ≠ digest

def PutsDigest (digest : String) (k : Interleaving.Call Op Op.Resp ℕ) : Prop :=
  ∃ p, put k.entry = some (p, digest)

/-- What was put once is gone for good when it is gone. -/
theorem gone_later (ho : Once (PutsDigest digest) log) (hl : l <:+ log)
    (hput : ∃ k ∈ l, PutsDigest digest k) (hg : Gone digest l) : Gone digest log := by
  induction log with
  | nil =>
    rw [List.suffix_nil] at hl
    exact hl ▸ hg
  | cons k log ih =>
    rcases List.suffix_cons_iff.mp hl with rfl | hl
    · exact hg
    · intro p x hx ha hd
      have ho' : Once (PutsDigest digest) log :=
        fun k' l' hk' => ho k' l' (hk'.trans (List.suffix_cons _ _))
      rcases recorded_cases hx with hk | ⟨y, hy, hyd, he⟩
      · obtain ⟨k', hk', hp'⟩ := hput
        exact ho k log List.suffix_rfl ⟨p, hd ▸ hk⟩ k' (hl.subset hk') hp'
      · rw [he ha] at hy
        exact ih ho' hl p x hy ha hd

/-- An operation that ends the token of its principal ends the digest that was put for it. -/
theorem gone_withdrawn {k : Interleaving.Call Op Op.Resp ℕ}
    (ho : Once (PutsDigest digest) (k :: l)) {j : Interleaving.Call Op Op.Resp ℕ} (hj : j ∈ l)
    (hp : put j.entry = some (p, digest)) (hw : Withdraws p k.entry) : Gone digest (k :: l) := by
  intro p' x hx ha hd
  rcases recorded_cases hx with hk | ⟨y, hy, hyd, he⟩
  · exact ho k l List.suffix_rfl ⟨p', hd ▸ hk⟩ j hj ⟨p, hp⟩
  · obtain ⟨j', hj', hp'⟩ := put_of_told hy
    have ho' : Once (PutsDigest digest) l :=
      fun k' l' hk' => ho k' l' (hk'.trans (List.suffix_cons _ _))
    rw [hyd, hd] at hp'
    obtain rfl := ho'.eq hj hj' ⟨p, hp⟩ ⟨p', hp'⟩
    rw [hp] at hp'
    cases hp'
    simp only [told] at hx
    generalize hk : k.entry = e at hx hw
    cases hw with
    | rotated d t =>
      simp only [recorded, Known.change, Function.update_self] at hx
      obtain ⟨z, -, rfl⟩ := Option.map_eq_some_iff.mp hx
      refine ho k l List.suffix_rfl ⟨p, ?_⟩ j hj ⟨p, hp⟩
      rw [hk, ← hd]
      rfl
    | revoked =>
      simp only [recorded, Known.change, Function.update_self] at hx
      obtain ⟨z, -, rfl⟩ := Option.map_eq_some_iff.mp hx
      cases ha

theorem exec_drawn {ch : Choice} {q : ℕ} {w w' : World} {op : Op} {r : op.Resp}
    (he : exec K ch q op w = some (r, w')) :
    w.drawn ⊆ w'.drawn ∧ ∀ token, (⟨op, r⟩ : Entry Op Op.Resp) = ⟨.generateToken, .ok token⟩ →
      K.digestFor token ∉ w.drawn ∧ K.digestFor token ∈ w'.drawn := by
  cases op with
  | generateToken =>
    simp only [exec] at he
    split at he
    · cases he
      exact ⟨List.Subset.refl _, fun token ht => by cases ht⟩
    · next token _ =>
      split_ifs at he with hn
      cases he
      refine ⟨List.subset_cons_self _ _, fun t ht => ?_⟩
      cases ht
      exact ⟨by simpa using hn, .head _⟩
  | utcNow =>
    cases he
    exact ⟨List.Subset.refl _, fun token ht => by cases ht⟩
  | _ =>
    cases hf : ch.fault <;> simp only [exec, attempt, hf] at he <;> cases he <;>
      exact ⟨List.Subset.refl _, fun token ht => by cases ht⟩

def DrewDigest (K : Site) (digest : String) (k : Interleaving.Call Op Op.Resp ℕ) : Prop :=
  ∃ token, k.entry = ⟨.generateToken, .ok token⟩ ∧ K.digestFor token = digest

theorem drawn_logged (h₀ : Fresh c₀) (h : (servers K).Reaches cond c₀ c) :
    ∀ k ∈ c.log, DrewDigest K digest k → digest ∈ c.state.drawn := by
  apply h.logged (P := fun c k => DrewDigest K digest k → digest ∈ c.state.drawn) h₀
  · rintro c c' i ch op r - - - ⟨token, ht, rfl⟩
    exact ((exec_drawn (q := r.party) r.done).2 token ht).2
  · intro c x c' k _ _ hs _ ih hk
    cases x with
    | start q a => exact Option.some.inj (step_start hs).1 ▸ ih hk
    | env e => exact Option.some.inj (step_env hs).1 ▸ ih hk
    | run i ch =>
      obtain ⟨op, ⟨r⟩⟩ := step_run hs
      exact (exec_drawn (q := r.party) r.done).1 (ih hk)

theorem drawn_once (h₀ : Fresh c₀) (h : (servers K).Reaches cond c₀ c) :
    Once (DrewDigest K digest) c.log := by
  rintro k l hk ⟨token, ht, rfl⟩ k' hk' hd
  obtain ⟨c₁, c₂, ch, h₁, -, -, rfl, ⟨r, -, hr⟩, -⟩ := h.at_call h₀ hk
  have hold := drawn_logged h₀ h₁ k' hk' hd
  have he : (⟨k.op, r.resp⟩ : Entry Op Op.Resp) = ⟨.generateToken, .ok token⟩ := by
    rw [hr]
    exact ht
  exact ((exec_drawn (q := r.party) r.done).2 token he).1 hold

/-- The token that was put is the one that its thread drew last. -/
theorem put_drawn (h₀ : Fresh c₀) (h : (servers K).Reaches cond c₀ c)
    (hc : ∀ q, ¬ K.Configured q digest) {k : Interleaving.Call Op Op.Resp ℕ} (hk : k :: l <:+ c.log)
    (hp : PutsDigest digest k) : Drew K digest (history l k.thread) := by
  obtain ⟨t, -, -, hrule⟩ := logged_licence (tokens_disciplined K) h₀ h hk
  obtain ⟨p, hp⟩ := hp
  obtain ⟨i, q, op, r⟩ := k
  cases op with
  | createAdminToken t =>
    cases r with
    | error e => cases hp
    | ok u =>
      cases hp
      exact hrule.2.resolve_right (hc q)
  | rotateAdminToken p d =>
    cases r with
    | error e => cases hp
    | ok u =>
      cases hp
      exact hrule
  | _ => cases hp

theorem puts_of_put {k : Interleaving.Call Op Op.Resp ℕ} (hp : PutsDigest digest k) :
    k.op.puts = true := by
  obtain ⟨p, hp⟩ := hp
  obtain ⟨i, q, op, r⟩ := k
  cases op with
  | createAdminToken t => rfl
  | rotateAdminToken p d => rfl
  | _ => cases hp

theorem put_once (h₀ : Fresh c₀) (h : (servers K).Reaches cond c₀ c)
    (hc : ∀ q, ¬ K.Configured q digest) : Once (PutsDigest digest) c.log := by
  apply Once.follows (fun op => op.puts = false) (drawn_once h₀ h)
  · intro k hp hn
    rw [puts_of_put hp] at hn
    cases hn
  · intro k l hk hp
    obtain ⟨token, h₁, hd, hg⟩ := put_drawn h₀ h hc hk hp
    exact ⟨h₁, _, hg, fun m hm => ⟨token, hm, hd⟩⟩

end Runs

section Passing

variable {K : Site} {q : ℕ} {rank : String → ℕ} {w : World} {s : AppState} {req : Request}
  {ctx : AuthorizationContext} {digest : String}

theorem letThrough_ok {context : AuthorizationContext}
    (h : letThrough req context = .ok (some ctx)) : context = ctx := by
  unfold letThrough at h
  split_ifs at h
  exact Option.some.inj (Except.ok.inj h)

/-- Who is let through by a bearer token was found in the store or in the configuration. -/
theorem bearer_context {user : Option VerifiedUser}
    (h : authMiddleware s req user = .ok (some ctx))
    (hm : ctx.authenticationMethod = .scopedBearer) :
    storedContext s req = some ctx ∨ configuredContext s req user = some ctx := by
  unfold authMiddleware at h
  split_ifs at h
  · rw [← letThrough_ok h] at hm
    cases hm
  · cases h
  · cases h
  · cases hs : storedContext s req with
    | some context =>
      rw [hs] at h
      exact .inl (congrArg some (letThrough_ok h))
    | none =>
      rw [hs, Option.none_or] at h
      cases hc : configuredContext s req user with
      | some context =>
        rw [hc] at h
        exact .inr (congrArg some (letThrough_ok h))
      | none =>
        rw [hc] at h
        cases h

theorem stored_active (hp : Presents K req digest)
    (h : storedContext (K.facing q rank w s) req = some ctx)
    (hm : ctx.authenticationMethod = .scopedBearer) :
    ∃ x, known w.tokens ctx.principalId = some x ∧ x.active = true ∧
      x.token.tokenDigest = digest := by
  obtain ⟨token, ht, rfl⟩ := hp
  unfold storedContext at h
  simp only [ht, Option.bind_eq_bind, Option.bind_some, Site.facing] at h
  split at h
  · cases h
    cases hm
  · obtain ⟨found, hf, h⟩ := Option.bind_eq_some_iff.mp h
    obtain ⟨row, hrow, rfl⟩ := Option.map_eq_some_iff.mp hf
    obtain ⟨-, h⟩ := Option.ite_none_right_eq_some.mp h
    cases h
    have hr := List.find?_some hrow
    simp only [Bool.and_eq_true, decide_eq_true_eq] at hr
    have hin : row ∈ w.tokens.rows := mem_inOrder.mp (List.mem_of_find?_eq_some hrow)
    refine ⟨row.standing, ?_, hr.2, hr.1⟩
    change (w.tokens.get row.principalId).map AdminTokenRow.standing = _
    rw [Keyed.get_of_mem hin]
    rfl

theorem configured_bearer {user : Option VerifiedUser} (hp : Presents K req digest)
    (h : configuredContext (K.facing q rank w s) req user = some ctx)
    (hm : ctx.authenticationMethod = .scopedBearer) : K.Configured q digest := by
  obtain ⟨token, ht, rfl⟩ := hp
  unfold configuredContext at h
  simp only [Site.facing] at h
  split at h
  · obtain ⟨-, h⟩ := Option.ite_none_right_eq_some.mp h
    obtain ⟨u, -, rfl⟩ := Option.map_eq_some_iff.mp h
    cases hm
  · next tokens hv =>
    simp only [ht, Option.bind_eq_bind, Option.bind_some] at h
    obtain ⟨credential, hc, -⟩ := Option.bind_eq_some_iff.mp h
    have hmem := List.mem_of_getLast? hc
    obtain ⟨hin, he⟩ := List.mem_filter.mp hmem
    exact ⟨tokens, hv, credential, hin, (of_decide_eq_true he).symm⟩

/-- A token that nobody is configured with and that no principal has opens nothing. -/
theorem barred_of_gone (hc : ∀ q, ¬ K.Configured q digest)
    (hg : ∀ p x, known w.tokens p = some x → x.active = true → x.token.tokenDigest ≠ digest) :
    Barred K digest w := by
  intro q rank s req ctx hp h hm
  unfold pass at h
  cases hu : cloudflareAccessMiddleware (K.facing q rank w s) req with
  | error e =>
    rw [hu] at h
    cases h
  | ok user =>
    rw [hu] at h
    rcases bearer_context h hm with hs | hs
    · obtain ⟨x, hx, ha, hd⟩ := stored_active hp hs hm
      exact hg _ x hx ha hd
    · exact hc q (configured_bearer hp hs hm)

end Passing

section Safety

variable {K : Site} {cond : TokenConfig → Action ℕ Activity Choice Unit → Prop}
  {c₀ c c₁ : TokenConfig} {digest p : String} {l log : Log}

/-- Once the token of a principal is rotated or revoked, no token that the principal had opens any
server again, unless a server is configured with it. -/
theorem withdrawn_barred (h₀ : Begun c₀) (h : (servers K).Reaches cond c₀ c)
    {j k : Interleaving.Call Op Op.Resp ℕ} (hk : k :: l <:+ c.log) (hj : j ∈ l)
    (hp : put j.entry = some (p, digest)) (hw : Withdraws p k.entry)
    (hc : ∀ q, ¬ K.Configured q digest) : Barred K digest c.state := by
  apply barred_of_gone hc
  rw [tokens_told h₀ h]
  have honce := put_once h₀.toFresh h hc
  have hhere : Once (PutsDigest digest) (k :: l) := fun k' l' hk' => honce k' l' (hk'.trans hk)
  exact gone_later honce hk ⟨j, .tail _ hj, p, hp⟩ (gone_withdrawn hhere hj hp hw)

theorem put_of_history {i : ℕ} {h : History} (he : ∃ e ∈ h, put e = some (p, digest))
    (hh : history log i = h) : ∃ j ∈ log, put j.entry = some (p, digest) := by
  obtain ⟨e, he, hp⟩ := he
  rw [← hh] at he
  obtain ⟨j, hj, -, rfl⟩ := mem_history.mp he
  exact ⟨j, hj, hp⟩

theorem revoked_inactive {t : AdminTokenTable} {now : ℤ} {x : Standing}
    (hr : (revokeAdminTokenRow t now p).1 = false) (hx : known t p = some x) :
    x.active = false := by
  obtain ⟨row, hrow, rfl⟩ := Option.map_eq_some_iff.mp hx
  unfold revokeAdminTokenRow at hr
  rw [hrow] at hr
  dsimp only at hr
  split_ifs at hr with hn
  exact Bool.eq_false_of_not_eq_true hn

/-- A revocation that the store has answered leaves no token of the principal. -/
theorem gone_revoked (h₀ : Begun c₀) (h : (servers K).Reaches cond c₀ c)
    (hc : ∀ q, ¬ K.Configured q digest) {k : Interleaving.Call Op Op.Resp ℕ} (hk : k :: l <:+ c.log)
    {b : Bool} (he : k.entry = ⟨.revokeAdminToken p, .ok b⟩)
    (hput : ∃ j ∈ l, put j.entry = some (p, digest)) : Gone digest (k :: l) := by
  obtain ⟨j, hj, hp⟩ := hput
  have honce := put_once h₀.toFresh h hc
  have hhere : Once (PutsDigest digest) (k :: l) := fun k' l' hk' => honce k' l' (hk'.trans hk)
  cases b with
  | true =>
    apply gone_withdrawn hhere hj hp
    rw [he]
    exact .revoked
  | false =>
    intro p' x hx ha hd
    obtain ⟨c₁, c₂, ch, h₁, -, -, rfl, ⟨r, -, hr⟩, -⟩ := h.at_call h₀.toFresh hk
    simp only [told, he, recorded] at hx
    obtain ⟨j', hj', hp'⟩ := put_of_told hx
    rw [hd] at hp'
    have hthere : Once (PutsDigest digest) c₁.log :=
      fun k' l' hk' => hhere k' l' (hk'.trans (List.suffix_cons _ _))
    obtain rfl := hthere.eq hj hj' ⟨p, hp⟩ ⟨p', hp'⟩
    rw [hp] at hp'
    cases hp'
    rw [← tokens_told h₀ h₁] at hx
    have hdone := r.done
    generalize r.resp = answer at hdone hr
    obtain ⟨i, q, op, resp⟩ := k
    cases he
    subst hr
    change exec K ch r.party (.revokeAdminToken p) c₁.state = _ at hdone
    cases hf : ch.fault <;> simp only [exec, attempt, hf, Option.some.injEq, Prod.mk.injEq,
      Except.ok.injEq, reduceCtorEq, false_and] at hdone
    rw [revoked_inactive hdone.1 hx] at ha
    cases ha

/-- A token that was drawn for a request, or for the start of a server, and that its answer does not
hand out, opens no server from then on, if the store has answered the revocation that it took. -/
theorem unissued_barred (h₀ : Begun c₀) (h₁ : (servers K).Reaches cond c₀ c₁) {i q : ℕ}
    {a : Activity} {out : Reply} (ht : c₁.threads[i]? = some ⟨q, a, .ret out⟩) {token : String}
    (hd : (⟨.generateToken, .ok token⟩ : Entry Op Op.Resp) ∈ history c₁.log i)
    (hout : out.token ≠ some token)
    (hr : ∀ p e, (⟨.revokeAdminToken p, .error e⟩ : Entry Op Op.Resp) ∉ history c₁.log i)
    (hc : ∀ q, ¬ K.Configured q (K.digestFor token)) (h : (servers K).Reaches cond c₁ c) :
    Barred K (K.digestFor token) c.state := by
  have hall := h₁.trans h
  have honce := put_once h₀.toFresh hall hc
  apply barred_of_gone hc
  rw [tokens_told h₀ hall]
  obtain ⟨haccounted, -⟩ := returned (tokens_disciplined K) h₀.toFresh h₁ ht
  have hthread := (h.finished ht).2
  rcases haccounted token hd hout (hc q) with hnone | ⟨p, r, hist, hs, hput⟩
  · -- whoever puts the token has drawn it, and only this thread has
    intro p x hx _ hdig
    obtain ⟨k, hk, hput⟩ := put_of_told hx
    rw [hdig] at hput
    obtain ⟨l, hl⟩ := placed hk
    obtain ⟨token', hist, hd', hg⟩ := put_drawn h₀.toFresh hall hc hl ⟨p, hput⟩
    obtain ⟨m, hm, hmt, hme⟩ := mem_history.mp (hg.suffix.subset (.head _))
    rw [← hthread] at hd
    obtain ⟨m', hm', hmt', hme'⟩ := mem_history.mp hd
    have hsame : m = m' := (drawn_once h₀.toFresh hall).eq
      (((List.suffix_cons k l).trans hl).subset hm) hm' ⟨token', hme, hd'⟩ ⟨token, hme', rfl⟩
    have hki : k.thread = i := by rw [← hmt, hsame, hmt']
    apply hnone k.entry _ p hput
    rw [← hthread, ← hki]
    exact mem_history.mpr ⟨k, hk, rfl, rfl⟩
  · obtain ⟨k, l, hl, hki, hke, hh⟩ := of_history_at hs
    have hlater := hl.trans h.log_suffix
    have hput' := put_of_history hput hh
    cases r with
    | error e => exact absurd (hs.subset (.head _)) (hr p e)
    | ok b =>
      apply gone_later honce hlater
      · obtain ⟨j, hj, hp⟩ := hput'
        exact ⟨j, .tail _ hj, p, hp⟩
      · exact gone_revoked h₀ hall hc hlater hke hput'

/-- A principal once in the table stays there. -/
theorem recorded_stays {s : Known} {e : Entry Op Op.Resp} (hp : s p ≠ none) :
    recorded s e p ≠ none := by
  have changed (q : String) (f : Standing → Standing) : s.change q f p ≠ none := by
    simp only [Known.change, Function.update_apply]
    split_ifs with h
    · subst h
      simpa using hp
    · exact hp
  rcases e with ⟨op, r⟩
  cases op with
  | createAdminToken t =>
    cases r with
    | error e => exact hp
    | ok u =>
      simp only [recorded, Function.update_apply]
      split_ifs
      · exact Option.some_ne_none _
      · exact hp
  | rotateAdminToken q d =>
    cases r with
    | error e => exact hp
    | ok u => exact changed q _
  | revokeAdminToken q =>
    rcases r with e | (_ | _)
    · exact hp
    · exact hp
    · exact changed q _
  | _ => exact hp

theorem told_stays (hl : l <:+ log) (hp : told l p ≠ none) : told log p ≠ none := by
  induction log with
  | nil =>
    rw [List.suffix_nil] at hl
    exact hl ▸ hp
  | cons k log ih =>
    rcases List.suffix_cons_iff.mp hl with rfl | hl
    · exact hp
    · exact recorded_stays (ih hl)

def Creates (p : String) (k : Interleaving.Call Op Op.Resp ℕ) : Prop :=
  ∃ t, k.entry = ⟨.createAdminToken t, .ok ()⟩ ∧ t.principalId = p

/-- A principal's row is created where it has none. -/
theorem created_absent (h₀ : Begun c₀) (h : (servers K).Reaches cond c₀ c)
    {k : Interleaving.Call Op Op.Resp ℕ} (hk : k :: l <:+ c.log) (hc : Creates p k) :
    told l p = none := by
  obtain ⟨t, he, rfl⟩ := hc
  obtain ⟨c₁, c₂, ch, h₁, -, -, rfl, ⟨r, -, hr⟩, -⟩ := h.at_call h₀.toFresh hk
  rw [← tokens_told h₀ h₁]
  have hdone := r.done
  generalize r.resp = answer at hdone hr
  obtain ⟨i, q, op, resp⟩ := k
  cases he
  subst hr
  change exec K ch r.party (.createAdminToken t) c₁.state = _ at hdone
  cases hf : ch.fault <;> simp only [exec, attempt, hf, Option.some.injEq, Prod.mk.injEq,
    reduceCtorEq, false_and] at hdone
  have hfree : c₁.state.tokens.contains t.principalId = false := by
    by_contra hin
    rw [createAdminTokenRow, if_pos (by simpa using hin)] at hdone
    cases hdone.1
  rw [known, Option.map_eq_none_iff]
  rw [Keyed.contains_eq] at hfree
  simpa using hfree

theorem created_once (h₀ : Begun c₀) (h : (servers K).Reaches cond c₀ c) :
    Once (Creates p) c.log := by
  intro k l hk hc k' hk' hc'
  obtain ⟨l', hl'⟩ := placed hk'
  apply told_stays hl' _ (created_absent h₀ h hk hc)
  obtain ⟨t, he, rfl⟩ := hc'
  simp only [told, he, recorded, Function.update_self]
  exact Option.some_ne_none _

/-- However many servers start at a time, one token for the first administrator is issued at most;
and none by a start that the table was not empty before. -/
theorem bootstrap_issued_once (h₀ : Begun c₀) (h : (servers K).Reaches cond c₀ c) {i q : ℕ}
    {a : Activity} {token : String}
    (ht : c.threads[i]? = some ⟨q, a, .ret (.started (some token))⟩) :
    (∀ j q' a' token', c.threads[j]? = some ⟨q', a', .ret (.started (some token'))⟩ → j = i) ∧
      ∀ c₁, (servers K).Reaches cond c₀ c₁ → (servers K).Reaches cond c₁ c →
        c₁.threads.length ≤ i → c₁.state.tokens.rows = [] := by
  have founded {i q : ℕ} {a : Activity} {token : String}
      (ht : c.threads[i]? = some ⟨q, a, .ret (.started (some token))⟩) :=
    (returned (tokens_disciplined K) h₀.toFresh h ht).2 token rfl
  have creates {i q : ℕ} {a : Activity} {token : String}
      (ht : c.threads[i]? = some ⟨q, a, .ret (.started (some token))⟩) :
      ∃ k ∈ c.log, k.thread = i ∧ Creates "bootstrap" k := by
    obtain ⟨-, now, he⟩ := founded ht
    obtain ⟨k, hk, hki, hke⟩ := mem_history.mp he
    exact ⟨k, hk, hki, _, hke, rfl⟩
  constructor
  · intro j q' a' token' ht'
    obtain ⟨k, hk, rfl, hc⟩ := creates ht
    obtain ⟨k', hk', rfl, hc'⟩ := creates ht'
    rw [(created_once h₀ h).eq hk hk' hc hc']
  · intro c₁ h₁ h₂ hi
    by_contra hrows
    obtain ⟨hlist, -⟩ := founded ht
    obtain ⟨hist, hs⟩ := placed hlist
    have hnone : (⟨.listAdminTokens, .ok []⟩ : Entry Op Op.Resp) ∉ history c₁.log i := by
      rw [history_of_within (within_of_reaches h₀.toFresh h₁) hi]
      exact List.not_mem_nil
    obtain ⟨c₂, c₃, ch, r, hr, -, -, h₁₂, -, -⟩ := h₂.done_since ht hs hnone
    obtain ⟨row, hrow⟩ := List.exists_mem_of_ne_nil _ hrows
    have hkept : told c₂.log row.principalId ≠ none := by
      apply told_stays h₁₂.log_suffix
      rw [← tokens_told h₀ h₁, known, Keyed.get_of_mem hrow]
      exact Option.some_ne_none _
    rw [← tokens_told h₀ (h₁.trans h₁₂), known] at hkept
    have hdone := r.done
    rw [hr] at hdone
    change exec K ch r.party .listAdminTokens c₂.state = _ at hdone
    cases hf : ch.fault <;> simp only [exec, attempt, hf, Option.some.injEq, Prod.mk.injEq,
      Except.ok.injEq, reduceCtorEq, false_and] at hdone
    apply hkept
    rw [Option.map_eq_none_iff, Keyed.get_eq_none]
    intro x hx
    have hin : x ∈ listAdminTokens ch.rank c₂.state.tokens :=
      mem_newestFirst.mpr (mem_inOrder.mpr hx)
    rw [hdone.1] at hin
    cases hin

end Safety

section Examples

def plainSite : Site where
  digestFor token := "sha256:" ++ token

def emptyTable : TokenConfig where
  state := {}
  threads := []
  log := []

theorem emptyTable_begun : Begun emptyTable where
  threads := rfl
  log := rfl
  tokens := rfl
  drawn := rfl

theorem plainSite_configured (q : ℕ) (digest : String) : ¬ plainSite.Configured q digest := by
  rintro ⟨tokens, ht, -⟩
  cases ht

/-- Two servers start at once, and the second finds that the first was faster. -/
def twoStarts : List (Action ℕ Activity Choice Unit) :=
  [.start 0 .start, .start 1 .start, .run 0 {}, .run 1 {}, .run 0 { token := .ok "fat_a" },
    .run 1 { token := .ok "fat_b" }, .run 0 {}, .run 0 {}, .run 1 {}, .run 1 {}]

def afterStarts : TokenConfig := (servers plainSite).after emptyTable twoStarts

theorem one_start_issues :
    afterStarts.threads[0]? = some ⟨0, .start, .ret (.started (some "fat_a"))⟩ ∧
      ∀ j q a token, afterStarts.threads[j]? = some ⟨q, a, .ret (.started (some token))⟩ → j = 0 :=
  have ht : afterStarts.threads[0]? = some ⟨0, .start, .ret (.started (some "fat_a"))⟩ := rfl
  ⟨ht, (bootstrap_issued_once emptyTable_begun (after_reaches twoStarts) ht).1⟩

theorem slower_start_barred : Barred plainSite "sha256:fat_b" afterStarts.state := by
  have ht : afterStarts.threads[1]? = some ⟨1, .start, .ret (.started none)⟩ := rfl
  have hh : history afterStarts.log 1 = [⟨.createAdminToken (foundingRow plainSite "fat_b" 0),
      .error (.conflict ("admin token principal or digest already exists: " ++
        duplicateKey "pkey"))⟩, ⟨.utcNow, (0 : ℤ)⟩, ⟨.generateToken, .ok "fat_b"⟩,
      ⟨.listAdminTokens, .ok []⟩] := rfl
  have hdrawn : (⟨.generateToken, .ok "fat_b"⟩ : Entry Op Op.Resp) ∈ history afterStarts.log 1 := by
    rw [hh]
    exact .tail _ (.tail _ (.head _))
  have hnone : ∀ p e, (⟨.revokeAdminToken p, .error e⟩ : Entry Op Op.Resp) ∉
      history afterStarts.log 1 := by
    rw [hh]
    simp
  exact unissued_barred emptyTable_begun (after_reaches twoStarts) ht hdrawn (by simp [Reply.token])
    hnone (fun q => plainSite_configured q _) .refl

def revokedLater : List (Action ℕ Activity Choice Unit) :=
  twoStarts ++ [.start 1 (.revokeAdminToken "bootstrap"), .run 2 {}]

theorem revoked_bootstrap_barred :
    Barred plainSite "sha256:fat_a" ((servers plainSite).after emptyTable revokedLater).state := by
  have hlog : ((servers plainSite).after emptyTable revokedLater).log =
      ⟨2, 1, .revokeAdminToken "bootstrap", .ok true⟩ :: afterStarts.log := rfl
  have hput : (afterStarts.log.map fun k => put k.entry)[2]? =
      some (some ("bootstrap", "sha256:fat_a")) := rfl
  obtain ⟨j, hj, hp⟩ := List.mem_map.mp (List.mem_of_getElem? hput)
  have hk : (⟨2, 1, .revokeAdminToken "bootstrap", .ok true⟩ : Interleaving.Call Op Op.Resp ℕ) ::
      afterStarts.log <:+ ((servers plainSite).after emptyTable revokedLater).log := by
    rw [hlog]
  exact withdrawn_barred emptyTable_begun (after_reaches revokedLater) hk hj hp .revoked fun q =>
    plainSite_configured q _

end Examples

end FleetOrchestrator.Api.AdminTokens
