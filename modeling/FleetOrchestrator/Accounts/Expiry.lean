import FleetOrchestrator.Accounts.Purposes

/-! When an issued bootstrap token ends: the lifetime that is asked for goes through a cast, a span
and an addition, and each has a limit. -/

namespace FleetOrchestrator.Accounts

open Api Core Tables Store Enrolment Interleaving

/-- Every reading of the clock shows `now`. -/
def ClockAt (now : ℤ) (h : History) : Prop := ∀ t, (⟨.readClock, t⟩ : Entry Op Op.Resp) ∈ h → t = now

/-- An error, or a token that was stored with the end that was asked for. -/
inductive Honoured (K : Site) (now span : ℤ) (out : Response) (h : History) : Prop
  | failed (status : ℕ) (message : String) (he : out.reply = .failed status message)
  | refused (e : StoreError) (he : out.reply = .refused e)
  | issued (token : String) (bt : BootstrapToken)
      (hr : out.reply = .created token ∨ out.reply = .issued (some token))
      (hd : bt.tokenDigest = K.sha256Hex token)
      (hm : (⟨.createBootstrapToken bt, .ok ()⟩ : Entry Op Op.Resp) ∈ h)
      (he : bt.expiresAt = some (now + span)) (hs : 0 ≤ span)

/-- Whatever the random source, the store and the audit log answer. -/
def AlwaysHonoured (K : Site) (now span : ℤ) (p : Call Response) : Prop :=
  ∀ out h, Yields p [] out h → ClockAt now h → Honoured K now span out h

section Issuing

variable {K : Site} {now span hours : ℤ} {req : JoinTokenRequest} {out : Response} {h : History}
  {bt : BootstrapToken} {token : String}

theorem not_honoured (hr : out.reply = .panicked) : ¬ Honoured K now span out h := by
  rintro (⟨_, _, he⟩ | ⟨_, he⟩ | ⟨_, _, he | he, _⟩)
  all_goals
    rw [hr] at he
    cases he

/-- The only token that was stored tells when an issued one ends. -/
theorem Honoured.ends (hh : Honoured K now span out h)
    (hr : out.reply = .created token ∨ out.reply = .issued (some token))
    (ho : ∀ bt', (⟨.createBootstrapToken bt', .ok ()⟩ : Entry Op Op.Resp) ∈ h → bt' = bt) :
    bt.expiresAt = some (now + span) ∧ 0 ≤ span := by
  cases hh with
  | failed status message he => rcases hr with hr | hr <;> cases hr.symm.trans he
  | refused e he => rcases hr with hr | hr <;> cases hr.symm.trans he
  | issued token bt' _ _ hm he hs => exact ⟨ho bt' hm ▸ he, hs⟩

/-- Nothing was read from the clock but `now`, and one token was stored at most. -/
structure Drawn (now : ℤ) (bt : BootstrapToken) (h : History) : Prop where
  clock : ClockAt now h
  only : ∀ bt', (⟨.createBootstrapToken bt', .ok ()⟩ : Entry Op Op.Resp) ∈ h → bt' = bt

theorem drawn_start (m : Minted) (bt : BootstrapToken) : Drawn now bt [⟨.readClock, now⟩, ⟨.mint, m⟩] := by
  constructor
  · intro t ht
    rcases List.mem_pair.mp ht with ht | ht
    · cases ht
      rfl
    · cases ht
  · intro bt' hm
    rcases List.mem_pair.mp hm with hm | hm <;> cases hm

theorem Drawn.stored (hd : Drawn now bt h) :
    Drawn now bt (⟨.createBootstrapToken bt, .ok ()⟩ :: h) := by
  constructor
  · intro t ht
    rcases List.mem_cons.mp ht with ht | ht
    · cases ht
    · exact hd.clock t ht
  · intro bt' hm
    rcases List.mem_cons.mp hm with hm | hm
    · cases hm
      rfl
    · exact hd.only bt' hm

theorem Drawn.audited (hd : Drawn now bt h) :
    Drawn now bt (⟨.recordAuditEvent "token.bootstrap.issue", .ok ()⟩ :: h) := by
  constructor
  · intro t ht
    rcases List.mem_cons.mp ht with ht | ht
    · cases ht
    · exact hd.clock t ht
  · intro bt' hm
    rcases List.mem_cons.mp hm with hm | hm
    · cases hm
    · exact hd.only bt' hm

theorem issueJoinToken_issues : Yields (issueJoinToken bt token) h { reply := .created token }
    (⟨.recordAuditEvent "token.bootstrap.issue", .ok ()⟩ :: ⟨.createBootstrapToken bt, .ok ()⟩ :: h) :=
  .step (.ok ()) (.step (.ok ()) .ret)

theorem create_honoured (hreq : req.refusal = none) (hs : 0 ≤ span) :
    AlwaysHonoured K now span (createBootstrapToken K req) ↔
      req.expiry K.calendar now = some (some (now + span)) := by
  unfold AlwaysHonoured createBootstrapToken
  rw [hreq]
  constructor
  · intro hall
    have m : Minted := ⟨"", 0⟩
    cases hex : req.expiry K.calendar now with
    | none =>
      have hy := hall { reply := .panicked } _ (.step m (.step now ?_))
        (drawn_start m (adminToken K "" none)).clock
      · exact absurd hy (not_honoured rfl)
      · dsimp only
        rw [hex]
        exact .ret
    | some expiresAt =>
      let bt : BootstrapToken :=
        { tokenDigest := K.sha256Hex (req.text m.token), expiresAt, maxUses := req.maxUses }
      have hd : Drawn now bt _ := (drawn_start m bt).stored.audited
      have hh := hall { reply := .created (req.text m.token) } _ (.step m (.step now ?_)) hd.clock
      · rw [← (hh.ends (.inl rfl) hd.only).1]
      · dsimp only
        rw [hex]
        exact issueJoinToken_issues
  · intro hex out h hy hc
    obtain ⟨m, hy⟩ := yields_step hy
    obtain ⟨t, hy⟩ := yields_step hy
    have ht : t = now := hc t (hy.suffix.subset (.head _))
    subst ht
    dsimp only at hy
    rw [hex] at hy
    rcases issueJoinToken_yields hy with ⟨hr, a, rfl⟩ | ⟨e, he⟩ | ⟨status, message, he⟩
    · exact .issued _ _ (.inl hr) rfl (.tail _ (.head _)) rfl hs
    · exact .refused e he
    · exact .failed status message he

theorem create_refused (hreq : req.refusal.isSome) :
    AlwaysHonoured K now span (createBootstrapToken K req) := by
  obtain ⟨message, hm⟩ := Option.isSome_iff_exists.mp hreq
  intro out h hy _
  unfold createBootstrapToken at hy
  rw [hm] at hy
  cases hy
  exact .failed 400 message rfl

theorem issue_honoured : AlwaysHonoured K now span (issueAdminBootstrapToken K hours) ↔
    adminExpiry K.calendar hours now = some (some (now + span)) ∧ 0 ≤ span := by
  unfold AlwaysHonoured issueAdminBootstrapToken
  constructor
  · intro hall
    have m : Minted := ⟨"", 0⟩
    cases hex : adminExpiry K.calendar hours now with
    | none =>
      have hy := hall { reply := .panicked } _ (.step m (.step now ?_))
        (drawn_start m (adminToken K "" none)).clock
      · exact absurd hy (not_honoured rfl)
      · dsimp only
        rw [hex]
        exact .ret
    | some expiresAt =>
      let prefixed := ADMIN_PREFIX ++ m.token
      have hd : Drawn now _ _ := (drawn_start m (adminToken K prefixed expiresAt)).stored
      have hh := hall { reply := .issued (some prefixed) } _ (.step m (.step now ?_)) hd.clock
      · obtain ⟨he, hs⟩ := hh.ends (.inr rfl) hd.only
        rw [← he]
        exact ⟨rfl, hs⟩
      · dsimp only
        rw [hex]
        exact .step (.ok ()) .ret
  · rintro ⟨hex, hs⟩ out h hy hc
    obtain ⟨m, hy⟩ := yields_step hy
    obtain ⟨t, hy⟩ := yields_step hy
    have ht : t = now := hc t (hy.suffix.subset (.head _))
    subst ht
    dsimp only at hy
    rw [hex] at hy
    obtain ⟨a, hy⟩ := yields_step hy
    cases a with
    | error e =>
      cases hy
      exact .refused e rfl
    | ok u =>
      cases hy
      exact .issued _ _ (.inr rfl) rfl (.head _) rfl hs

theorem expiry_exact {C : Calendar} {secs : ℕ} (hreq : req.expiresInSecs = some secs)
    (hs : secs < 2 ^ 64) : req.expiry C now = some (some (now + secs)) ↔
      secs ≤ C.longest ∧ C.Spans (now + secs) := by
  rw [JoinTokenRequest.expiry, hreq, ← C.later_asI64 hs]
  exact Option.map_eq_some_iff.trans (by simp)

theorem adminExpiry_exact {C : Calendar} :
    adminExpiry C hours now = some (some (now + hours * 3600)) ∧ 0 ≤ hours * 3600 ↔
      0 < hours ∧ hours * 3600 ≤ C.longest ∧ C.Spans (now + hours * 3600) := by
  rw [adminExpiry]
  by_cases hh : hours > 0
  · rw [if_pos hh, C.hours_eq hh.le, Option.map_eq_some_iff]
    have hl : 0 < hours * 3600 := by omega
    constructor
    · rintro ⟨⟨t, ht, he⟩, -⟩
      obtain ⟨hs, hc, rfl⟩ := Calendar.later_seconds.mp ht
      exact ⟨hh, hs.2, hc⟩
    · rintro ⟨-, hs, hc⟩
      exact ⟨⟨_, Calendar.later_seconds.mpr ⟨⟨by omega, hs⟩, hc, rfl⟩, rfl⟩, hl.le⟩
  · rw [if_neg hh]
    constructor
    · rintro ⟨he, -⟩
      cases he
    · rintro ⟨hp, -⟩
      exact absurd hp hh

end Issuing

/-- A token ends when it was asked to, or is refused, exactly for the lifetimes that a span and a
date can hold; for an administrator they have to be positive as well. -/
theorem token_expiry (K : Site) (now : ℤ) :
    (∀ (req : JoinTokenRequest) (secs : ℕ), req.expiresInSecs = some secs → secs < 2 ^ 64 →
      (AlwaysHonoured K now secs (createBootstrapToken K req) ↔
        req.refusal.isSome ∨ secs ≤ K.calendar.longest ∧ K.calendar.Spans (now + secs))) ∧
    ∀ hours : ℤ, AlwaysHonoured K now (hours * 3600) (issueAdminBootstrapToken K hours) ↔
      0 < hours ∧ hours * 3600 ≤ K.calendar.longest ∧ K.calendar.Spans (now + hours * 3600) := by
  refine ⟨fun req secs hreq hs => ?_, fun hours => issue_honoured.trans adminExpiry_exact⟩
  cases hr : req.refusal with
  | some message => exact ⟨fun _ => .inl rfl, fun _ => create_refused (by rw [hr]; rfl)⟩
  | none =>
    rw [create_honoured hr (Int.natCast_nonneg secs), expiry_exact hreq hs]
    simp

/-- A token that is over when it is issued, a handler that unwinds, and a token without an end. -/
theorem token_expiry_fails :
    (¬ ∀ (req : JoinTokenRequest) (secs : ℕ), req.expiresInSecs = some secs → secs < 2 ^ 64 →
      AlwaysHonoured plainSite 1000 secs (createBootstrapToken plainSite req)) ∧
    JoinTokenRequest.expiry chrono { expiresInSecs := some (2 ^ 64 - 1) } 1000 = some (some 999) ∧
    JoinTokenRequest.expiry chrono { expiresInSecs := some (2 ^ 63) } 1000 = none ∧
    JoinTokenRequest.expiry chrono { expiresInSecs := some (2 ^ 43) } 1000 = none ∧
    adminExpiry chrono (-1) 1000 = some none ∧ adminExpiry chrono (2 ^ 52) 1000 = none := by
  refine ⟨fun hall => ?_, by decide, by decide, by decide, by decide, by decide⟩
  have h := hall { expiresInSecs := some (2 ^ 64 - 1) } (2 ^ 64 - 1) rfl (by decide)
  rw [create_honoured rfl (by decide), expiry_exact rfl (by decide)] at h
  have hl : ((2 ^ 64 - 1 : ℕ) : ℤ) ≤ 9223372036854775 := h.1
  omega

end FleetOrchestrator.Accounts
