import FleetOrchestrator.Accounts.FirstAdmin
import FleetOrchestrator.Accounts.Limits
import FleetOrchestrator.Interleaving.Twins

/-! Whether the requests to one endpoint can be locked out by requests to another, by the identifiers
under which failures count. -/

namespace FleetOrchestrator.Accounts

open Api Core Tables Store Enrolment Interleaving Machine

inductive Endpoint where
  | login
  | resendVerification
  | forgotPassword
  | resetPassword
  | bootstrap
  deriving DecidableEq

def Activity.endpoint : Activity → Option Endpoint
  | .login _ _ => some .login
  | .resendVerification _ _ => some .resendVerification
  | .forgotPassword _ _ => some .forgotPassword
  | .resetPassword _ _ => some .resetPassword
  | .bootstrap _ _ => some .bootstrap
  | _ => none

def Endpoint.label : Endpoint → String
  | .login => ""
  | .resendVerification => "resend:"
  | .forgotPassword => "forgot:"
  | .resetPassword => "reset:"
  | .bootstrap => "bootstrap:"

def labels : List String := ["resend:", "forgot:", "reset:", "bootstrap:"]

def labelled (l x : String) : Bool := l.toList.isPrefixOf x.toList

/-- The identifiers that are meant for the endpoint. -/
def Endpoint.owns : Endpoint → String → Bool
  | .login, x => labels.all fun l => !labelled l x
  | e, x => labelled e.label x

/-- Who logs in does not give an address that another endpoint would count under, and a bootstrap
succeeds with an address only that no failure counts against. -/
def Unmixed (c : AccountConfig) : AccountAction → Prop
  | .start _ (.login _ form) => Endpoint.login.owns form.email = true
  | .run i _ => ∀ x, c.next i = some (.clearLoginAttempts x) →
      ∀ r form q, c.threads[i]? = some ⟨(), .bootstrap r form, q⟩ →
        ∀ a ∈ c.state.loginAttempts, a.identifier = x → a.success = true
  | _ => True

def At (E : Endpoint) (a : Activity) : Prop := a.endpoint = some E

/-- The operations other than the look at the counter itself. -/
def Uncounting (op : Op) : Prop := ∀ x window, op ≠ .countRecentFailedAttempts x window

/-- Two runs with the same requests to the endpoint, and any others. But for the counter these
requests are told the same in both. -/
abbrev Alike (K : Site) (cond : AccountConfig → AccountAction → Prop) (E : Endpoint) :=
  (dashboard K).Twins cond (At E) Uncounting

section Identifiers

variable {E E' : Endpoint} {l x s : String} {a : Activity}

theorem labelled_append : labelled l (l ++ s) = true := by
  unfold labelled
  rw [String.toList_append]
  exact List.isPrefixOf_iff_prefix.mpr (List.prefix_append _ _)

theorem label_listed (h : E ≠ .login) : E.label ∈ labels := by
  cases E with
  | login => exact absurd rfl h
  | _ => decide

theorem labelled_of_owns (h : E ≠ .login) (ho : E.owns x = true) : labelled E.label x = true := by
  cases E with
  | login => exact absurd rfl h
  | _ => exact ho

theorem label_eq (h : E ≠ .login) (h' : E' ≠ .login) (ho : labelled E.label x = true)
    (ho' : labelled E'.label x = true) : E = E' := by
  have hx := List.isPrefixOf_iff_prefix.mp ho
  have hx' := List.isPrefixOf_iff_prefix.mp ho'
  rcases List.prefix_or_prefix_of_prefix hx hx' with hp | hp <;> revert hp <;>
    cases E <;> cases E' <;> first | exact fun _ => rfl | exact absurd rfl h | exact absurd rfl h' | decide

/-- No identifier is meant for two endpoints. -/
theorem owner_unique (h : E.owns x = true) (h' : E'.owns x = true) : E = E' := by
  have other {E : Endpoint} (hE : E ≠ .login) (hl : Endpoint.login.owns x = true) :
      E.owns x ≠ true := by
    intro ho
    have hno := List.all_eq_true.mp hl _ (label_listed hE)
    rw [labelled_of_owns hE ho] at hno
    cases hno
  by_cases hE : E = .login
  · subst hE
    by_cases hE' : E' = .login
    · exact hE'.symm
    · exact absurd h' (other hE' h)
  · by_cases hE' : E' = .login
    · subst hE'
      exact absurd h (other hE h')
    · exact label_eq hE hE' (labelled_of_owns hE h) (labelled_of_owns hE' h')

/-- What an endpoint counts under is its own, where the address of a login is. -/
theorem identifier_owned (ha : a.endpoint = some E) (hx : a.identifier = some x)
    (hl : ∀ r form, a = .login r form → Endpoint.login.owns form.email = true) : E.owns x = true := by
  cases a with
  | login r form =>
    cases ha
    cases hx
    exact hl r form rfl
  | resendVerification r form =>
    cases ha
    cases hx
    exact labelled_append
  | forgotPassword r form =>
    cases ha
    cases hx
    exact labelled_append
  | resetPassword r form =>
    cases ha
    cases hx
    exact labelled_append
  | bootstrap r form =>
    cases ha
    cases hx
    exact labelled_append
  | _ => cases ha

theorem identifier_endpoint (hx : a.identifier = some x) : ∃ E, a.endpoint = some E := by
  cases a with
  | login r form => exact ⟨_, rfl⟩
  | resendVerification r form => exact ⟨_, rfl⟩
  | forgotPassword r form => exact ⟨_, rfl⟩
  | resetPassword r form => exact ⟨_, rfl⟩
  | bootstrap r form => exact ⟨_, rfl⟩
  | _ => cases hx

end Identifiers

section Rows

variable {E : Endpoint} {now later : ℤ} {rows rows' : List LoginAttempt} {a : LoginAttempt}
  {w : World}

/-- A failure that counts for the endpoint, or may. -/
def recent (E : Endpoint) (now : ℤ) (a : LoginAttempt) : Bool :=
  E.owns a.identifier && !a.success && now - KEPT_SECS ≤ a.attemptedAt

theorem recent_earlier (hn : now ≤ later) (h : recent E later a = true) : recent E now a = true := by
  unfold recent at h ⊢
  simp only [Bool.and_eq_true, decide_eq_true_eq] at h ⊢
  exact ⟨h.1, by omega⟩

theorem filter_narrower {α : Type} {p q : α → Bool} {l l' : List α} (hpq : ∀ a, q a = true → p a = true)
    (h : l.filter p = l'.filter p) : l.filter q = l'.filter q := by
  have narrow (l : List α) : l.filter q = (l.filter p).filter q := by
    rw [List.filter_filter]
    apply List.filter_congr
    intro a _
    cases hq : q a with
    | false => rfl
    | true => rw [hpq a hq, Bool.true_and]
  rw [narrow l, narrow l', h]

/-- What a call makes of the rows it makes of those that count. -/
theorem attemptsAfter_filter {p : LoginAttempt → Bool} (e : Entry Op Op.Resp)
    (h : rows.filter p = rows'.filter p) :
    (attemptsAfter rows e).filter p = (attemptsAfter rows' e).filter p := by
  have both (q : LoginAttempt → Bool) : (rows.filter q).filter p = (rows'.filter q).filter p := by
    rw [List.filter_filter, List.filter_filter]
    apply filter_narrower ?_ h
    intro a ha
    exact (Bool.and_eq_true _ _ ▸ ha).1
  unfold attemptsAfter
  split
  · rw [List.filter_append, List.filter_append, h]
  · exact both _
  · exact both _
  · exact h

theorem filter_kept {p q : LoginAttempt → Bool} (h : ∀ a ∈ rows, p a = true → q a = true) :
    (rows.filter q).filter p = rows.filter p := by
  rw [List.filter_filter]
  apply List.filter_congr
  intro a ha
  cases hp : p a with
  | false => rfl
  | true => rw [h a ha hp, Bool.and_true]

/-- A call that touches none of the rows that count. -/
theorem attemptsAfter_aside {p : LoginAttempt → Bool} {e : Entry Op Op.Resp}
    (hrecord : ∀ a, e.op = .recordLoginAttempt a → p a = false)
    (hclear : ∀ x, e.op = .clearLoginAttempts x → ∀ a ∈ rows, p a = true → a.identifier ≠ x)
    (hold : ∀ cutoff, e.op = .deleteOldLoginAttempts cutoff →
      ∀ a ∈ rows, p a = true → cutoff ≤ a.attemptedAt) :
    (attemptsAfter rows e).filter p = rows.filter p := by
  unfold attemptsAfter
  split
  · next a =>
    rw [List.filter_append, List.filter_singleton, hrecord a rfl]
    exact List.append_nil _
  · next x => exact filter_kept fun a ha hp => decide_eq_true (hclear x rfl a ha hp)
  · next cutoff => exact filter_kept fun a ha hp => decide_eq_true (hold cutoff rfl a ha hp)
  · rfl

theorem count_recent {x : String} {window : ℤ} (hE : E.owns x = true) (hw : window ≤ KEPT_SECS) :
    w.countRecentFailedAttempts x window = (w.loginAttempts.filter (recent E w.now)).countP fun a =>
      a.identifier = x && !a.success && w.now - window ≤ a.attemptedAt := by
  rw [List.countP_filter]
  apply List.countP_congr
  intro a _
  unfold recent
  simp only [Bool.and_eq_true, decide_eq_true_eq]
  constructor
  · rintro ⟨⟨rfl, hs⟩, ht⟩
    exact ⟨⟨⟨rfl, hs⟩, ht⟩, ⟨hE, hs⟩, by omega⟩
  · exact fun h => h.1

end Rows

/-- The rows that count for the endpoint are the same, at the same time. -/
def SameRecent (E : Endpoint) (c d : AccountConfig) : Prop :=
  c.state.now = d.state.now ∧
    c.state.loginAttempts.filter (recent E c.state.now) =
      d.state.loginAttempts.filter (recent E d.state.now)

def LoginsOwned (c : AccountConfig) : Prop :=
  ∀ (i : ℕ) r form q, c.threads[i]? = some ⟨(), .login r form, q⟩ → Endpoint.login.owns form.email = true

section Runs

variable {K : Site} {E : Endpoint} {c₀ c c' d d' : AccountConfig} {x : AccountAction}
  {ps : List (ℕ × ℕ)} {i j : ℕ}

theorem logins_owned (h₀ : Fresh c₀) (h : (dashboard K).Reaches Unmixed c₀ c) : LoginsOwned c := by
  apply h.invariant (P := LoginsOwned)
  · intro i r form q ht
    rw [h₀.threads] at ht
    cases ht
  · intro c x c' _ hx hs ih i r form q ht
    rcases thread_origin hs ht with ⟨⟨_, act, q₀⟩, ht₀, -, hact⟩ | ⟨-, ⟨p, a, rfl, hnew, -⟩ |
      ⟨j, ch, op, ran, a, hsp, -⟩⟩
    · cases hact
      exact ih i r form q₀ ht₀
    · cases congrArg Thread.act hnew
      exact hx
    · cases hsp

theorem SameRecent.symm (h : SameRecent E c d) : SameRecent E d c := ⟨h.1.symm, h.2.symm⟩

/-- What a request to another endpoint does leaves those rows as they are. -/
theorem aside_recent (h₀ : Fresh c₀) (h : (dashboard K).Reaches Unmixed c₀ c) (hx : Unmixed c x)
    (ha : Aside (At E) c x) (hs : (dashboard K).step c x = some c') : SameRecent E c' c := by
  cases x with
  | start p a =>
    rw [SameRecent, start_state hs]
    exact ⟨rfl, rfl⟩
  | env e => exact ha.elim
  | run i ch =>
    obtain ⟨op, ⟨ran⟩⟩ := step_run hs
    have hnow := (exec_frame ran.done).now
    refine ⟨hnow, ?_⟩
    rw [hnow, exec_attempts ran.done]
    have hother : ran.act.endpoint ≠ some E := ha _ ran.was
    obtain ⟨act, hact, hl⟩ : ∃ act, act = ran.act ∧ Counts act (history c.log i) op :=
      ⟨_, rfl, ran.licensed counts_disciplined h₀ h⟩
    rw [← hact] at hother
    have foreign {y : String} (hy : act.identifier = some y) : E.owns y = false := by
      obtain ⟨E', hE'⟩ := identifier_endpoint hy
      have ho : E'.owns y = true := by
        apply identifier_owned hE' hy
        rintro r form rfl
        exact logins_owned h₀ h i r form _ (hact ▸ ran.was)
      by_contra hE
      rw [Bool.not_eq_false] at hE
      exact hother (owner_unique hE ho ▸ hE')
    apply attemptsAfter_aside
    · rintro a rfl
      cases hs : a.success with
      | true => simp [recent, hs]
      | false => simp [recent, foreign (hl hs)]
    · rintro y rfl a ha hrec rfl
      simp only [recent, Bool.and_eq_true, Bool.not_eq_true'] at hrec
      rcases hl with hown | hboot
      · rw [foreign hown] at hrec
        cases hrec.1.1
      · cases act with
        | bootstrap r form =>
          rw [hx a.identifier ran.next r form _ (hact ▸ ran.was) a ha rfl] at hrec
          cases hrec.1.2
        | _ => cases hboot
    · rintro cutoff rfl a ha hrec
      obtain ⟨t, ht, rfl⟩ := hl
      obtain ⟨k, hk, -, he⟩ := told_logged ht
      have hpast : (t : ℤ) ≤ c.state.now := clock_told h₀ h k hk t he
      simp only [recent, Bool.and_eq_true, decide_eq_true_eq] at hrec
      omega

theorem env_recent {e : Event} (h : SameRecent E c d) (hs : (dashboard K).step c (.env e) = some c')
    (ht : (dashboard K).step d (.env e) = some d') : SameRecent E c' d' := by
  have ⟨hnow, hrows⟩ := h
  unfold SameRecent
  rw [env_state hs, env_state ht]
  rw [← hnow] at hrows
  cases e with
  | elapse secs =>
    refine ⟨by simp only [happen, hnow], ?_⟩
    simp only [happen, ← hnow]
    apply filter_narrower ?_ hrows
    intro a ha
    exact recent_earlier (by omega) ha
  | deleteOldLoginAttempts cutoff =>
    refine ⟨hnow, ?_⟩
    simp only [happen, World.deleteOldLoginAttempts, ← hnow]
    rw [List.filter_filter, List.filter_filter]
    apply filter_narrower ?_ hrows
    intro a ha
    exact (Bool.and_eq_true _ _ ▸ ha).1
  | _ => exact h

theorem answer_fst {α : Type} {ch : Choice} {w v : World} {a : α} :
    (answer ch w a).1 = (answer ch v a).1 := by
  unfold answer attempt
  cases ch.fault <;> rfl

/-- Before a request to the endpoint looks at its counter, the counter is the same in both runs. -/
theorem count_alike (h₀ : Fresh c₀) (h : (dashboard K).Reaches Unmixed c₀ c) {a : Activity}
    {x : String} {window : ℤ} {q : Except StoreError ℕ → Call Response}
    (ht : c.threads[i]? = some ⟨(), a, .call (.countRecentFailedAttempts x window) q⟩) (ha : At E a)
    (hr : SameRecent E c d) :
    c.state.countRecentFailedAttempts x window = d.state.countRecentFailedAttempts x window := by
  obtain ⟨hid, hw⟩ : Counts a (history c.log i) (.countRecentFailedAttempts x window) :=
    (threads_obey counts_disciplined h₀ h i _ ht).1
  have howned : E.owns x = true := by
    apply identifier_owned ha hid
    rintro r form rfl
    exact logins_owned h₀ h i r form _ ht
  rw [count_recent howned hw, count_recent howned hw, hr.2, hr.1]

theorem counter_alike (h₀ : Fresh c₀) (h : (dashboard K).Reaches Unmixed c₀ c) {ch : Choice} {op : Op}
    (rc : (dashboard K).Ran c c' i ch op) (rd : (dashboard K).Ran d d' j ch op) (ha : At E rc.act)
    (hop : ¬ Uncounting op) (hr : SameRecent E c d) : rc.resp = rd.resp := by
  simp only [Uncounting, ne_eq, not_forall, not_not] at hop
  obtain ⟨x, window, rfl⟩ := hop
  calc rc.resp = (answer ch c.state (c.state.countRecentFailedAttempts x window)).1 :=
        congrArg Prod.fst (Option.some.inj rc.done).symm
    _ = (answer ch d.state (d.state.countRecentFailedAttempts x window)).1 := by
        rw [count_alike h₀ h rc.was ha hr, answer_fst]
    _ = rd.resp := congrArg Prod.fst (Option.some.inj rd.done)

theorem run_recent {ch : Choice} {op : Op} (rc : (dashboard K).Ran c c' i ch op)
    (rd : (dashboard K).Ran d d' j ch op) (he : rc.resp = rd.resp) (hr : SameRecent E c d) :
    SameRecent E c' d' := by
  obtain ⟨hnow, hrows⟩ := hr
  have hc := (exec_frame rc.done).now
  have hd := (exec_frame rd.done).now
  refine ⟨hc.trans (hnow.trans hd.symm), ?_⟩
  rw [hc, hd, exec_attempts rc.done, exec_attempts rd.done, he, ← hnow]
  rw [← hnow] at hrows
  exact attemptsAfter_filter _ hrows

theorem alike_level (h₀ : Fresh c₀) (h : Alike K Unmixed E c₀ c d ps) :
    SameRecent E c d ∧ Matched ps ∧ ∀ p ∈ ps, Level (At E) c d p := by
  apply h.level (R := SameRecent E) h₀ ⟨rfl, rfl⟩
  · intro c d x c' hc hx ha hs hr
    have hsame := aside_recent h₀ hc hx ha hs
    exact ⟨hsame.1.trans hr.1, hsame.2.trans hr.2⟩
  · intro c d x d' hd hx ha hs hr
    have hsame := aside_recent h₀ hd hx ha hs
    exact ⟨hr.1.trans hsame.1.symm, hr.2.trans hsame.2.symm⟩
  · intro c d p a c' d' _ hs ht hr
    unfold SameRecent
    rw [start_state hs, start_state ht]
    exact hr
  · exact fun c d e c' d' hs ht hr => env_recent hr hs ht
  · exact fun c d i j ch op c' d' rc rd hc ha hop hr => counter_alike h₀ hc rc rd ha hop hr
  · exact fun c d i j ch op c' d' rc rd he hr => run_recent rc rd he hr

end Runs

/-- Whatever other requests the two runs have, those to the endpoint find the same counters, and come
to the same. -/
theorem counters_separate {K : Site} {E : Endpoint} {c₀ c d : AccountConfig} {ps : List (ℕ × ℕ)}
    (h₀ : Fresh c₀) (h : Alike K Unmixed E c₀ c d ps) {i j : ℕ} (hp : (i, j) ∈ ps) :
    c.threads[i]? = d.threads[j]? ∧ history c.log i = history d.log j ∧
      ∀ x window, c.next i = some (.countRecentFailedAttempts x window) →
        c.state.countRecentFailedAttempts x window = d.state.countRecentFailedAttempts x window := by
  obtain ⟨hr, -, hl⟩ := alike_level h₀ h
  obtain ⟨⟨p, a, q⟩, htc, htd, ha, hh⟩ := hl _ hp
  refine ⟨htc.trans htd.symm, hh, fun x window hn => ?_⟩
  unfold Config.next at hn
  rw [htc] at hn
  cases q with
  | ret out => cases hn
  | call op k =>
    cases hn
    exact count_alike h₀ h.reaches.1 htc ha hr

section Example

def annForgot : Activity :=
  .forgotPassword (from_ "10.0.0.1") { email := "ann@fleet.dev", csrfToken := "x" }

theorem annForgot_at : At .forgotPassword annForgot := rfl

def logsIn (email : String) : Activity :=
  .login (from_ "10.0.0.9") { email, password := "guess", csrfToken := "x" }

/-- The request comes in. -/
def come (c : AccountConfig) (a : Activity) : AccountConfig :=
  { c with threads := c.threads ++ [(dashboard plainSite).thread () a] }

theorem step_come (c : AccountConfig) (a : Activity) :
    (dashboard plainSite).step c (.start () a) = some (come c a) := rfl

def aside (E : Endpoint) (c : AccountConfig) : AccountAction → Bool
  | .start _ a => a.endpoint ≠ some E
  | .run i _ => c.threads[i]?.all fun t => t.act.endpoint ≠ some E
  | .env _ => false

theorem aside_of {E : Endpoint} {c : AccountConfig} {x : AccountAction} (h : aside E c x = true) :
    Aside (At E) c x := by
  cases x with
  | start p a => exact fun ha => of_decide_eq_true h ha
  | env e => cases h
  | run i ch =>
    intro t ht
    simp only [aside, ht, Option.all_some, decide_eq_true_eq] at h
    exact h

def lockOutRun : List AccountAction :=
  [.start () (logsIn "forgot:ann@fleet.dev"), .start () (logsIn "forgot:ann@fleet.dev"),
    .start () (logsIn "forgot:ann@fleet.dev")] ++ calls 0 6 ++ calls 1 6 ++ calls 2 6

/-- Three logins with such an address, and nobody can ask for a mail to the address after the colon. -/
theorem locked_out : ∃ c d, Alike plainSite always .forgotPassword (started annWorld) c d [(3, 0)] ∧
    c.state.countRecentFailedAttempts "forgot:ann@fleet.dev" EMAIL_SEND_WINDOW_SECS = 3 ∧
    d.state.countRecentFailedAttempts "forgot:ann@fleet.dev" EMAIL_SEND_WINDOW_SECS = 0 ∧
    replyOf ((dashboard plainSite).after c (calls 3 1)) 3 = some tooManyRequests.reply ∧
    replyOf ((dashboard plainSite).after d (calls 0 9 { token := "t", uuid := 1 })) 0 =
      some (.infoPage "success" ("If the email exists in our system, a reset link has been sent. " ++
        "Please check your inbox.")) := by
  have hrun : (((dashboard plainSite).replayWhile (aside .forgotPassword) (started annWorld)
      lockOutRun).map fun c => (c.threads.length,
        (come c annForgot).state.countRecentFailedAttempts "forgot:ann@fleet.dev" EMAIL_SEND_WINDOW_SECS,
        replyOf ((dashboard plainSite).after (come c annForgot) (calls 3 1)) 3)) =
      some (3, 3, some tooManyRequests.reply) := by
    decide +kernel
  obtain ⟨c, hc, hfacts⟩ := Option.map_eq_some_iff.mp hrun
  simp only [Prod.mk.injEq] at hfacts
  obtain ⟨hlen, hcount, hreply⟩ := hfacts
  have htwins : Alike plainSite always .forgotPassword (started annWorld) c (started annWorld) [] :=
    Twins.refl.lefts ((replayWhile_reaches hc).mono fun c x h => ⟨trivial, aside_of h⟩)
  have hboth := htwins.start annForgot_at trivial trivial (step_come _ _) (step_come _ _)
  rw [hlen] at hboth
  refine ⟨_, _, hboth, hcount, ?_, hreply, ?_⟩
  · decide +kernel
  · decide +kernel

def unmixed (c : AccountConfig) : AccountAction → Bool
  | .start _ (.login _ form) => Endpoint.login.owns form.email
  | .run i _ => match c.next i with
    | some (.clearLoginAttempts _) => false
    | _ => true
  | _ => true

theorem unmixed_of {c : AccountConfig} {x : AccountAction} (h : unmixed c x = true) : Unmixed c x := by
  cases x with
  | start p a => cases a <;> first | exact h | trivial
  | env e => trivial
  | run i ch =>
    intro y hn
    simp only [unmixed, hn] at h
    cases h

/-- A failed login, with an address as it should be. -/
theorem ann_not_locked_out : ∃ c d, Alike plainSite Unmixed .forgotPassword (started annWorld) c d [(1, 0)] ∧
    c.state.loginAttempts.length = 1 ∧
    c.threads[1]? = d.threads[0]? ∧ history c.log 1 = history d.log 0 ∧
      ∀ x window, c.next 1 = some (.countRecentFailedAttempts x window) →
        c.state.countRecentFailedAttempts x window = d.state.countRecentFailedAttempts x window := by
  have hrun : (((dashboard plainSite).replayWhile
      (fun c x => aside .forgotPassword c x && unmixed c x) (started annWorld)
      (.start () (logsIn "bob@fleet.dev") :: calls 0 6)).map fun c =>
        (c.threads.length, c.state.loginAttempts.length)) = some (1, 1) := by
    decide +kernel
  obtain ⟨c, hc, hfacts⟩ := Option.map_eq_some_iff.mp hrun
  simp only [Prod.mk.injEq] at hfacts
  obtain ⟨hlen, hone⟩ := hfacts
  have htwins : Alike plainSite Unmixed .forgotPassword (started annWorld) c (started annWorld) [] := by
    apply Twins.refl.lefts
    apply (replayWhile_reaches hc).mono
    intro c x h
    obtain ⟨ha, hu⟩ := Bool.and_eq_true_iff.mp h
    exact ⟨unmixed_of hu, aside_of ha⟩
  have hboth := htwins.start annForgot_at trivial trivial (step_come _ _) (step_come _ _)
  rw [hlen] at hboth
  exact ⟨_, _, hboth, hone, counters_separate (started_fresh annWorld) hboth (.head _)⟩

end Example

end FleetOrchestrator.Accounts
