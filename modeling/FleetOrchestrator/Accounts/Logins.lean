import FleetOrchestrator.Accounts.FirstAdmin
import FleetOrchestrator.Accounts.Limits

/-! How many wrong passwords the logins can try in a minute. -/

namespace FleetOrchestrator.Accounts

open Api Core Tables Store Enrolment Interleaving Machine

/-- What a login writes down of a wrong password. -/
def wrongPassword (r : Request) (form : LoginForm) (t : ℤ) : LoginAttempt :=
  { identifier := form.email, ipAddress := some r.ip, success := false,
    failureReason := some "invalid_credentials", attemptedAt := t }

def idCount (form : LoginForm) (n : ℕ) : Entry Op Op.Resp :=
  ⟨.countRecentFailedAttempts form.email FAILED_ATTEMPT_WINDOW_SECS, .ok n⟩

def ipCount (r : Request) (n : ℕ) : Entry Op Op.Resp :=
  ⟨.countRecentIpFailures r.ip FAILED_ATTEMPT_WINDOW_SECS, .ok n⟩

/-- A password was verified, and was wrong. -/
def Wrong (e : Entry Op Op.Resp) : Prop := ∃ password hash, e = ⟨.verifyPassword password hash, false⟩

/-- What the login goes through before it verifies a password. -/
def Checked (r : Request) (form : LoginForm) (h : History) : Prop :=
  ∃ n m, n < MAX_FAILED_ATTEMPTS ∧ m < MAX_IP_FAILED_ATTEMPTS ∧ h = [ipCount r m, idCount form n]

def LoginRules (a : Activity) (h : History) (op : Op) : Prop :=
  match a, op with
  | .login _ _, .countRecentFailedAttempts _ _ => h = []
  | .login r form, .verifyPassword _ _ => ∃ found h₁, h = ⟨.getUserByEmail form.email, found⟩ :: h₁ ∧
      Checked r form h₁
  | _, _ => True

/-- A login that has tried a wrong password writes it down, and that is the end of it. -/
def WroteDown (a : Activity) (h : History) : Prop :=
  ∀ r form, a = .login r form → ∀ e ∈ h, Wrong e → ∃ x t h₁,
    h = ⟨.recordLoginAttempt (wrongPassword r form t), x⟩ :: ⟨.readClock, t⟩ :: e :: h₁

def Op.checks : Op → Bool
  | .countRecentFailedAttempts _ _ | .countRecentIpFailures _ _ | .verifyPassword _ _ => true
  | _ => false

/-- The login has begun to check, and has not come to an end. -/
def UnderWay (c : AccountConfig) (j : ℕ) (r : Request) (form : LoginForm) : Prop :=
  (∃ q, c.threads[j]? = some ⟨(), .login r form, q⟩) ∧ history c.log j ≠ [] ∧ ¬ Finished c j

def AloneAt (c : AccountConfig) (ch : Choice) (a : Activity) : Op → Prop
  | .countRecentFailedAttempts _ _ => ∀ r form, a = .login r form → ∀ j r' form',
      UnderWay c j r' form' → form'.email ≠ form.email ∧ r'.ip ≠ r.ip
  | .recordLoginAttempt t => t.success = false → ch.fault = none
  | .clearLoginAttempts x => (∃ r form, a = .login r form) ∨ ∀ (j : ℕ) r form q,
      c.threads[j]? = some ⟨(), .login r form, q⟩ → form.email ≠ x
  | _ => True

/-- While a login begins no other is under way that has its address or comes from its client; what
failed is written down; only a login clears what counts against one; and no row of the last minute
is swept. -/
def OneByOne (c : AccountConfig) : AccountAction → Prop
  | .run i ch => ∀ op, c.next i = some op → ∀ t, c.threads[i]? = some t → AloneAt c ch t.act op
  | .env (.deleteOldLoginAttempts cutoff) => cutoff ≤ c.state.now - FAILED_ATTEMPT_WINDOW_SECS
  | _ => True

section Conduct

variable {K : Site} {r : Request} {form : LoginForm} {h : History} {a : Activity} {e : Entry Op Op.Resp}

def NoneWrong (h : History) : Prop := ∀ e ∈ h, ¬ Wrong e

theorem NoneWrong.cons (he : ¬ Wrong e) (h' : NoneWrong h) : NoneWrong (e :: h) := by
  intro x hx
  rcases List.mem_cons.mp hx with rfl | hx
  · exact he
  · exact h' x hx

theorem not_wrong (he : e.op.checks = false) : ¬ Wrong e := by
  rintro ⟨password, hash, rfl⟩
  cases he

theorem rules_of_unchecked {op : Op} (ho : op.checks = false) : LoginRules a h op := by
  cases op <;> cases a <;> trivial

theorem NoneWrong.wroteDown (h' : NoneWrong h) : WroteDown a h :=
  fun _ _ _ e he hw => absurd hw (h' e he)

theorem Checked.noneWrong (hc : Checked r form h) : NoneWrong h := by
  obtain ⟨n, m, -, -, rfl⟩ := hc
  apply NoneWrong.cons
  · rintro ⟨password, hash, he⟩
    cases congrArg Entry.op he
  · apply NoneWrong.cons
    · rintro ⟨password, hash, he⟩
      cases congrArg Entry.op he
    · exact fun x hx => by cases hx

theorem check_rules : Obeys (LoginRules (.login r form)) (fun x h => match x with
    | .ok true => Checked r form h
    | _ => NoneWrong h) (checkRateLimit form.email r.ip) [] := by
  apply obeys_step rfl
  intro x
  have hid : ¬ Wrong ⟨.countRecentFailedAttempts form.email FAILED_ATTEMPT_WINDOW_SECS, x⟩ := by
    rintro ⟨password, hash, he⟩
    cases congrArg Entry.op he
  cases x with
  | error e => exact .cons hid fun x hx => by cases hx
  | ok n =>
    refine obeys_ite (fun _ => NoneWrong.cons hid fun x hx => by cases hx) fun hn => ?_
    apply obeys_step trivial
    intro x
    have hip : ¬ Wrong ⟨.countRecentIpFailures r.ip FAILED_ATTEMPT_WINDOW_SECS, x⟩ := by
      rintro ⟨password, hash, he⟩
      cases congrArg Entry.op he
    cases x with
    | error e => exact .cons hip (.cons hid fun x hx => by cases hx)
    | ok m =>
      change match (Except.ok !decide (m ≥ MAX_IP_FAILED_ATTEMPTS) : Except StoreError Bool) with
        | .ok true => _
        | _ => _
      by_cases hm : m ≥ MAX_IP_FAILED_ATTEMPTS
      · simp only [hm, decide_true, Bool.not_true]
        exact .cons hip (.cons hid fun x hx => by cases hx)
      · simp only [hm, decide_false, Bool.not_false]
        exact ⟨n, m, Nat.lt_of_not_ge hn, Nat.lt_of_not_ge hm, rfl⟩

theorem uses_failure {identifier ip reason : String} :
    Uses (fun op => op.checks = false) (recordLoginFailure identifier ip reason) :=
  uses_bind (uses_perform rfl) fun _ => uses_perform rfl

theorem uses_openSession {email : String} {user : User} :
    Uses (fun op => op.checks = false) (openSession K r email user) := by
  refine uses_step rfl fun m => uses_step rfl fun createdAt => uses_step rfl fun base =>
    uses_step rfl fun x => ?_
  cases x with
  | error e => exact uses_ret _
  | ok u =>
    refine uses_step rfl fun now => uses_step rfl fun x => ?_
    apply uses_bind (uses_recordLoginSuccess fun op ho => by cases op <;> first | rfl | cases ho)
    exact fun x => uses_step rfl fun csrf => uses_ret _

/-- What does not check goes on from no wrong password to no wrong password. -/
theorem unchecked_rules {α : Type} {q : Call α} (hq : Uses (fun op => op.checks = false) q)
    (hn : NoneWrong h) : Obeys (LoginRules a) (fun _ h' => NoneWrong h') q h := by
  have licence (h : History) (op : Op) (_ : NoneWrong h) (ho : op.checks = false) :
      LoginRules a h op := rules_of_unchecked ho
  have kept (h : History) (op : Op) (x : op.Resp) (hs : NoneWrong h) (ho : op.checks = false) :
      NoneWrong (⟨op, x⟩ :: h) := hs.cons (not_wrong ho)
  exact (composes_carries licence kept).uses hq h hn

theorem refused_rules {password : String} {hash : Option String} {x : Bool} (hn : NoneWrong h) :
    Obeys (LoginRules (.login r form)) (fun _ h' => WroteDown (.login r form) h')
      (loginRefused r form.email) (⟨.verifyPassword password hash, x⟩ :: h) := by
  apply obeys_step trivial
  intro t
  apply obeys_step trivial
  intro y r' form' ha e he hw
  cases ha
  refine ⟨y, t, h, ?_⟩
  have hwas : e = ⟨.verifyPassword password hash, x⟩ := by
    rcases List.mem_cons.mp he with rfl | he
    · exact absurd hw (not_wrong rfl)
    · rcases List.mem_cons.mp he with rfl | he
      · exact absurd hw (not_wrong rfl)
      · rcases List.mem_cons.mp he with rfl | he
        · rfl
        · exact absurd hw (hn e he)
  rw [hwas]
  rfl

theorem login_rules : Obeys (LoginRules (.login r form)) (fun _ h => WroteDown (.login r form) h)
    (login K r form) [] := by
  refine obeys_ite (fun _ => NoneWrong.wroteDown fun x hx => by cases hx) fun _ => ?_
  apply obeys_bind check_rules
  intro x h hc
  cases x with
  | error e => exact NoneWrong.wroteDown hc
  | ok granted =>
    cases granted with
    | false => exact NoneWrong.wroteDown hc
    | true =>
      apply obeys_step trivial
      intro x
      have hn : NoneWrong (⟨.getUserByEmail form.email, x⟩ :: h) := (Checked.noneWrong hc).cons (not_wrong rfl)
      cases x with
      | error e => exact hn.wroteDown
      | ok found =>
        dsimp only
        cases found.filter fun u => u.enabled with
        | none =>
          apply obeys_step ⟨_, h, rfl, hc⟩
          exact fun _ => refused_rules hn
        | some user =>
          apply obeys_step ⟨_, h, rfl, hc⟩
          intro valid
          cases valid with
          | false => exact refused_rules hn
          | true =>
            have hn : NoneWrong (⟨.verifyPassword form.password (some user.passwordHash), true⟩ ::
                ⟨.getUserByEmail form.email, .ok found⟩ :: h) := by
              apply hn.cons
              rintro ⟨password, hash, he⟩
              cases he
            refine obeys_ite (fun hf => by cases hf) fun _ => ?_
            apply obeys_ite
            · intro _
              apply obeys_bind (unchecked_rules uses_failure hn)
              exact fun _ _ hn => NoneWrong.wroteDown hn
            · exact fun _ => obeys_conseq (unchecked_rules uses_openSession hn) fun _ _ hn => hn.wroteDown

theorem logins_disciplined : (dashboard K).Disciplined (fun _ a => LoginRules a)
    fun _ a _ h => WroteDown a h := by
  intro p a
  cases a with
  | login r form => exact login_rules
  | _ => exact obeys_conseq (program_obeys fun _ _ _ => trivial) fun _ _ _ _ _ ha => by cases ha

end Conduct

def standingAfter (s : List (ℕ × LoginAttempt)) (k : Interleaving.Call Op Op.Resp Unit) :
    List (ℕ × LoginAttempt) :=
  match k.entry with
  | ⟨.recordLoginAttempt a, .ok ()⟩ => (k.thread, a) :: s
  | ⟨.clearLoginAttempts x, .ok ()⟩ => s.filter fun p => p.2.identifier ≠ x
  | _ => s

/-- Who wrote down what, of what no clearing has taken away since. -/
def standing : Log → List (ℕ × LoginAttempt)
  | [] => []
  | k :: l => standingAfter (standing l) k

/-- The rows since `t` that are left, in their order. -/
def rowsSince (t : ℤ) (s : List (ℕ × LoginAttempt)) : List LoginAttempt :=
  ((s.map Prod.snd).filter fun a => t ≤ a.attemptedAt).reverse

section Standing

variable {k k' : Interleaving.Call Op Op.Resp Unit} {l new b : Log} {a : LoginAttempt} {t : ℤ}
  {rows : List LoginAttempt} {s : List (ℕ × LoginAttempt)}

/-- What was written down since and not cleared still stands. -/
theorem standing_of (hk : k :: l <:+ new ++ b) (hn : ¬ k :: l <:+ b)
    (he : k.entry = ⟨.recordLoginAttempt a, .ok ()⟩)
    (hc : ∀ k' l', k' :: l' <:+ new ++ b → k :: l <:+ l' →
      k'.entry ≠ ⟨.clearLoginAttempts a.identifier, .ok ()⟩) : (k.thread, a) ∈ standing new := by
  induction new with
  | nil => exact absurd hk hn
  | cons k₁ new ih =>
    rcases List.suffix_cons_iff.mp hk with hsame | hk
    · cases hsame
      unfold standing standingAfter
      rw [he]
      exact .head _
    · have hin := ih hk fun k' l' hk' => hc k' l' (hk'.trans (List.suffix_cons _ _))
      unfold standing standingAfter
      split
      · exact .tail _ hin
      · next x he₁ =>
        refine List.mem_filter.mpr ⟨hin, decide_eq_true ?_⟩
        rintro rfl
        exact hc k₁ (new ++ b) List.suffix_rfl hk he₁
      · exact hin

theorem mem_rowsSince (ha : a ∈ rowsSince t s) : t ≤ a.attemptedAt :=
  of_decide_eq_true (List.mem_filter.mp (List.mem_reverse.mp ha)).2

theorem rowsSince_filter {q : LoginAttempt → Bool} :
    rowsSince t (s.filter fun p => q p.2) = (rowsSince t s).filter q := by
  unfold rowsSince
  rw [List.filter_reverse, List.filter_filter, List.filter_map, List.filter_map, List.filter_filter]
  congr 3
  funext p
  exact Bool.and_comm _ _

theorem countP_rowsSince {g : LoginAttempt → Bool} :
    (rowsSince t s).countP g = s.countP fun p => g p.2 && t ≤ p.2.attemptedAt := by
  unfold rowsSince
  rw [List.countP_reverse, List.countP_filter, List.countP_map]
  rfl

theorem rowsSince_swept {cutoff : ℤ} (h : (rowsSince t s).Sublist rows) (hle : cutoff ≤ t) :
    (rowsSince t s).Sublist (rows.filter fun a => cutoff ≤ a.attemptedAt) := by
  have hsame : (rowsSince t s).filter (fun a => cutoff ≤ a.attemptedAt) = rowsSince t s := by
    apply List.filter_eq_self.mpr
    intro a ha
    exact decide_eq_true (hle.trans (mem_rowsSince ha))
  rw [← hsame]
  exact h.filter _

/-- The table holds at least what is left, as long as the sweeps keep away from it. -/
theorem rowsSince_step (h : (rowsSince t s).Sublist rows)
    (hold : ∀ cutoff, k.op = .deleteOldLoginAttempts cutoff → cutoff ≤ t) :
    (rowsSince t (standingAfter s k)).Sublist (attemptsAfter rows k.entry) := by
  unfold standingAfter
  split
  · next a he =>
    rw [he]
    change (rowsSince t ((k.thread, a) :: s)).Sublist (rows ++ [a])
    unfold rowsSince
    rw [List.map_cons, List.filter_cons]
    split
    · rw [List.reverse_cons]
      exact h.append_right _
    · exact h.trans (List.sublist_append_left _ _)
  · next x he =>
    rw [he, rowsSince_filter (q := fun a => a.identifier ≠ x)]
    exact h.filter _
  · next hrecord hclear =>
    unfold attemptsAfter
    split
    · next a he => exact absurd he (hrecord a)
    · next x he => exact absurd he (hclear x)
    · next cutoff he => exact rowsSince_swept h (hold cutoff (congrArg Entry.op he))
    · exact h

end Standing

/-- A wrong password of that login, at its place. -/
def WrongAt (c : AccountConfig) (r : Request) (form : LoginForm) (p : Log) : Prop :=
  ∃ k l q, p = k :: l ∧ p <:+ c.log ∧ Wrong k.entry ∧ c.threads[k.thread]? = some ⟨(), .login r form, q⟩

/-- A login with that address has succeeded since. -/
def ClearedAfter (c : AccountConfig) (x : String) (p : Log) : Prop :=
  ∃ k l r form q, k :: l <:+ c.log ∧ p <:+ l ∧ k.entry = ⟨.clearLoginAttempts x, .ok ()⟩ ∧
    c.threads[k.thread]? = some ⟨(), .login r form, q⟩

section Runs

variable {K : Site} {c₀ c c₁ c₂ : AccountConfig} {r r' : Request} {form form' : LoginForm}
  {k k' : Interleaving.Call Op Op.Resp Unit} {l l' p : Log} {q q' : Call Response}

/-- The looks at both counters that have let the login go on. -/
theorem checks_logged (h₀ : Fresh c₀) (h : (dashboard K).Reaches OneByOne c₀ c) (hk : k :: l <:+ c.log)
    (hw : Wrong k.entry) (ht : c.threads[k.thread]? = some ⟨(), .login r form, q⟩) :
    ∃ kc lc kq lq n m, n < MAX_FAILED_ATTEMPTS ∧ m < MAX_IP_FAILED_ATTEMPTS ∧ kq :: lq <:+ l ∧
      kc :: lc <:+ lq ∧ kc.thread = k.thread ∧ kq.thread = k.thread ∧ kc.entry = idCount form n ∧
      kq.entry = ipCount r m ∧ history lc k.thread = [] ∧ ∀ e ∈ history l k.thread, ¬ Wrong e := by
  obtain ⟨password, hash, he⟩ := hw
  obtain ⟨th, hth, -, hl⟩ := logged_licence logins_disciplined h₀ h hk
  rw [ht] at hth
  cases hth
  rw [show k.op = .verifyPassword password hash from congrArg Entry.op he] at hl
  obtain ⟨found, h₁, hh, n, m, hn, hm, rfl⟩ := hl
  have hip : ipCount r m :: [idCount form n] <:+ history l k.thread := by
    rw [hh]
    exact List.suffix_cons _ _
  obtain ⟨kq, lq, hq, hqi, hqe, hqh⟩ := of_history_at hip
  obtain ⟨kc, lc, hc, hci, hce, hch⟩ := of_history_at
    (hqh ▸ List.suffix_rfl : [idCount form n] <:+ history lq k.thread)
  refine ⟨kc, lc, kq, lq, n, m, hn, hm, hq, hc, hci, hqi, hce, hqe, hch, ?_⟩
  rw [hh]
  exact (Checked.noneWrong ⟨n, m, hn, hm, rfl⟩).cons (not_wrong rfl)

/-- A login verifies one password. -/
theorem wrong_once (h₀ : Fresh c₀) (h : (dashboard K).Reaches OneByOne c₀ c) (hk : k :: l <:+ c.log)
    (hk' : k' :: l' <:+ c.log) (hw : Wrong k.entry) (hw' : Wrong k'.entry) (hi : k.thread = k'.thread)
    (ht : c.threads[k.thread]? = some ⟨(), .login r form, q⟩) : k :: l = k' :: l' := by
  have later {k k' : Interleaving.Call Op Op.Resp Unit} {l l' : Log} (hk' : k' :: l' <:+ c.log)
      (hw : Wrong k.entry) (hw' : Wrong k'.entry) (hi : k.thread = k'.thread)
      (ht : c.threads[k'.thread]? = some ⟨(), .login r form, q⟩) (hs : k :: l <:+ l') : False := by
    obtain ⟨-, -, -, -, -, -, -, -, -, -, -, -, -, -, -, hnone⟩ := checks_logged h₀ h hk' hw' ht
    exact hnone _ (mem_history.mpr ⟨k, hs.subset List.mem_cons_self, hi, rfl⟩) hw
  rcases ordered hk hk' with ⟨rfl, rfl⟩ | hs | hs
  · rfl
  · exact (later hk' hw hw' hi (hi ▸ ht) hs).elim
  · exact (later hk hw' hw hi.symm ht hs).elim

/-- A thread that has logged something is there, with the activity it has later. -/
theorem logged_act (h₀ : Fresh c₀) (h₁ : (dashboard K).Reaches OneByOne c₀ c₁)
    (h : (dashboard K).Reaches OneByOne c₁ c) (hk : k ∈ c₁.log)
    (ht : c.threads[k.thread]? = some ⟨(), .login r form, q⟩) :
    ∃ q₁, c₁.threads[k.thread]? = some ⟨(), .login r form, q₁⟩ := by
  obtain ⟨l, hl⟩ := placed hk
  obtain ⟨th, hth, -, -⟩ := logged_licence logins_disciplined h₀ h₁ hl
  obtain ⟨th', hth', -, hact⟩ := h.thread hth
  rw [ht] at hth'
  cases hth'
  obtain ⟨⟨⟩, act, q₁⟩ := th
  cases hact
  exact ⟨q₁, hth⟩

/-- A login that still has a password to verify is under way once it has begun. -/
theorem under_way (h₀ : Fresh c₀) (h₁ : (dashboard K).Reaches OneByOne c₀ c₁)
    (h : (dashboard K).Reaches OneByOne c₁ c) {kc : Interleaving.Call Op Op.Resp Unit}
    (hc : kc ∈ c₁.log) (hi : kc.thread = k.thread) (hk : k :: l <:+ c.log) (hn : ¬ k :: l <:+ c₁.log)
    (ht : c.threads[k.thread]? = some ⟨(), .login r form, q⟩) : UnderWay c₁ k.thread r form := by
  refine ⟨?_, ?_, ?_⟩
  · obtain ⟨q₁, hq₁⟩ := logged_act h₀ h₁ h hc (hi ▸ ht)
    exact ⟨q₁, hi ▸ hq₁⟩
  · intro hnil
    have hin : kc.entry ∈ history c₁.log k.thread := mem_history.mpr ⟨kc, hc, hi, rfl⟩
    rw [hnil] at hin
    cases hin
  · rintro ⟨p, a, out, hout⟩
    exact hn (h.done_before hout hk)

/-- The step behind an entry of the log met the condition. -/
theorem call_alone (h : (dashboard K).Reaches OneByOne c₁ c) (hk : k :: l <:+ c.log)
    (hn : ¬ k :: l <:+ c₁.log) {a : Activity} (ht : c.threads[k.thread]? = some ⟨(), a, q⟩) :
    ∃ c₂ c₃ ch, (dashboard K).Reaches OneByOne c₁ c₂ ∧ (dashboard K).Reaches OneByOne c₂ c ∧
      (dashboard K).Reaches OneByOne c₃ c ∧ c₂.log = l ∧ AloneAt c₂ ch a k.op ∧
      exec K ch k.op c₂.state = some (k.resp, c₃.state) := by
  obtain ⟨c₂, c₃, ch, h₂, hx, hs, hlog, ⟨ran, -, hresp⟩, h₃⟩ := h.step_of_log hk hn
  have hact : a = ran.act := (ran.still h₃ ht).2
  refine ⟨c₂, c₃, ch, h₂, (Reaches.single hx hs).trans h₃, h₃, hlog, ?_, ?_⟩
  · rw [hact]
    exact hx k.op ran.next _ ran.was
  · rw [← hresp]
    exact ran.done

/-- While a login begins no login is under way that is akin to it. -/
theorem begins_alone (h₀ : Fresh c₀) (h : (dashboard K).Reaches OneByOne c₀ c)
    {kc : Interleaving.Call Op Op.Resp Unit} {lc : Log} {n : ℕ} (hc : kc :: lc <:+ c.log)
    (hce : kc.entry = idCount form n) (ht : c.threads[kc.thread]? = some ⟨(), .login r form, q⟩) :
    ∃ c₂, (dashboard K).Reaches OneByOne c₀ c₂ ∧ (dashboard K).Reaches OneByOne c₂ c ∧
      c₂.log = lc ∧ ∀ j r' form', UnderWay c₂ j r' form' → form'.email ≠ form.email ∧ r'.ip ≠ r.ip := by
  have hn : ¬ kc :: lc <:+ c₀.log := by
    rw [h₀.log]
    exact fun hs => by cases List.suffix_nil.mp hs
  obtain ⟨c₂, c₃, ch, h₂, h₃, h₄, hlog, halone, -⟩ := call_alone h hc hn ht
  rw [show kc.op = .countRecentFailedAttempts form.email FAILED_ATTEMPT_WINDOW_SECS from
    congrArg Entry.op hce] at halone
  exact ⟨c₂, h₂, h₃, hlog, halone r form rfl⟩

/-- Logins that are akin follow one another: what the earlier one tried, it had written down before
the later one began. -/
theorem done_first (h₀ : Fresh c₀) (h : (dashboard K).Reaches OneByOne c₀ c) (hk : k :: l <:+ c.log)
    (hw : Wrong k.entry) (ht : c.threads[k.thread]? = some ⟨(), .login r form, q⟩)
    (hk' : k' :: l' <:+ c.log) (hw' : Wrong k'.entry)
    (ht' : c.threads[k'.thread]? = some ⟨(), .login r' form', q'⟩)
    (hakin : form.email = form'.email ∨ r.ip = r'.ip) (hlt : k :: l <:+ l')
    {kc : Interleaving.Call Op Op.Resp Unit} {lc : Log} {n : ℕ} (hc : kc :: lc <:+ l')
    (hci : kc.thread = k'.thread) (hce : kc.entry = idCount form' n) (hch : history lc k'.thread = []) :
    k :: l <:+ lc ∧ ∃ c₂, (dashboard K).Reaches OneByOne c₀ c₂ ∧
      (dashboard K).Reaches OneByOne c₂ c ∧ c₂.log = lc ∧ Finished c₂ k.thread := by
  have hin' : l' <:+ c.log := (List.suffix_cons k' l').trans hk'
  have hcl := hc.trans hin'
  obtain ⟨c₂, h₂, h₃, rfl, halone⟩ := begins_alone h₀ h hcl hce (hci ▸ ht')
  have hbefore : k :: l <:+ c₂.log := by
    rcases ordered hcl hk with ⟨rfl, -⟩ | hs | hs
    · obtain ⟨password, hash, he⟩ := hw
      cases congrArg Entry.op (hce.symm.trans he)
    · -- The later login began before the earlier one had verified: they were under way together.
      obtain ⟨kd, ld, kq, lq, n', m, -, -, hq, hd, hdi, -, hde, -⟩ := checks_logged h₀ h hk hw ht
      have hdl : kd :: ld <:+ l := hd.trans ((List.suffix_cons _ _).trans hq)
      have hin : l <:+ c.log := (List.suffix_cons k l).trans hk
      have hlen := hs.length_le
      have hlen' := hlt.length_le
      have hlend := hdl.length_le
      simp only [List.length_cons] at hlen hlen' hlend
      rcases ordered hcl (hdl.trans hin) with ⟨rfl, rfl⟩ | hsd | hsd
      · have heq := wrong_once h₀ h hk hk' hw hw' (hdi.symm.trans hci) ht
        have := congrArg List.length heq
        simp only [List.length_cons] at this
        omega
      · obtain ⟨c₄, h₄, h₅, rfl, halone'⟩ := begins_alone h₀ h (hdl.trans hin) hde (hdi ▸ ht)
        have hno : ¬ k' :: l' <:+ c₄.log := by
          intro hle
          have := hle.length_le
          rw [List.length_cons] at this
          omega
        obtain ⟨hemail, hip⟩ := halone' _ _ _
          (under_way h₀ h₄ h₅ (hsd.subset List.mem_cons_self) hci hk' hno ht')
        rcases hakin with he | he
        · exact absurd he.symm hemail
        · exact absurd he.symm hip
      · have hno : ¬ k :: l <:+ c₂.log := by
          intro hle
          have := hle.length_le
          rw [List.length_cons] at this
          omega
        obtain ⟨hemail, hip⟩ := halone _ _ _
          (under_way h₀ h₂ h₃ (hsd.subset List.mem_cons_self) hdi hk hno ht)
        rcases hakin with he | he
        · exact absurd he hemail
        · exact absurd he hip
    · exact hs
  refine ⟨hbefore, c₂, h₂, h₃, rfl, ?_⟩
  by_contra hfin
  have hmem : k ∈ c₂.log := hbefore.subset List.mem_cons_self
  have hway : UnderWay c₂ k.thread r form := by
    refine ⟨logged_act h₀ h₂ h₃ hmem ht, ?_, hfin⟩
    intro hnil
    have hin : k.entry ∈ history c₂.log k.thread := mem_history.mpr ⟨k, hmem, rfl, rfl⟩
    rw [hnil] at hin
    cases hin
  obtain ⟨hemail, hip⟩ := halone _ _ _ hway
  rcases hakin with he | he
  · exact absurd he hemail
  · exact absurd he hip

/-- What is not part of an earlier log came after it. -/
theorem after_base {log base : Log} (hk : k :: l <:+ log) (hb : base <:+ log)
    (hn : ¬ k :: l <:+ base) : base <:+ l := by
  rcases List.suffix_or_suffix_of_suffix hk hb with hs | hs
  · exact absurd hs hn
  · rcases List.suffix_cons_iff.mp hs with he | hs
    · exact absurd (he ▸ List.suffix_rfl) hn
    · exact hs

/-- A login that has come to an end has written its wrong password down. -/
theorem written_down (h₀ : Fresh c₀) (h₁ : (dashboard K).Reaches OneByOne c₀ c₁)
    (h : (dashboard K).Reaches OneByOne c₁ c) (h₂ : (dashboard K).Reaches OneByOne c₀ c₂)
    (h₃ : (dashboard K).Reaches OneByOne c₂ c) (hk : k :: l <:+ c₂.log) (hn : ¬ k :: l <:+ c₁.log)
    (hw : Wrong k.entry) (ht : c.threads[k.thread]? = some ⟨(), .login r form, q⟩)
    (hfin : Finished c₂ k.thread) : ∃ kr lr t, kr :: lr <:+ c₂.log ∧ k :: l <:+ lr ∧
      kr.thread = k.thread ∧ kr.entry = ⟨.recordLoginAttempt (wrongPassword r form t), .ok ()⟩ ∧
      c₁.state.now ≤ t := by
  obtain ⟨⟨⟩, a, out, hout⟩ := hfin
  have hact : a = .login r form := by
    obtain ⟨t', ht', -, ha⟩ := h₃.thread hout
    rw [ht] at ht'
    cases ht'
    exact ha.symm
  subst hact
  have hmem : k.entry ∈ history c₂.log k.thread :=
    mem_history.mpr ⟨k, hk.subset List.mem_cons_self, rfl, rfl⟩
  obtain ⟨x, t, rest, hh⟩ := returned logins_disciplined h₀ h₂ hout r form rfl _ hmem hw
  obtain ⟨kr, lr, hr, hri, hre, hrh⟩ := of_history_at (hh ▸ List.suffix_rfl :
    (⟨.recordLoginAttempt (wrongPassword r form t), x⟩ :: ⟨.readClock, t⟩ :: k.entry :: rest :
      History) <:+ history c₂.log k.thread)
  obtain ⟨kt, lt, hkt, -, hte, hth⟩ := of_history_at (hrh ▸ List.suffix_rfl :
    (⟨.readClock, t⟩ :: k.entry :: rest : History) <:+ history lr k.thread)
  obtain ⟨kv, lv, hv, hvi, hve, -⟩ := of_history_at (hth ▸ List.suffix_rfl :
    (k.entry :: rest : History) <:+ history lt k.thread)
  have hrc : kr :: lr <:+ c.log := hr.trans h₃.log_suffix
  have htc : kt :: lt <:+ c.log := hkt.trans ((List.suffix_cons kr lr).trans hrc)
  have hvc : kv :: lv <:+ c.log := hv.trans ((List.suffix_cons kt lt).trans htc)
  have hsame := wrong_once h₀ (h₁.trans h) (hk.trans h₃.log_suffix) hvc hw (hve ▸ hw) hvi.symm ht
  rw [← hsame] at hv
  have hkr : k :: l <:+ lr := hv.trans ((List.suffix_cons kt lt).trans hkt)
  have hok : x = .ok () := by
    obtain ⟨c₄, c₅, ch, -, -, -, -, halone, hdone⟩ := call_alone h hrc
      (fun hs => hn (hkr.trans ((List.suffix_cons kr lr).trans hs))) (hri ▸ ht)
    rw [show kr.op = .recordLoginAttempt (wrongPassword r form t) from congrArg Entry.op hre] at halone
    have hexec : exec K ch kr.entry.op c₄.state = some (kr.entry.resp, c₅.state) := hdone
    rw [hre] at hexec
    rcases attempt_cases (Option.some.inj hexec) with ⟨e, hf, -⟩ | ⟨-, hx⟩
    · rw [halone rfl] at hf
      cases hf
    · exact (Prod.mk.inj hx).1.symm
  refine ⟨kr, lr, t, hr, hkr, hri, hok ▸ hre, clock_after h htc hte ?_⟩
  exact (after_base (hk.trans h₃.log_suffix) h.log_suffix hn).trans ((List.suffix_cons k l).trans hv)

/-- Within a minute the table holds all that was written down and not cleared. -/
theorem rows_kept (h₀ : Fresh c₀) (h₁ : (dashboard K).Reaches OneByOne c₀ c₁)
    (h : (dashboard K).Reaches OneByOne c₁ c)
    (hnow : c.state.now ≤ c₁.state.now + FAILED_ATTEMPT_WINDOW_SECS) : ∃ new, c.log = new ++ c₁.log ∧
      (rowsSince c₁.state.now (standing new)).Sublist c.state.loginAttempts := by
  induction h with
  | refl => exact ⟨[], rfl, List.nil_sublist _⟩
  | @tail c c' x h hx hs ih =>
    have hback := step_now hs
    obtain ⟨new, hlog, hrows⟩ := ih (hback.trans hnow)
    cases x with
    | start p a => exact ⟨new, (step_start hs).2.2 ▸ hlog, start_state hs ▸ hrows⟩
    | env e =>
      refine ⟨new, (step_env hs).2.2 ▸ hlog, ?_⟩
      rw [env_state hs]
      cases e with
      | deleteOldLoginAttempts cutoff =>
        refine rowsSince_swept hrows ?_
        have hcut : cutoff ≤ c.state.now - FAILED_ATTEMPT_WINDOW_SECS := hx
        omega
      | _ => exact hrows
    | run i ch =>
      obtain ⟨op, ⟨ran⟩⟩ := step_run hs
      refine ⟨⟨i, ran.party, op, ran.resp⟩ :: new, by rw [ran.log, hlog, List.cons_append], ?_⟩
      rw [exec_attempts ran.done]
      apply rowsSince_step hrows
      rintro cutoff hop
      have hl := ran.licensed counts_disciplined h₀ (h₁.trans h)
      obtain ⟨act, hact, hl⟩ : ∃ act, act = ran.act ∧ Counts act (history c.log i) op := ⟨_, rfl, hl⟩
      rw [show op = .deleteOldLoginAttempts cutoff from hop] at hl
      obtain ⟨t, ht, rfl⟩ := hl
      obtain ⟨k, hk, -, he⟩ := told_logged ht
      have hpast : (t : ℤ) ≤ c.state.now := clock_told h₀ (h₁.trans h) k hk t he
      simp only [KEPT_SECS, FAILED_ATTEMPT_WINDOW_SECS] at *
      omega

/-- A wrong password since `c₁`, with no success of its login's address after it. -/
def Standing (c₁ c : AccountConfig) (r : Request) (form : LoginForm) (p : Log) : Prop :=
  WrongAt c r form p ∧ ¬ p <:+ c₁.log ∧ ¬ ClearedAfter c form.email p

/-- A clearing that is no login's does not touch what counts against one. -/
theorem not_cleared (h₀ : Fresh c₀) (h₁ : (dashboard K).Reaches OneByOne c₀ c₁)
    (h : (dashboard K).Reaches OneByOne c₁ c) (hp : Standing c₁ c r form p)
    (hk' : k' :: l' <:+ c.log) (hs : p <:+ l') :
    k'.entry ≠ ⟨.clearLoginAttempts form.email, .ok ()⟩ := by
  intro he
  obtain ⟨⟨k, l, q, rfl, hk, hw, ht⟩, hn, hc⟩ := hp
  obtain ⟨th, hth, -, -⟩ := logged_licence logins_disciplined h₀ (h₁.trans h) hk'
  obtain ⟨⟨⟩, act, q'⟩ := th
  obtain ⟨c₂, c₃, ch, h₂, h₃, -, rfl, halone, -⟩ := call_alone h hk'
    (fun hle => hn (hs.trans ((List.suffix_cons k' l').trans hle))) hth
  rw [show k'.op = .clearLoginAttempts form.email from congrArg Entry.op he] at halone
  rcases halone with ⟨r', form', rfl⟩ | hother
  · exact hc ⟨k', _, r', form', q', hk', hs, he, hth⟩
  · obtain ⟨q₁, hq₁⟩ := logged_act h₀ (h₁.trans h₂) h₃ (hs.subset List.mem_cons_self) ht
    exact hother _ _ _ _ hq₁ rfl

def placeThread (p : Log) : ℕ := (p.head?.map Interleaving.Call.thread).getD 0

/-- What was tried before a later login of that kind began is in the table when it looks there. -/
theorem tried_rows (h₀ : Fresh c₀) (h₁ : (dashboard K).Reaches OneByOne c₀ c₁)
    (h : (dashboard K).Reaches OneByOne c₁ c) {ps : List Log} (hd : ps.Nodup) {lc : Log}
    {counted : LoginAttempt → Bool}
    (hps : ∀ p ∈ ps, ∃ r form, Standing c₁ c r form p ∧ (∀ t, counted (wrongPassword r form t) = true) ∧
      ∃ kr lr t, kr :: lr <:+ lc ∧ p <:+ lr ∧ kr.thread = placeThread p ∧
        kr.entry = ⟨.recordLoginAttempt (wrongPassword r form t), .ok ()⟩ ∧ c₁.state.now ≤ t)
    (h₂ : (dashboard K).Reaches OneByOne c₁ c₂) (h₃ : (dashboard K).Reaches OneByOne c₂ c)
    (hlc : lc <:+ c₂.log) (hnow : c.state.now ≤ c₁.state.now + FAILED_ATTEMPT_WINDOW_SECS) :
    ps.length ≤ c₂.state.countFailures FAILED_ATTEMPT_WINDOW_SECS counted := by
  have hlate := reaches_now h₃
  obtain ⟨new, hnew, hrows⟩ := rows_kept h₀ h₁ h₂ (hlate.trans hnow)
  let fails (a : LoginAttempt) : Bool := counted a && !a.success &&
    c₂.state.now - FAILED_ATTEMPT_WINDOW_SECS ≤ a.attemptedAt
  let left := (standing new).filter fun x => fails x.2 && c₁.state.now ≤ x.2.attemptedAt
  have hthreads : (ps.map placeThread).Nodup := by
    apply hd.map_on
    intro p hp p' hp' he
    obtain ⟨r, form, ⟨⟨k, l, q, rfl, hk, hw, ht⟩, -, -⟩, -⟩ := hps p hp
    obtain ⟨r', form', ⟨⟨k', l', q', rfl, hk', hw', -⟩, -, -⟩, -⟩ := hps p' hp'
    exact wrong_once h₀ (h₁.trans h) hk hk' hw hw' he ht
  have hsub : ps.map placeThread ⊆ left.map Prod.fst := by
    intro i hi
    obtain ⟨p, hp, rfl⟩ := List.mem_map.mp hi
    obtain ⟨r, form, hst, hcounted, kr, lr, t, hr, hpr, hri, hre, hle⟩ := hps p hp
    have hin : (kr.thread, wrongPassword r form t) ∈ standing new := by
      apply standing_of (b := c₁.log) (l := lr)
      · exact hnew ▸ hr.trans hlc
      · exact fun hs => hst.2.1 (hpr.trans ((List.suffix_cons kr lr).trans hs))
      · exact hre
      · intro k' l' hk' hs
        rw [← hnew] at hk'
        exact not_cleared h₀ h₁ h hst (hk'.trans h₃.log_suffix)
          (hpr.trans ((List.suffix_cons kr lr).trans hs))
    refine List.mem_map.mpr ⟨_, List.mem_filter.mpr ⟨hin, ?_⟩, hri⟩
    simp only [fails, Bool.and_eq_true, decide_eq_true_eq]
    refine ⟨⟨⟨hcounted t, rfl⟩, ?_⟩, hle⟩
    change c₂.state.now - FAILED_ATTEMPT_WINDOW_SECS ≤ t
    omega
  calc ps.length = (ps.map placeThread).length := (List.length_map _).symm
    _ ≤ (left.map Prod.fst).length := (List.subperm_of_subset hthreads hsub).length_le
    _ = (standing new).countP fun x => fails x.2 && c₁.state.now ≤ x.2.attemptedAt := by
        rw [List.length_map, List.countP_eq_length_filter]
    _ = (rowsSince c₁.state.now (standing new)).countP fails := countP_rowsSince.symm
    _ ≤ c₂.state.loginAttempts.countP fails := hrows.countP_le

theorem exists_longest {ps : List Log} (h : ps ≠ []) : ∃ p ∈ ps, ∀ p' ∈ ps, p'.length ≤ p.length := by
  induction ps with
  | nil => exact absurd rfl h
  | cons p ps ih =>
    by_cases hn : ps = []
    · subst hn
      exact ⟨p, .head _, fun p' hp' => by rw [List.mem_singleton.mp hp']⟩
    · obtain ⟨p₁, hp₁, hmax⟩ := ih hn
      by_cases hle : p.length ≤ p₁.length
      · refine ⟨p₁, .tail _ hp₁, fun p' hp' => ?_⟩
        rcases List.mem_cons.mp hp' with rfl | hp'
        · exact hle
        · exact hmax p' hp'
      · refine ⟨p, .head _, fun p' hp' => ?_⟩
        rcases List.mem_cons.mp hp' with rfl | hp'
        · exact le_rfl
        · have := hmax p' hp'
          omega

/-- The bound, for any kind of logins that may not overlap and a counter that each of them looks at. -/
theorem wrong_bounded (h₀ : Fresh c₀) (h₁ : (dashboard K).Reaches OneByOne c₀ c₁)
    (h : (dashboard K).Reaches OneByOne c₁ c)
    (hnow : c.state.now ≤ c₁.state.now + FAILED_ATTEMPT_WINDOW_SECS) {limit : ℕ}
    {kind : Request → LoginForm → Prop} (counted : LoginAttempt → Bool) (hpos : 0 < limit)
    (hakin : ∀ r form r' form', kind r form → kind r' form' → form.email = form'.email ∨ r.ip = r'.ip)
    (hcounted : ∀ r form t, kind r form → counted (wrongPassword r form t) = true)
    (hlook : ∀ (kc kq : Interleaving.Call Op Op.Resp Unit) r form n m, kind r form →
      n < MAX_FAILED_ATTEMPTS → m < MAX_IP_FAILED_ATTEMPTS → kc.entry = idCount form n →
      kq.entry = ipCount r m → ∃ e, (e = kc ∨ e = kq) ∧ ∀ ch w w',
        exec K ch e.op w = some (e.resp, w') → w.countFailures FAILED_ATTEMPT_WINDOW_SECS counted < limit)
    {ps : List Log} (hd : ps.Nodup)
    (hps : ∀ p ∈ ps, ∃ r form, kind r form ∧ Standing c₁ c r form p) : ps.length ≤ limit := by
  by_cases hempty : ps = []
  · rw [hempty]
    exact Nat.zero_le _
  · have hall := h₁.trans h
    obtain ⟨p₀, hp₀, hmax⟩ := exists_longest hempty
    obtain ⟨before, behind, rfl⟩ := List.append_of_mem hp₀
    obtain ⟨hnot, hrest⟩ := List.nodup_middle.mp hd |> List.nodup_cons.mp
    obtain ⟨r₀, form₀, hkind₀, ⟨k₀, l₀, q₀, rfl, hk₀, hw₀, ht₀⟩, -, -⟩ := hps p₀ hp₀
    obtain ⟨kc, lc, kq, lq, n, m, hn, hm, hq, hc, hci, hqi, hce, hqe, hch, -⟩ :=
      checks_logged h₀ hall hk₀ hw₀ ht₀
    have hcl : kc :: lc <:+ l₀ := hc.trans ((List.suffix_cons kq lq).trans hq)
    have hin : l₀ <:+ c.log := (List.suffix_cons k₀ l₀).trans hk₀
    have hothers : ∀ p ∈ before ++ behind, ∃ r form, Standing c₁ c r form p ∧
        (∀ t, counted (wrongPassword r form t) = true) ∧ ∃ kr lr t, kr :: lr <:+ lc ∧ p <:+ lr ∧
          kr.thread = placeThread p ∧
          kr.entry = ⟨.recordLoginAttempt (wrongPassword r form t), .ok ()⟩ ∧ c₁.state.now ≤ t := by
      intro p hp
      have hmem : p ∈ before ++ (k₀ :: l₀) :: behind := by
        rcases List.mem_append.mp hp with hp | hp
        · exact List.mem_append_left _ hp
        · exact List.mem_append_right _ (.tail _ hp)
      obtain ⟨r, form, hkind, hst⟩ := hps p hmem
      have hst' := hst
      obtain ⟨⟨k, l, q, rfl, hk, hw, ht⟩, hnew, -⟩ := hst'
      have hlt : k :: l <:+ l₀ := by
        rcases ordered hk hk₀ with ⟨rfl, rfl⟩ | hs | hs
        · exact absurd hp hnot
        · exact hs
        · have hle := hmax _ hmem
          have hgt := hs.length_le
          simp only [List.length_cons] at hle hgt
          omega
      obtain ⟨hlc, c₂, h₂, h₃, rfl, hfin⟩ := done_first h₀ hall hk hw ht hk₀ hw₀ ht₀
        (hakin r form r₀ form₀ hkind hkind₀) hlt hcl hci hce (hci ▸ hch)
      obtain ⟨kr, lr, t, hr, hkr, hri, hre, hle⟩ := written_down h₀ h₁ h h₂ h₃ hlc hnew hw ht hfin
      exact ⟨r, form, hst, fun t => hcounted r form t hkind, kr, lr, t, hr, hkr, hri, hre, hle⟩
    have hlen : (before ++ behind).length < limit := by
      by_cases hnone : before ++ behind = []
      · rw [hnone]
        exact hpos
      · obtain ⟨p, hp⟩ := List.exists_mem_of_ne_nil _ hnone
        obtain ⟨r, form, ⟨-, hnew, -⟩, -, kr, lr, t, hr, hpr, -⟩ := hothers p hp
        have hplc : p <:+ lc := hpr.trans ((List.suffix_cons kr lr).trans hr)
        obtain ⟨e, he, hbound⟩ := hlook kc kq r₀ form₀ n m hkind₀ hn hm hce hqe
        obtain ⟨le, hel, hei, hlce⟩ : ∃ le, e :: le <:+ l₀ ∧ e.thread = k₀.thread ∧ lc <:+ le := by
          rcases he with rfl | rfl
          · exact ⟨lc, hcl, hci, List.suffix_rfl⟩
          · exact ⟨lq, hq, hqi, (List.suffix_cons kc lc).trans hc⟩
        obtain ⟨c₂, c₃, ch, h₂, h₃, -, rfl, -, hdone⟩ := call_alone h (hel.trans hin)
          (fun hs => hnew (hplc.trans (hlce.trans ((List.suffix_cons e _).trans hs)))) (hei ▸ ht₀)
        exact (tried_rows h₀ h₁ h hrest hothers h₂ h₃ hlce hnow).trans_lt (hbound ch _ _ hdone)
    simp only [List.length_append, List.length_cons] at hlen ⊢
    omega

end Runs

def fromIp (K : Site) (ip : String) (a : LoginAttempt) : Bool :=
  byBackend (a.ipAddress = some ip : Bool) (a.ipAddress = some ip && !isMailRequest a) K.backend

/-- In a minute at most five wrong passwords are tried with one address and at most twenty from one
client, not counting those that a success with their address has followed. -/
theorem logins_limited {K : Site} {c₀ c₁ c : AccountConfig} (h₀ : Fresh c₀)
    (h₁ : (dashboard K).Reaches OneByOne c₀ c₁) (h : (dashboard K).Reaches OneByOne c₁ c)
    (hnow : c.state.now ≤ c₁.state.now + FAILED_ATTEMPT_WINDOW_SECS) {ps : List Log} (hd : ps.Nodup) :
    (∀ email, (∀ p ∈ ps, ∃ r form, form.email = email ∧ Standing c₁ c r form p) →
      ps.length ≤ MAX_FAILED_ATTEMPTS) ∧
    ∀ ip, (∀ p ∈ ps, ∃ (r : Request) (form : LoginForm), r.ip = ip ∧ Standing c₁ c r form p) →
      ps.length ≤ MAX_IP_FAILED_ATTEMPTS := by
  constructor
  · intro email hps
    apply wrong_bounded h₀ h₁ h hnow (fun a => a.identifier = email) (by decide) ?_ ?_ ?_ hd hps
    · exact fun r form r' form' he he' => .inl (he.trans he'.symm)
    · exact fun r form t he => decide_eq_true he
    · intro kc kq r form n m he hn hm hc hq
      refine ⟨kc, .inl rfl, fun ch w w' hx => ?_⟩
      have hexec : exec K ch kc.entry.op w = some (kc.entry.resp, w') := hx
      rw [hc] at hexec
      rcases attempt_cases (Option.some.inj hexec) with ⟨e, -, he', -⟩ | ⟨-, hx⟩
      · cases he'
      · have hcount := Except.ok.inj (Prod.mk.inj hx).1
        rw [he] at hcount
        exact (show w.countFailures FAILED_ATTEMPT_WINDOW_SECS _ = n from hcount) ▸ hn
  · intro ip hps
    apply wrong_bounded h₀ h₁ h hnow (fromIp K ip) (by decide) ?_ ?_ ?_ hd hps
    · exact fun r form r' form' he he' => .inr (he.trans he'.symm)
    · intro r form t he
      subst he
      unfold fromIp
      cases K.backend <;> simp [byBackend, wrongPassword, isMailRequest]
    · intro kc kq r form n m he hn hm hc hq
      refine ⟨kq, .inr rfl, fun ch w w' hx => ?_⟩
      have hexec : exec K ch kq.entry.op w = some (kq.entry.resp, w') := hx
      rw [hq] at hexec
      rcases attempt_cases (Option.some.inj hexec) with ⟨e, -, he', -⟩ | ⟨-, hx⟩
      · cases he'
      · have hcount := Except.ok.inj (Prod.mk.inj hx).1
        rw [he] at hcount
        unfold fromIp
        cases hb : K.backend with
        | mem =>
          rw [hb] at hcount
          exact (show w.countFailures FAILED_ATTEMPT_WINDOW_SECS _ = m from hcount) ▸ hm
        | pg =>
          rw [hb] at hcount
          exact (show w.countFailures FAILED_ATTEMPT_WINDOW_SECS _ = m from hcount) ▸ hm

section Example

def guess (ip : String) : Activity :=
  .login (from_ ip) { email := "ann@fleet.dev", password := "guess", csrfToken := "x" }

/-- A wrong password for that address. -/
def tries (c : AccountConfig) (email : String) (k : Interleaving.Call Op Op.Resp Unit) : Bool :=
  match k.entry, c.threads[k.thread]? with
  | ⟨.verifyPassword _ _, false⟩, some ⟨_, .login _ form, _⟩ => form.email = email
  | _, _ => false

/-- Six logins that have all checked before any of them writes a failure down. -/
def guessesRun : List AccountAction :=
  List.replicate 6 (.start () (guess "10.0.0.9")) ++ (List.range 6).flatMap fun i => calls i 4

def guessesConfig : AccountConfig := (dashboard plainSite).after (started annWorld) guessesRun

theorem six_guesses : (dashboard plainSite).Reaches always (started annWorld) guessesConfig ∧
    guessesConfig.state.now = (started annWorld).state.now ∧
    MAX_FAILED_ATTEMPTS < guessesConfig.log.countP (tries guessesConfig "ann@fleet.dev") ∧
    ∀ k ∈ guessesConfig.log, k.op.clears = false := by
  refine ⟨after_reaches guessesRun, ?_, ?_, ?_⟩
  · decide +kernel
  · decide +kernel
  · decide +kernel

def isLogin : Activity → Bool
  | .login _ _ => true
  | _ => false

def returnedAt (c : AccountConfig) (j : ℕ) : Bool :=
  match c.threads[j]? with
  | some ⟨_, _, .ret _⟩ => true
  | _ => false

def oneByOne (c : AccountConfig) : AccountAction → Bool
  | .run i ch => match c.next i with
    | some (.countRecentFailedAttempts _ _) =>
      (List.range c.threads.length).all fun j => (history c.log j).isEmpty || returnedAt c j
    | some (.recordLoginAttempt _) => ch.fault.isNone
    | some (.clearLoginAttempts _) => c.threads[i]?.all fun t => isLogin t.act
    | _ => true
  | .start _ _ => true
  | .env _ => false

theorem oneByOne_of {c : AccountConfig} {x : AccountAction} (h : oneByOne c x = true) :
    OneByOne c x := by
  cases x with
  | start p a => trivial
  | env e => cases h
  | run i ch =>
    intro op hn t ht
    simp only [oneByOne, hn] at h
    cases op with
    | countRecentFailedAttempts x window =>
      rintro r form - j r' form' ⟨⟨q, hq⟩, hbegun, hopen⟩
      have hj := List.all_eq_true.mp h j (List.mem_range.mpr (List.getElem?_eq_some_iff.mp hq).1)
      rcases Bool.or_eq_true_iff.mp hj with hj | hj
      · exact absurd (List.isEmpty_iff.mp hj) hbegun
      · unfold returnedAt at hj
        split at hj
        · next p a out hret => exact absurd ⟨p, a, out, hret⟩ hopen
        · cases hj
    | recordLoginAttempt a => exact fun _ => by simpa using h
    | clearLoginAttempts x =>
      rw [ht, Option.all_some] at h
      obtain ⟨p, a, q⟩ := t
      cases a with
      | login r form => exact .inl ⟨r, form, rfl⟩
      | _ => cases h
    | _ => trivial

/-- One guess after the other, and then the right password. -/
def orderedRun : List AccountAction :=
  .start () (guess "10.0.0.9") :: calls 0 6 ++ .start () (guess "10.0.0.8") :: calls 1 6 ++
    .start () annLogin :: calls 2 16 { token := "a", uuid := 1 }

theorem two_guesses : ∃ c : AccountConfig, c.log.countP (tries c "ann@fleet.dev") = 2 ∧
    replyOf c 2 = some (.redirect "/") ∧ ∀ ps : List Log, ps.Nodup →
      (∀ email, (∀ p ∈ ps, ∃ r form, form.email = email ∧ Standing (started annWorld) c r form p) →
        ps.length ≤ MAX_FAILED_ATTEMPTS) ∧
      ∀ ip, (∀ p ∈ ps, ∃ (r : Request) (form : LoginForm), r.ip = ip ∧
        Standing (started annWorld) c r form p) → ps.length ≤ MAX_IP_FAILED_ATTEMPTS := by
  have hrun : (((dashboard plainSite).replayWhile oneByOne (started annWorld) orderedRun).map fun c =>
      (c.log.countP (tries c "ann@fleet.dev"), replyOf c 2, c.state.now)) =
        some (2, some (.redirect "/"), 0) := by
    decide +kernel
  obtain ⟨c, hc, hfacts⟩ := Option.map_eq_some_iff.mp hrun
  simp only [Prod.mk.injEq] at hfacts
  refine ⟨c, hfacts.1, hfacts.2.1, fun ps hd => ?_⟩
  have hreach := (replayWhile_reaches hc).mono fun c x => oneByOne_of
  refine logins_limited (started_fresh annWorld) .refl hreach ?_ hd
  rw [hfacts.2.2]
  decide

end Example

end FleetOrchestrator.Accounts
