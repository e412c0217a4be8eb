import FleetOrchestrator.Encoding.Toml

/-! Strings that are put between quotes as they are. A document weighs as much as its shortest text,
so that a reading of such a string as itself leaves no room for any other spelling of it. -/

namespace FleetOrchestrator.Encoding.Toml

def documentSize (ss : List Statement) : ℕ := (ss.map Statement.size).sum

def Plain (s : List Char) : Prop := ∀ c ∈ s, isPlain c = true

/-- A pair of an inline table as it is rendered. -/
def pairText (p : List Char × List Char) : List Char :=
  p.1 ++ ' ' :: '=' :: ' ' :: quoted p.2

def inlineTable (pairs : List (List Char × List Char)) : List Char :=
  '{' :: ' ' :: ([',', ' '].intercalate (pairs.map pairText) ++ [' ', '}'])

def pairEntry (p : List Char × List Char) : Path × Scalar := ([p.1], .string p.2)

/-- What stands behind a pair, on the line and behind it. -/
def behindPair (r : List Char) : List (List Char × List Char) → List Char
  | [] => ' ' :: '}' :: '\n' :: r
  | p :: ps => ',' :: ' ' :: (pairText p ++ behindPair r ps)

section Weights

variable {k s r : List Char} {n : ℕ}

theorem heavy_light {c : Char} (h : isHeavy c = false) (t : List Char) : heavy (c :: t) = heavy t :=
  List.countP_cons_of_neg (by rw [h]; exact Bool.false_ne_true)

theorem heavy_quoted (s r : List Char) : heavy (quoted s ++ r) = heavy s + 2 + heavy r := by
  have hq : isHeavy '"' = true := by decide
  rw [quoted_append, heavy_cons hq, heavy_append, heavy_cons hq]
  omega

theorem heavy_setting (k vt r : List Char) :
    heavy (setting k vt r) = heavy k + 1 + heavy vt + heavy r := by
  rw [setting, heavy_append, heavy_light (by decide), heavy_cons (by decide),
    heavy_light (by decide), heavy_append, heavy_light (by decide)]
  omega

theorem heavy_toDigits (n : ℕ) : heavy (Nat.toDigits 10 n) = 0 := by
  rw [heavy, List.countP_eq_zero]
  intro c hc
  have hd : c.isDigit = true := Nat.isDigit_of_mem_toDigits (by omega) (by omega) hc
  simp [isHeavy, hd]

theorem heavy_pairText (p : List Char × List Char) (r : List Char) :
    heavy (pairText p ++ r) = heavy p.1 + heavy p.2 + 3 + heavy r := by
  rw [pairText, List.append_assoc, heavy_append, List.cons_append, List.cons_append,
    List.cons_append, heavy_light (by decide), heavy_cons (by decide), heavy_light (by decide),
    heavy_quoted]
  omega

theorem pairSize_pairEntry (p : List Char × List Char) :
    pairSize (pairEntry p) = heavy p.1 + heavy p.2 + 4 := by
  simp only [pairEntry, pairSize, pathSize, Scalar.size, List.map_cons, List.map_nil,
    List.sum_cons, List.sum_nil, List.length_cons, List.length_nil]
  omega

theorem heavy_behindPair (r : List Char) (ps : List (List Char × List Char)) :
    heavy (behindPair r ps) = ((ps.map pairEntry).map pairSize).sum + 1 + heavy r := by
  induction ps with
  | nil =>
    rw [behindPair, heavy_light (by decide), heavy_cons (by decide), heavy_light (by decide)]
    simp only [List.map_nil, List.sum_nil]
    omega
  | cons p ps ih =>
    rw [behindPair, heavy_cons (by decide), heavy_light (by decide), heavy_pairText, ih,
      List.map_cons, List.map_cons, List.sum_cons, pairSize_pairEntry]
    omega

theorem inlineTable_append (p : List Char × List Char) (ps : List (List Char × List Char))
    (r : List Char) :
    inlineTable (p :: ps) ++ '\n' :: r = '{' :: ' ' :: (pairText p ++ behindPair r ps) := by
  have hjoin : [',', ' '].intercalate ((p :: ps).map pairText) ++ (' ' :: '}' :: '\n' :: r) =
      pairText p ++ behindPair r ps := by
    induction ps generalizing p with
    | nil => rw [List.map_singleton, List.intercalate_singleton, behindPair]
    | cons q ps ih =>
      rw [List.map_cons, List.map_cons, List.intercalate_cons_cons, ← List.map_cons,
        List.append_assoc, List.append_assoc, ih q]
      rfl
  rw [inlineTable, ← hjoin]
  simp only [List.cons_append, List.append_assoc, List.nil_append]

end Weights

section Strings

variable {k s r t u : List Char} {p : List Char × List Char} {ps : List (List Char × List Char)}
  {ss : List Statement}

theorem string_of_scalar (h : scalar t = some (.string s, r)) : string t = some (s, r) := by
  unfold scalar at h
  split at h
  next s' r' hs =>
    cases h
    exact hs
  next =>
    obtain ⟨⟨n, r'⟩, -, h⟩ := Option.map_eq_some_iff.mp h
    cases h

theorem string_plain_append (hs : Plain s) (hr : r.head? ≠ some '"') :
    string (quoted s ++ r) = some (s, r) := by
  rw [quoted_append]
  exact string_plain hs hr

/-- A string that comes back from between its quotes is plain, unless three quotes end it behind
its line. -/
theorem string_quoted (h : string (quoted s ++ '\n' :: r) = some (s, u)) :
    (Plain s ∧ u = '\n' :: r) ∨ ∃ z, r = z ++ '"' :: '"' :: '"' :: u := by
  rw [quoted_append] at h
  rcases string_cases h with ⟨raw, ht, hn, ⟨rfl, hs⟩ | ⟨hlen, -⟩⟩ | ⟨w, hw, body, rfl, hlen, -⟩
  · have hu := List.append_cancel_left ht
    exact .inl ⟨hs, (List.cons.inj hu).2.symm⟩
  · have hle := length_le_of_newline (x := s ++ ['"']) (y := r) (p := raw ++ ['"']) (q := u)
      (by simpa using ht) (by simpa using hn)
    simp only [List.length_append, List.length_cons, List.length_nil] at hle
    omega
  · have hsplit : (s ++ ['"', '\n']) ++ r = ('"' :: '"' :: body) ++ '"' :: '"' :: '"' :: u := by
      simpa using hw
    rcases List.append_eq_append_iff.mp hsplit with ⟨z, -, hr⟩ | ⟨z, hz, hr⟩
    · exact .inr ⟨z, hr⟩
    · have hlen' := congrArg List.length hz
      simp only [List.length_append, List.length_cons, List.length_nil] at hlen'
      obtain rfl : z = [] := List.eq_nil_of_length_eq_zero (by omega)
      exact .inr ⟨[], hr.symm⟩

/-- If what follows weighs no less than it should, the string is plain. -/
theorem string_tight (h : string (quoted s ++ r) = some (s, u)) (hw : heavy r ≤ heavy u) :
    Plain s ∧ u = r := by
  have hq : isHeavy '"' = true := by decide
  rw [quoted_append] at h
  rcases string_cases h with ⟨raw, ht, -, ⟨rfl, hs⟩ | ⟨-, hless⟩⟩ | ⟨w, hw', hclose⟩
  · have hu := List.append_cancel_left ht
    exact ⟨hs, (List.cons.inj hu).2.symm⟩
  · have hweight := congrArg heavy ht
    rw [heavy_append, heavy_append, heavy_cons hq, heavy_cons hq] at hweight
    omega
  · have hweight := congrArg heavy hw'
    have hle := hclose.heavy_le hq
    rw [heavy_append, heavy_cons hq, heavy_cons hq, heavy_cons hq] at hweight
    omega

/-- Three quotes in a row are behind what holds none. -/
theorem behind_plain {z : List Char} (hs : '"' ∉ s) (h : s ++ t = z ++ '"' :: '"' :: '"' :: u) :
    ∃ z', t = z' ++ '"' :: '"' :: '"' :: u := by
  rcases List.append_eq_append_iff.mp h with ⟨a, -, ha⟩ | ⟨a, rfl, ha⟩
  · exact ⟨a, ha⟩
  · cases a with
    | nil => exact ⟨[], ha.symm⟩
    | cons d a =>
      obtain rfl : '"' = d := (List.cons.inj ha).1
      exact absurd (List.mem_append_right z List.mem_cons_self) hs

/-- They are not where a single one is. -/
theorem behind_quote {c : Char} {z : List Char} (hs : '"' ∉ s) (hc : c ≠ '"')
    (h : s ++ '"' :: c :: t = z ++ '"' :: '"' :: '"' :: u) :
    ∃ z', c :: t = z' ++ '"' :: '"' :: '"' :: u := by
  obtain ⟨z', hz⟩ := behind_plain hs h
  cases z' with
  | nil => exact absurd (List.cons.inj (List.cons.inj hz).2).1 hc
  | cons d z' => exact ⟨z', (List.cons.inj hz).2⟩

theorem quote_of_bare (h : ∀ c ∈ s, isBare c = true) : '"' ∉ s :=
  fun hq => absurd (h _ hq) (by decide)

theorem quote_of_plain (h : Plain s) : '"' ∉ s := fun hq => absurd (h _ hq) (by decide)

theorem range_of_isBare {c : Char} (h : isBare c = true) : 0x20 < c.toNat ∧ c.toNat < 0x7F := by
  have halpha : c.isAlpha = (decide ('A'.val ≤ c.val ∧ c.val ≤ 'Z'.val) ||
      decide ('a'.val ≤ c.val) && decide (c.val ≤ 'z'.val)) := rfl
  simp only [isBare, Char.isAlphanum, halpha, Bool.or_eq_true, decide_eq_true_eq, Char.isDigit,
    Bool.and_eq_true, ge_iff_le, UInt32.le_iff_toNat_le] at h
  rcases h with (((h | h) | h) | rfl) | rfl
  · have hupper : 65 ≤ c.toNat ∧ c.toNat ≤ 90 := h
    omega
  · have hlower : 97 ≤ c.toNat ∧ c.toNat ≤ 122 := h
    omega
  · have hdigit : 48 ≤ c.toNat ∧ c.toNat ≤ 57 := h
    omega
  · decide
  · decide

theorem isPlain_of_isBare {c : Char} (h : isBare c = true) : isPlain c = true := by
  have hq : c ≠ '"' := by
    rintro rfl
    cases h
  have hs : c ≠ '\\' := by
    rintro rfl
    cases h
  have hrange := range_of_isBare h
  have hc : isControl c = false := by
    simp only [isControl, Bool.and_eq_false_iff, Bool.or_eq_false_iff, decide_eq_false_iff_not]
    exact .inr ⟨by omega, by omega⟩
  simp [isPlain, hc, hq, hs]

theorem BareKey.plain (h : BareKey s) : Plain s := fun c hc => isPlain_of_isBare (h.2 c hc)

theorem behind_number {z : List Char} (hk : BareKey k) (n : ℕ)
    (h : setting k (Nat.toDigits 10 n) r = z ++ '"' :: '"' :: '"' :: u) :
    ∃ z', r = z' ++ '"' :: '"' :: '"' :: u := by
  have hdigit : '"' ∉ Nat.toDigits 10 n := fun hq =>
    absurd (Nat.isDigit_of_mem_toDigits (by omega) (by omega) hq) (by decide)
  have hline : setting k (Nat.toDigits 10 n) r =
      (k ++ ' ' :: '=' :: ' ' :: (Nat.toDigits 10 n ++ ['\n'])) ++ r := by simp [setting]
  rw [hline] at h
  exact behind_plain (by simp [quote_of_bare hk.2, hdigit]) h

theorem behind_string {z w : List Char} (hk : BareKey k) (hs : Plain s) (hne : s ≠ [])
    (hw : '"' ∉ w) (h : setting k (quoted s ++ w) r = z ++ '"' :: '"' :: '"' :: u) :
    ∃ z', r = z' ++ '"' :: '"' :: '"' :: u := by
  have hline : setting k (quoted s ++ w) r =
      (k ++ [' ', '=', ' ']) ++ '"' :: (s ++ '"' :: ((w ++ ['\n']) ++ r)) := by
    simp [setting, quoted]
  have hkey : '"' ∉ k ++ [' ', '=', ' '] := by simp [quote_of_bare hk.2]
  rw [hline] at h
  obtain ⟨c, cs, rfl⟩ := List.exists_cons_of_ne_nil hne
  obtain ⟨hc, -⟩ := List.forall_mem_cons.mp hs
  obtain ⟨z₁, h₁⟩ := behind_quote hkey (by rintro rfl; cases hc) h
  have hend : '"' ∉ w ++ ['\n'] := by simp [hw]
  obtain ⟨d, w', hd⟩ := List.exists_cons_of_ne_nil (List.append_ne_nil_of_right_ne_nil w
    (List.cons_ne_nil '\n' []))
  rw [hd] at h₁ hend
  have hquote : d ≠ '"' := by
    rintro rfl
    exact hend List.mem_cons_self
  obtain ⟨z₂, h₂⟩ := behind_quote (quote_of_plain hs) hquote h₁
  exact behind_plain hend h₂

theorem reads_plain (hk : BareKey k) (hs : Plain s) :
    Reads (setting k (quoted s) r) (.entry [k] (.scalar (.string s)) :: ss) ↔ Reads r ss := by
  have hv := string_plain_append (r := '\n' :: r) hs (by simp)
  rw [Reads.behind_iff (setting_line hk (.scalar (scalar_string hv)) rfl), and_iff_right rfl]

/-- A string between quotes is read back exactly where it is plain, if no three quotes behind it
leave enough of the text. -/
theorem reads_quoted (hk : BareKey k)
    (hr : ∀ z u, r = z ++ '"' :: '"' :: '"' :: u → heavy u < documentSize ss) :
    Reads (setting k (quoted s) r) (.entry [k] (.scalar (.string s)) :: ss) ↔
      Plain s ∧ Reads r ss := by
  constructor
  · intro h
    obtain ⟨v, u, r', he, hv, hend, hread⟩ := h.of_setting hk rfl
    cases he
    cases hv with
    | scalar hv =>
      rcases string_quoted (string_of_scalar hv) with ⟨hs, rfl⟩ | ⟨z, hz⟩
      · cases hend
        exact ⟨hs, hread⟩
      · have hless := hr z u hz
        have hsize := hread.size
        have hle := heavy_lineEnd hend
        rw [documentSize] at hless
        omega
  · rintro ⟨hs, h⟩
    exact (reads_plain hk hs).mpr h

theorem reads_quoted_tight (hk : BareKey k) (hr : heavy r ≤ documentSize ss) :
    Reads (setting k (quoted s) r) (.entry [k] (.scalar (.string s)) :: ss) ↔
      Plain s ∧ Reads r ss := by
  apply reads_quoted hk
  rintro z u rfl
  have hq : isHeavy '"' = true := by decide
  rw [heavy_append, heavy_cons hq, heavy_cons hq, heavy_cons hq] at hr
  omega

theorem reads_commented {c : List Char} (hk : BareKey k) (hs : Plain s)
    (hc : ∀ x ∈ c, isControl x = false) :
    Reads (setting k (quoted s ++ ' ' :: '#' :: c) r) (.entry [k] (.scalar (.string s)) :: ss) ↔
      Reads r ss := by
  have htext : (quoted s ++ ' ' :: '#' :: c) ++ '\n' :: r =
      quoted s ++ ' ' :: '#' :: (c ++ '\n' :: r) := by simp
  have hv := string_plain_append (r := ' ' :: '#' :: (c ++ '\n' :: r)) hs (by simp)
  have hval : Val (skip (' ' :: ((quoted s ++ ' ' :: '#' :: c) ++ '\n' :: r))) (.scalar (.string s))
      (' ' :: '#' :: (c ++ '\n' :: r)) := by
    rw [htext]
    exact .scalar (scalar_string hv)
  have hl : Line (setting k (quoted s ++ ' ' :: '#' :: c) r)
      (some (.entry [k] (.scalar (.string s)))) r :=
    .entry (setting_key hk _ r) rfl hval (comment_append hc r)
  rw [Reads.behind_iff hl, and_iff_right rfl]

end Strings

section Tables

variable {k r u : List Char} {p : List Char × List Char} {ps : List (List Char × List Char)}
  {ss : List Statement}

/-- A pair that comes back, with no more of the text than it should, has a bare key and a plain
value. -/
theorem Pair.tight (h : Pair (skip (pairText p ++ r)) [p.1] (.string p.2) u)
    (hw : heavy r ≤ heavy u) : BareKey p.1 ∧ Plain p.2 ∧ u = r := by
  obtain ⟨hk, he, hv⟩ := h
  rename_i r₁ u₁
  have hskip := heavy_skip (pairText p ++ r)
  rw [heavy_pairText] at hskip
  cases hk with
  | dot _ _ hk => exact absurd rfl hk.ne_nil
  | last hk =>
    rcases simpleKey_cases hk with ⟨ht, hne, hbare⟩ | ⟨q, raw, hq, ht, -, -, hle⟩
    · have hkey : BareKey p.1 := ⟨hne, hbare⟩
      rw [pairText, List.append_assoc, skip_bare hkey] at ht
      obtain rfl := List.append_cancel_left ht
      obtain rfl := (List.cons.inj he).2
      exact ⟨hkey, string_tight (string_of_scalar hv) hw⟩
    · have hheavy : isHeavy q = true := by rcases hq with rfl | rfl <;> decide
      have heq := heavy_skip_cons (by decide) he
      have hsize := scalar_size hv
      have hgap := heavy_skip u₁
      rw [ht, heavy_cons hheavy, heavy_append, heavy_cons hheavy] at hskip
      rw [Scalar.size] at hsize
      omega

theorem Pair.of_plain (hk : BareKey p.1) (hp : Plain p.2) (hr : r.head? ≠ some '"') :
    Pair (skip (pairText p ++ r)) [p.1] (.string p.2) r := by
  have htext : pairText p ++ r = p.1 ++ ' ' :: '=' :: ' ' :: (quoted p.2 ++ r) := by
    simp [pairText]
  rw [htext, skip_bare hk]
  have hdot : (skip (' ' :: '=' :: ' ' :: (quoted p.2 ++ r))).head? ≠ some '.' := by
    intro hdot
    cases hdot
  refine .mk (Key.bare hk.2 hk.1 rfl hdot) rfl ?_
  exact scalar_string (string_plain_append hp hr)

theorem Pairs.tight (h : Pairs (skip (pairText p ++ behindPair r ps)) ((p :: ps).map pairEntry) u)
    (hw : heavy r ≤ heavy u) : (∀ q ∈ p :: ps, BareKey q.1 ∧ Plain q.2) ∧ u = '\n' :: r := by
  have hbehind := heavy_behindPair r ps
  induction ps generalizing p with
  | nil =>
    cases h with
    | comma _ _ hp => cases hp
    | last hp hc =>
      have hbrace := heavy_skip_cons (by decide) hc
      have hnil : ((([] : List (List Char × List Char)).map pairEntry).map pairSize).sum = 0 := rfl
      obtain ⟨hk, hv, rfl⟩ := hp.tight (by omega)
      cases hc
      exact ⟨by simpa using ⟨hk, hv⟩, rfl⟩
  | cons q ps ih =>
    cases h with
    | @comma _ _ u₁ _ _ _ _ hp hc hps =>
      have hcomma := heavy_skip_cons (by decide) hc
      have hsize := hps.size
      have hgap := heavy_skip u₁
      obtain ⟨hk, hv, rfl⟩ := hp.tight (by omega)
      cases hc
      obtain ⟨hall, rfl⟩ := ih hps (heavy_behindPair r ps)
      exact ⟨List.forall_mem_cons.mpr ⟨⟨hk, hv⟩, hall⟩, rfl⟩

theorem Pairs.of_plain (h : ∀ q ∈ p :: ps, BareKey q.1 ∧ Plain q.2) :
    Pairs (skip (pairText p ++ behindPair r ps)) ((p :: ps).map pairEntry) ('\n' :: r) := by
  induction ps generalizing p with
  | nil =>
    obtain ⟨⟨hk, hv⟩, -⟩ := List.forall_mem_cons.mp h
    exact .last (Pair.of_plain hk hv (by simp [behindPair])) rfl
  | cons q ps ih =>
    obtain ⟨⟨hk, hv⟩, hps⟩ := List.forall_mem_cons.mp h
    exact .comma (Pair.of_plain hk hv (by simp [behindPair])) rfl (ih hps)

/-- An inline table is read back exactly where its keys are bare and its values plain. -/
theorem reads_table (hk : BareKey k) (hr : heavy r ≤ documentSize ss) :
    Reads (setting k (inlineTable (p :: ps)) r)
        (.entry [k] (.table ((p :: ps).map pairEntry)) :: ss) ↔
      (∀ q ∈ p :: ps, BareKey q.1 ∧ Plain q.2) ∧ Reads r ss := by
  have hskip : skip (inlineTable (p :: ps) ++ '\n' :: r) = inlineTable (p :: ps) ++ '\n' :: r := rfl
  constructor
  · intro h
    obtain ⟨v, u, r', he, hv, hend, hread⟩ := h.of_setting hk hskip
    cases he
    rw [inlineTable_append] at hv
    cases hv with
    | table hps =>
      have hsize := hread.size
      have hle := heavy_lineEnd hend
      rw [documentSize] at hr
      obtain ⟨hall, rfl⟩ := Pairs.tight hps (by omega)
      cases hend
      exact ⟨hall, hread⟩
  · rintro ⟨hall, h⟩
    have hval : Val (inlineTable (p :: ps) ++ '\n' :: r) (.table ((p :: ps).map pairEntry))
        ('\n' :: r) := by
      rw [inlineTable_append]
      exact .table (Pairs.of_plain hall)
    exact .line (setting_line hk hval hskip) h

end Tables

end FleetOrchestrator.Encoding.Toml
