import FleetOrchestrator.Encoding.TomlStrings
import Mathlib.Data.List.TakeWhile
import Mathlib.Data.Int.Notation
import Mathlib.Tactic.IntervalCases

/-! TOML documents, read line by line; a document that holds other values than strings, integers and
inline tables of these is not read. -/

namespace FleetOrchestrator.Encoding.Toml

abbrev Path : Type := List (List Char)

inductive Scalar where
  | string (s : List Char)
  | integer (n : ℤ)
  deriving DecidableEq

inductive Value where
  | scalar (v : Scalar)
  | table (pairs : List (Path × Scalar))
  deriving DecidableEq

inductive Statement where
  | header (path : Path)
  | arrayHeader (path : Path)
  | entry (path : Path) (value : Value)
  deriving DecidableEq

def skip (t : List Char) : List Char := t.dropWhile isBlank

def simpleKey : List Char → Option (List Char × List Char)
  | '"' :: t => basic t
  | '\'' :: t => literal t
  | t =>
    if (t.takeWhile isBare).isEmpty then none else some (t.takeWhile isBare, t.dropWhile isBare)

def isDigitIn (base : ℕ) (c : Char) : Bool := (hexDigit c).any (· < base)

/-- Digits with single underscores between them, as many as there are, and their number. -/
def digits (base : ℕ) (t : List Char) : Option (List Char × List Char) :=
  let run := t.takeWhile fun c => isDigitIn base c || c = '_'
  if (run.splitOn '_').all (· ≠ []) then
    some (run.filter (· ≠ '_'), t.dropWhile fun c => isDigitIn base c || c = '_')
  else none

def number (base : ℕ) (ds : List Char) : ℕ :=
  (ds.filterMap hexDigit).foldl (fun n d => base * n + d) 0

def decimal (t : List Char) : Option (ℕ × List Char) :=
  (digits 10 t).bind fun (ds, r) =>
    if ds.head? = some '0' ∧ ds.length ≠ 1 then none else some (number 10 ds, r)

def radix : Char → Option ℕ
  | 'x' => some 16
  | 'o' => some 8
  | 'b' => some 2
  | _ => none

def signed (sign : ℤ) (read : Option (ℕ × List Char)) : Option (ℤ × List Char) :=
  read.map fun p => (sign * p.1, p.2)

def integer : List Char → Option (ℤ × List Char)
  | '+' :: t => signed 1 (decimal t)
  | '-' :: t => signed (-1) (decimal t)
  | '0' :: c :: t =>
    match radix c with
    | some base => signed 1 ((digits base t).map fun p => (number base p.1, p.2))
    | none => signed 1 (decimal ('0' :: c :: t))
  | t => signed 1 (decimal t)

def scalar (t : List Char) : Option (Scalar × List Char) :=
  match string t with
  | some (s, r) => some (.string s, r)
  | none => (integer t).map fun (n, r) => (.integer n, r)

/-- What follows the end of a line, and of a comment in front of it. -/
def comment : List Char → Option (List Char)
  | [] => some []
  | '\n' :: t => some t
  | '\r' :: '\n' :: t => some t
  | c :: t => if isControl c then none else comment t

def lineEnd : List Char → Option (List Char)
  | [] => some []
  | '\n' :: t => some t
  | '\r' :: '\n' :: t => some t
  | '#' :: t => comment t
  | _ => none

/-- A key with its dots, and what follows it. -/
inductive Key : List Char → Path → List Char → Prop
  | last {t k r : List Char} (h : simpleKey t = some (k, r)) (hd : (skip r).head? ≠ some '.') :
      Key t [k] r
  | dot {t k r u : List Char} {p : Path} {r' : List Char} (h : simpleKey t = some (k, r))
      (hd : skip r = '.' :: u) (hk : Key (skip u) p r') : Key t (k :: p) r'

inductive Pair : List Char → Path → Scalar → List Char → Prop
  | mk {t r u r' : List Char} {p : Path} {v : Scalar} (hk : Key t p r) (he : skip r = '=' :: u)
      (hv : scalar (skip u) = some (v, r')) : Pair t p v r'

/-- The pairs of an inline table up to its closing brace. -/
inductive Pairs : List Char → List (Path × Scalar) → List Char → Prop
  | last {t r u : List Char} {p : Path} {v : Scalar} (h : Pair t p v r) (hc : skip r = '}' :: u) :
      Pairs t [(p, v)] u
  | comma {t r u u' : List Char} {p : Path} {v : Scalar} {ps : List (Path × Scalar)}
      (h : Pair t p v r) (hc : skip r = ',' :: u) (hp : Pairs (skip u) ps u') :
      Pairs t ((p, v) :: ps) u'

inductive Val : List Char → Value → List Char → Prop
  | scalar {t r : List Char} {v : Scalar} (h : scalar t = some (v, r)) : Val t (.scalar v) r
  | empty {t r : List Char} (h : skip t = '}' :: r) : Val ('{' :: t) (.table []) r
  | table {t r : List Char} {ps : List (Path × Scalar)} (h : Pairs (skip t) ps r) :
      Val ('{' :: t) (.table ps) r

/-- A line, or more of them if a string takes more, and what follows. -/
inductive Line : List Char → Option Statement → List Char → Prop
  | blank {t r : List Char} (h : lineEnd (skip t) = some r) : Line t none r
  | header {t u r u' r' : List Char} {p : Path} (ht : skip t = '[' :: u) (hk : Key (skip u) p r)
      (hc : skip r = ']' :: u') (he : lineEnd (skip u') = some r') : Line t (some (.header p)) r'
  | arrayHeader {t u r u' r' : List Char} {p : Path} (ht : skip t = '[' :: '[' :: u)
      (hk : Key (skip u) p r) (hc : skip r = ']' :: ']' :: u') (he : lineEnd (skip u') = some r') :
      Line t (some (.arrayHeader p)) r'
  | entry {t r u r' r'' : List Char} {p : Path} {v : Value} (hk : Key (skip t) p r)
      (hq : skip r = '=' :: u) (hv : Val (skip u) v r') (he : lineEnd (skip r') = some r'') :
      Line t (some (.entry p v)) r''

/-- The statements of a document. -/
inductive Reads : List Char → List Statement → Prop
  | nil : Reads [] []
  | line {t r : List Char} {s : Option Statement} {ss : List Statement} (hl : Line t s r)
      (h : Reads r ss) : Reads t (s.toList ++ ss)

section Heads

variable {t r k : List Char} {p : Path} {v : Scalar}

theorem simpleKey_bare (h : (t.takeWhile isBare) ≠ []) :
    simpleKey t = some (t.takeWhile isBare, t.dropWhile isBare) := by
  rw [simpleKey, if_neg (by simpa using h)]
  · rintro u rfl
    exact h rfl
  · rintro u rfl
    exact h rfl

/-- A key stands there itself, all of it bare, or in quotes on one line. -/
theorem simpleKey_cases (h : simpleKey t = some (k, r)) :
    (t = k ++ r ∧ k ≠ [] ∧ ∀ c ∈ k, isBare c = true) ∨
      ∃ q raw, (q = '"' ∨ q = '\'') ∧ t = q :: (raw ++ q :: r) ∧ '\n' ∉ raw ∧
        k.length ≤ raw.length ∧ heavy k ≤ heavy raw := by
  unfold simpleKey at h
  split at h
  · obtain ⟨raw, rfl, hn, hs⟩ := basic_raw h
    exact .inr ⟨'"', raw, .inl rfl, rfl, hn, hs.length_le, hs.heavy_le⟩
  · obtain ⟨rfl, hn⟩ := literal_raw h
    exact .inr ⟨'\'', k, .inr rfl, rfl, hn, Nat.le_refl _, Nat.le_refl _⟩
  · split at h
    · cases h
    next hne =>
      cases h
      refine .inl ⟨List.takeWhile_append_dropWhile.symm, by simpa using hne, ?_⟩
      intro c hc
      exact List.mem_takeWhile_imp hc

/-- The characters that a key begins with. -/
def opensKey (c : Char) : Bool := isBare c || c = '"' || c = '\''

theorem simpleKey_head (h : simpleKey t = some (k, r)) : t.head?.any opensKey = true := by
  rcases simpleKey_cases h with ⟨rfl, hne, hk⟩ | ⟨q, raw, rfl | rfl, rfl, -⟩
  · cases k with
    | nil => exact absurd rfl hne
    | cons c k =>
      have hc := hk c List.mem_cons_self
      simp [opensKey, hc]
  · rfl
  · rfl

theorem Key.head (h : Key t p r) : t.head?.any opensKey = true := by
  cases h with
  | last h => exact simpleKey_head h
  | dot h => exact simpleKey_head h

theorem Pair.head (h : Pair t p v r) : t.head?.any opensKey = true := by
  obtain ⟨hk, -, -⟩ := h
  exact hk.head

theorem lineEnd_head (h : lineEnd t = some r) :
    t.head?.all (['\n', '\r', '#'].contains ·) = true := by
  unfold lineEnd at h
  split at h
  · rfl
  · rfl
  · rfl
  · rfl
  · cases h

theorem lineEnd_not_key {u r' : List Char} (he : lineEnd u = some r') (hk : Key u p r) : False := by
  have hend := lineEnd_head he
  have hh := hk.head
  cases u with
  | nil => cases hh
  | cons c u =>
    have hc : c = '\n' ∨ c = '\r' ∨ c = '#' := by simpa using hend
    rcases hc with rfl | rfl | rfl <;> cases hh

theorem scalar_brace (t : List Char) : scalar ('{' :: t) = none := rfl

end Heads

section Determinism

variable {t r r' : List Char}

theorem Key.unique {p p' : Path} (h : Key t p r) (h' : Key t p' r') : p = p' ∧ r = r' := by
  induction h generalizing p' r' with
  | last hk hd =>
    cases h' with
    | last hk' hd' =>
      rw [hk] at hk'
      cases hk'
      exact ⟨rfl, rfl⟩
    | dot hk' hd' =>
      rw [hk] at hk'
      cases hk'
      rw [hd'] at hd
      exact absurd rfl hd
  | dot hk hd hp ih =>
    cases h' with
    | last hk' hd' =>
      rw [hk] at hk'
      cases hk'
      rw [hd] at hd'
      exact absurd rfl hd'
    | dot hk' hd' hp' =>
      rw [hk] at hk'
      cases hk'
      rw [hd] at hd'
      cases hd'
      obtain ⟨rfl, rfl⟩ := ih hp'
      exact ⟨rfl, rfl⟩

theorem Pair.unique {p p' : Path} {v v' : Scalar} (h : Pair t p v r) (h' : Pair t p' v' r') :
    p = p' ∧ v = v' ∧ r = r' := by
  obtain ⟨hk, he, hv⟩ := h
  obtain ⟨hk', he', hv'⟩ := h'
  obtain ⟨rfl, rfl⟩ := hk.unique hk'
  rw [he] at he'
  cases he'
  rw [hv] at hv'
  cases hv'
  exact ⟨rfl, rfl, rfl⟩

theorem Pairs.unique {ps ps' : List (Path × Scalar)} (h : Pairs t ps r) (h' : Pairs t ps' r') :
    ps = ps' ∧ r = r' := by
  induction h generalizing ps' r' with
  | last hp hc =>
    cases h' with
    | last hp' hc' =>
      obtain ⟨rfl, rfl, rfl⟩ := hp.unique hp'
      rw [hc] at hc'
      cases hc'
      exact ⟨rfl, rfl⟩
    | comma hp' hc' =>
      obtain ⟨rfl, rfl, rfl⟩ := hp.unique hp'
      rw [hc] at hc'
      cases hc'
  | comma hp hc _ ih =>
    cases h' with
    | last hp' hc' =>
      obtain ⟨rfl, rfl, rfl⟩ := hp.unique hp'
      rw [hc] at hc'
      cases hc'
    | comma hp' hc' hps' =>
      obtain ⟨rfl, rfl, rfl⟩ := hp.unique hp'
      rw [hc] at hc'
      cases hc'
      obtain ⟨rfl, rfl⟩ := ih hps'
      exact ⟨rfl, rfl⟩

theorem Pairs.head {ps : List (Path × Scalar)} (h : Pairs t ps r) :
    t.head?.any opensKey = true := by
  cases h with
  | last h => exact h.head
  | comma h => exact h.head

theorem Val.unique {v v' : Value} (h : Val t v r) (h' : Val t v' r') : v = v' ∧ r = r' := by
  cases h with
  | scalar h =>
    cases h' with
    | scalar h' =>
      rw [h] at h'
      cases h'
      exact ⟨rfl, rfl⟩
    | empty => rw [scalar_brace] at h; cases h
    | table => rw [scalar_brace] at h; cases h
  | empty h =>
    cases h' with
    | scalar h' => rw [scalar_brace] at h'; cases h'
    | empty h' =>
      rw [h] at h'
      cases h'
      exact ⟨rfl, rfl⟩
    | table h' =>
      have hh := h'.head
      rw [h] at hh
      cases hh
  | table h =>
    cases h' with
    | scalar h' => rw [scalar_brace] at h'; cases h'
    | empty h' =>
      have hh := h.head
      rw [h'] at hh
      cases hh
    | table h' =>
      obtain ⟨rfl, rfl⟩ := h.unique h'
      exact ⟨rfl, rfl⟩

theorem Line.unique {s s' : Option Statement} (h : Line t s r) (h' : Line t s' r') :
    s = s' ∧ r = r' := by
  have hkey {u : List Char} {c : Char} {p : Path} {r : List Char} (hk : Key (c :: u) p r)
      (hc : opensKey c = false) : False := by
    have hh : opensKey c = true := hk.head
    rw [hc] at hh
    cases hh
  cases h with
  | blank h =>
    cases h' with
    | blank h' =>
      rw [h] at h'
      cases h'
      exact ⟨rfl, rfl⟩
    | header ht =>
      rw [ht] at h
      cases h
    | arrayHeader ht =>
      rw [ht] at h
      cases h
    | entry hk => exact (lineEnd_not_key h hk).elim
  | header ht hk hc he =>
    cases h' with
    | blank h' =>
      rw [ht] at h'
      cases h'
    | header ht' hk' hc' he' =>
      rw [ht] at ht'
      cases ht'
      obtain ⟨rfl, rfl⟩ := hk.unique hk'
      rw [hc] at hc'
      cases hc'
      rw [he] at he'
      cases he'
      exact ⟨rfl, rfl⟩
    | arrayHeader ht' hk' =>
      rw [ht] at ht'
      cases ht'
      exact (hkey hk rfl).elim
    | entry hk' =>
      rw [ht] at hk'
      exact (hkey hk' rfl).elim
  | arrayHeader ht hk hc he =>
    cases h' with
    | blank h' =>
      rw [ht] at h'
      cases h'
    | header ht' hk' =>
      rw [ht] at ht'
      cases ht'
      exact (hkey hk' rfl).elim
    | arrayHeader ht' hk' hc' he' =>
      rw [ht] at ht'
      cases ht'
      obtain ⟨rfl, rfl⟩ := hk.unique hk'
      rw [hc] at hc'
      cases hc'
      rw [he] at he'
      cases he'
      exact ⟨rfl, rfl⟩
    | entry hk' =>
      rw [ht] at hk'
      exact (hkey hk' rfl).elim
  | entry hk hq hv he =>
    cases h' with
    | blank h' => exact (lineEnd_not_key h' hk).elim
    | header ht =>
      rw [ht] at hk
      exact (hkey hk rfl).elim
    | arrayHeader ht =>
      rw [ht] at hk
      exact (hkey hk rfl).elim
    | entry hk' hq' hv' he' =>
      obtain ⟨rfl, rfl⟩ := hk.unique hk'
      rw [hq] at hq'
      cases hq'
      obtain ⟨rfl, rfl⟩ := hv.unique hv'
      rw [he] at he'
      cases he'
      exact ⟨rfl, rfl⟩

/-- What a document says from its second statement on. -/
theorem Reads.behind {s s' : Statement} {ss : List Statement} (h : Reads t (s :: ss))
    (hl : Line t (some s') r) : s = s' ∧ Reads r ss := by
  generalize he : s :: ss = all at h
  cases h with
  | nil => cases he
  | line hl' hr =>
    obtain ⟨rfl, rfl⟩ := hl.unique hl'
    cases he
    exact ⟨rfl, hr⟩

theorem Reads.behind_blank {ss : List Statement} (h : Reads t ss) (hl : Line t none r) :
    Reads r ss := by
  cases h with
  | nil =>
    cases hl with
    | blank he =>
      cases he
      exact .nil
  | line hl' hr =>
    obtain ⟨rfl, rfl⟩ := hl.unique hl'
    exact hr

theorem Reads.nothing {ss : List Statement} (h : Reads t ss) (ht : t = []) : ss = [] := by
  induction h with
  | nil => rfl
  | line hl hr ih =>
    subst ht
    obtain ⟨rfl, rfl⟩ := hl.unique (.blank rfl)
    exact ih rfl

/-- A text is read as one document at most. -/
theorem Reads.unique {ss ss' : List Statement} (h : Reads t ss) (h' : Reads t ss') : ss = ss' := by
  induction h generalizing ss' with
  | nil => exact (h'.nothing rfl).symm
  | line hl hr ih =>
    cases h' with
    | nil => exact (Reads.line hl hr).nothing rfl
    | line hl' hr' =>
      obtain ⟨rfl, rfl⟩ := hl.unique hl'
      rw [ih hr']

end Determinism

def pathSize (p : Path) : ℕ := (p.map heavy).sum + (p.length - 1)

def Scalar.size : Scalar → ℕ
  | .string s => heavy s + 2
  | .integer _ => 0

/-- A pair, and the comma or the brace behind it. -/
def pairSize (p : Path × Scalar) : ℕ := pathSize p.1 + p.2.size + 2

def Value.size : Value → ℕ
  | .scalar v => v.size
  | .table [] => 2
  | .table ps => (ps.map pairSize).sum + 1

def Statement.size : Statement → ℕ
  | .header p => pathSize p + 2
  | .arrayHeader p => pathSize p + 4
  | .entry p v => pathSize p + v.size + 1

section Sizes

variable {t r u : List Char} {p : Path} {v : Scalar} {n : ℕ}

theorem heavy_suffix (h : r <:+ t) : heavy r ≤ heavy t := h.sublist.countP_le

theorem heavy_skip (t : List Char) : heavy (skip t) ≤ heavy t :=
  heavy_suffix (List.dropWhile_suffix _)

theorem heavy_skip_cons {c : Char} (hc : isHeavy c = true) (h : skip t = c :: u) :
    heavy u + 1 ≤ heavy t := by
  have hs := heavy_skip t
  rwa [h, heavy_cons hc] at hs

theorem digits_suffix {base : ℕ} {ds : List Char} (h : digits base t = some (ds, r)) : r <:+ t := by
  unfold digits at h
  dsimp only at h
  split at h
  · cases h
    exact List.dropWhile_suffix _
  · cases h

theorem decimal_suffix (h : decimal t = some (n, r)) : r <:+ t := by
  obtain ⟨⟨ds, r'⟩, hd, h⟩ := Option.bind_eq_some_iff.mp h
  dsimp only at h
  split at h
  · cases h
  · cases h
    exact digits_suffix hd

theorem integer_suffix {n : ℤ} (h : integer t = some (n, r)) : r <:+ t := by
  have hsigned {sign : ℤ} {u : List Char} (h : signed sign (decimal u) = some (n, r)) :
      r <:+ u := by
    obtain ⟨⟨m, r'⟩, hm, h⟩ := Option.map_eq_some_iff.mp h
    cases h
    exact decimal_suffix hm
  unfold integer at h
  split at h
  · exact (hsigned h).trans (List.suffix_cons _ _)
  · exact (hsigned h).trans (List.suffix_cons _ _)
  · split at h
    · obtain ⟨⟨m, r'⟩, hm, h⟩ := Option.map_eq_some_iff.mp h
      obtain ⟨⟨ds, r''⟩, hd, hm⟩ := Option.map_eq_some_iff.mp hm
      cases hm
      cases h
      exact ((digits_suffix hd).trans (List.suffix_cons _ _)).trans (List.suffix_cons _ _)
    · exact hsigned h
  · exact hsigned h

theorem scalar_size (h : scalar t = some (v, r)) : v.size + heavy r ≤ heavy t := by
  unfold scalar at h
  split at h
  next s r' hs =>
    cases h
    have hw := string_heavy hs
    rw [Scalar.size]
    omega
  next =>
    obtain ⟨⟨n, r'⟩, hn, h⟩ := Option.map_eq_some_iff.mp h
    cases h
    have hw := heavy_suffix (integer_suffix hn)
    rw [Scalar.size]
    omega

theorem simpleKey_size {k : List Char} (h : simpleKey t = some (k, r)) :
    heavy k + heavy r ≤ heavy t := by
  rcases simpleKey_cases h with ⟨rfl, -⟩ | ⟨q, raw, -, rfl, -, -, hw⟩
  · rw [heavy_append]
  · have hq : heavy (raw ++ q :: r) ≤ heavy (q :: (raw ++ q :: r)) :=
      heavy_suffix (List.suffix_cons _ _)
    have hr : heavy r ≤ heavy (q :: r) := heavy_suffix (List.suffix_cons _ _)
    rw [heavy_append] at hq
    omega

theorem pathSize_cons (k : List Char) (h : p ≠ []) :
    pathSize (k :: p) = heavy k + 1 + pathSize p := by
  have hp : 0 < p.length := List.length_pos_iff.mpr h
  simp only [pathSize, List.map_cons, List.sum_cons, List.length_cons]
  omega

theorem Key.ne_nil (h : Key t p r) : p ≠ [] := by
  cases h <;> exact List.cons_ne_nil _ _

theorem Key.size (h : Key t p r) : pathSize p + heavy r ≤ heavy t := by
  induction h with
  | @last t k r h hd =>
    have hw := simpleKey_size h
    simpa [pathSize] using hw
  | @dot t k r u p r' h hd hk ih =>
    have hw := simpleKey_size h
    have hdot := heavy_skip_cons (by decide) hd
    have hskip := heavy_skip u
    rw [pathSize_cons k hk.ne_nil]
    omega

theorem Pair.size (h : Pair t p v r) : pathSize p + v.size + heavy r + 1 ≤ heavy t := by
  obtain ⟨hk, he, hv⟩ := h
  have hkey := hk.size
  have heq := heavy_skip_cons (by decide) he
  have hval := scalar_size hv
  have hskip := heavy_skip ‹_›
  omega

theorem Pairs.size {ps : List (Path × Scalar)} (h : Pairs t ps r) :
    (ps.map pairSize).sum + heavy r ≤ heavy t := by
  induction h with
  | last hp hc =>
    have hpair := hp.size
    have hbrace := heavy_skip_cons (by decide) hc
    simp only [List.map_cons, List.map_nil, List.sum_cons, List.sum_nil, pairSize]
    omega
  | @comma t r u u' p v ps hp hc _ ih =>
    have hpair := hp.size
    have hcomma := heavy_skip_cons (by decide) hc
    have hskip := heavy_skip u
    simp only [List.map_cons, List.sum_cons, pairSize]
    omega

theorem Val.size {v : Value} (h : Val t v r) : v.size + heavy r ≤ heavy t := by
  cases h with
  | scalar h => exact scalar_size h
  | @empty t r h =>
    have hbrace := heavy_skip_cons (by decide) h
    rw [heavy_cons (by decide), Value.size]
    omega
  | @table t r ps h =>
    have hps := h.size
    have hskip := heavy_skip t
    rw [heavy_cons (by decide)]
    cases ps with
    | nil => cases h
    | cons p ps =>
      rw [Value.size]
      · omega
      · exact List.cons_ne_nil _ _

theorem comment_suffix (h : comment t = some r) : r <:+ t := by
  fun_induction comment t with
  | case1 =>
    cases h
    exact List.suffix_rfl
  | case2 t =>
    cases h
    exact List.suffix_cons _ _
  | case3 t =>
    cases h
    exact (List.suffix_cons _ _).trans (List.suffix_cons _ _)
  | case4 => cases h
  | case5 c t _ _ _ ih => exact (ih h).trans (List.suffix_cons _ _)

theorem lineEnd_suffix (h : lineEnd t = some r) : r <:+ t := by
  unfold lineEnd at h
  split at h
  · cases h
    exact List.suffix_rfl
  · cases h
    exact List.suffix_cons _ _
  · cases h
    exact (List.suffix_cons _ _).trans (List.suffix_cons _ _)
  · exact (comment_suffix h).trans (List.suffix_cons _ _)
  · cases h

theorem heavy_lineEnd (h : lineEnd (skip t) = some r) : heavy r ≤ heavy t :=
  (heavy_suffix (lineEnd_suffix h)).trans (heavy_skip t)

theorem Line.size {s : Statement} (h : Line t (some s) r) : s.size + heavy r ≤ heavy t := by
  cases h with
  | header ht hk hc he =>
    have hopen := heavy_skip_cons (by decide) ht
    have hkey := hk.size.trans (heavy_skip _)
    have hclose := heavy_skip_cons (by decide) hc
    have hend := heavy_lineEnd he
    rw [Statement.size]
    omega
  | arrayHeader ht hk hc he =>
    have hopen := heavy_skip_cons (by decide) ht
    have hkey := hk.size.trans (heavy_skip _)
    have hclose := heavy_skip_cons (by decide) hc
    have hend := heavy_lineEnd he
    rw [heavy_cons (by decide)] at hopen hclose
    rw [Statement.size]
    omega
  | entry hk hq hv he =>
    have hkey := hk.size.trans (heavy_skip t)
    have heq := heavy_skip_cons (by decide) hq
    have hval := hv.size.trans (heavy_skip _)
    have hend := heavy_lineEnd he
    rw [Statement.size]
    omega

/-- A document is no longer than the text that says it. -/
theorem Reads.size {ss : List Statement} (h : Reads t ss) :
    (ss.map Statement.size).sum ≤ heavy t := by
  induction h with
  | nil => exact Nat.le_refl _
  | @line t r s ss hl _ ih =>
    cases s with
    | none =>
      cases hl with
      | blank he => exact ih.trans (heavy_lineEnd he)
    | some s =>
      have hs := hl.size
      simp only [Option.toList_some, List.cons_append, List.nil_append, List.map_cons,
        List.sum_cons]
      omega

end Sizes

section Writing

variable {t r u k s : List Char} {n : ℕ}

/-- What may stand behind a bare word or a number. -/
def Apart (r : List Char) : Prop := r.head?.all (fun c => !isBare c) = true

theorem skip_of_head {c : Char} (h : isBlank c = false) (t : List Char) : skip (c :: t) = c :: t :=
  List.dropWhile_cons_of_neg (by rw [h]; exact Bool.false_ne_true)

theorem takeWhile_apart {p : Char → Bool} (hk : ∀ c ∈ k, p c = true)
    (hr : r.head?.all (fun c => !p c) = true) :
    (k ++ r).takeWhile p = k ∧ (k ++ r).dropWhile p = r := by
  rw [List.takeWhile_append_of_pos hk, List.dropWhile_append_of_pos hk]
  cases r with
  | nil => exact ⟨List.append_nil _, rfl⟩
  | cons c r =>
    have hc : p c = false := by simpa using hr
    rw [List.takeWhile_cons_of_neg (by simp [hc]), List.dropWhile_cons_of_neg (by simp [hc])]
    exact ⟨List.append_nil _, rfl⟩

theorem simpleKey_append (hk : ∀ c ∈ k, isBare c = true) (hne : k ≠ []) (hr : Apart r) :
    simpleKey (k ++ r) = some (k, r) := by
  obtain ⟨ht, hd⟩ := takeWhile_apart hk hr
  rw [simpleKey_bare (by rwa [ht]), ht, hd]

theorem Key.bare (hk : ∀ c ∈ k, isBare c = true) (hne : k ≠ []) (hr : Apart r)
    (hd : (skip r).head? ≠ some '.') : Key (k ++ r) [k] r :=
  .last (simpleKey_append hk hne hr) hd

theorem bare_of_isDigitIn {base : ℕ} {c : Char} (h : isDigitIn base c = true) :
    isBare c = true := by
  have halpha : c.isAlpha = (c.isUpper || c.isLower) := rfl
  simp only [isBare, Char.isAlphanum, halpha]
  unfold isDigitIn hexDigit at h
  split at h
  next hd => simp [hd]
  split at h
  next hl => simp [hl.1]
  split at h
  next hu => simp [hu.1]
  next => cases h

theorem isDigitIn_digit {c : Char} (h : c.isDigit = true) : isDigitIn 10 c = true := by
  have hhigh : c.toNat ≤ 57 := (Char.isDigit_iff_toNat.mp h).2
  have hzero : '0'.toNat = 48 := rfl
  rw [isDigitIn, hexDigit, if_pos h, Option.any_some, decide_eq_true_eq]
  omega

theorem number_digits {ds : List Char} (h : ∀ c ∈ ds, c.isDigit = true) :
    number 10 ds = Nat.ofDigitChars 10 ds 0 := by
  have hmap : ds.filterMap hexDigit = ds.map fun c => c.toNat - '0'.toNat := by
    rw [← List.filterMap_eq_map]
    exact List.filterMap_congr fun c hc => if_pos (h c hc)
  rw [number, hmap, List.foldl_map]
  rfl

theorem head_toDigits (hn : n ≠ 0) : (Nat.toDigits 10 n).head? ≠ some '0' := by
  induction n using Nat.strongRecOn with
  | ind n ih =>
    by_cases h : n < 10
    · rw [Nat.toDigits_of_lt_base h, List.head?_cons]
      interval_cases n <;> first | exact absurd rfl hn | decide
    · rw [Nat.toDigits_of_base_le (by omega) (by omega),
        List.head?_append_of_ne_nil _ Nat.toDigits_ne_nil]
      exact ih (n / 10) (by omega) (by omega)

theorem digits_toDigits (n : ℕ) (hr : Apart r) :
    digits 10 (Nat.toDigits 10 n ++ r) = some (Nat.toDigits 10 n, r) := by
  have hdigit (c : Char) (hc : c ∈ Nat.toDigits 10 n) : (isDigitIn 10 c || c = '_') = true := by
    rw [isDigitIn_digit (Nat.isDigit_of_mem_toDigits (by omega) (by omega) hc)]
    rfl
  have hend : r.head?.all (fun c => !(isDigitIn 10 c || c = '_')) = true := by
    cases r with
    | nil => rfl
    | cons c r =>
      have hc : isBare c = false := by simpa [Apart] using hr
      have hdig : isDigitIn 10 c = false := by
        rw [← Bool.not_eq_true]
        intro h
        rw [bare_of_isDigitIn h] at hc
        cases hc
      have hne : c ≠ '_' := by
        rintro rfl
        cases hc
      simp [hdig, hne]
  obtain ⟨ht, hd⟩ := takeWhile_apart hdigit hend
  have hno : '_' ∉ Nat.toDigits 10 n := Nat.underscore_not_in_toDigits
  have hfilter : (Nat.toDigits 10 n).filter (· ≠ '_') = Nat.toDigits 10 n := by
    rw [List.filter_eq_self]
    intro c hc
    have hne : c ≠ '_' := fun he => hno (he ▸ hc)
    simpa using hne
  rw [digits, ht, hd, List.splitOn_eq_singleton hno, hfilter]
  simp

theorem decimal_toDigits (n : ℕ) (hr : Apart r) :
    decimal (Nat.toDigits 10 n ++ r) = some (n, r) := by
  have hdigit : ∀ c ∈ Nat.toDigits 10 n, c.isDigit = true :=
    fun c hc => Nat.isDigit_of_mem_toDigits (by omega) (by omega) hc
  have hzero : ¬((Nat.toDigits 10 n).head? = some '0' ∧ (Nat.toDigits 10 n).length ≠ 1) := by
    rintro ⟨hh, hl⟩
    by_cases hn : n = 0
    · rw [hn] at hl
      exact hl rfl
    · exact head_toDigits hn hh
  rw [decimal, digits_toDigits n hr, Option.bind_some]
  dsimp only
  rw [if_neg hzero, number_digits hdigit, Nat.ofDigitChars_ten_toDigits]

theorem digit_of_toDigits {c : Char} (h : Nat.toDigits 10 n ++ r = c :: u) : c.isDigit = true := by
  apply Nat.isDigit_of_mem_toDigits (b := 10) (n := n) (by omega) (by omega)
  have hhead := congrArg List.head? h
  rw [List.head?_append_of_ne_nil _ Nat.toDigits_ne_nil] at hhead
  exact List.mem_of_head? hhead

/-- A number is read as it is written. -/
theorem integer_toDigits (n : ℕ) (hr : Apart r) :
    integer (Nat.toDigits 10 n ++ r) = some ((n : ℤ), r) := by
  have hread : signed 1 (decimal (Nat.toDigits 10 n ++ r)) = some ((n : ℤ), r) := by
    rw [decimal_toDigits n hr, signed, Option.map_some, one_mul]
  unfold integer
  split
  next t h => exact absurd (digit_of_toDigits h) (by decide)
  next t h => exact absurd (digit_of_toDigits h) (by decide)
  next c t h =>
    have hn : n = 0 := by
      by_contra hn
      have hhead := congrArg List.head? h
      rw [List.head?_append_of_ne_nil _ Nat.toDigits_ne_nil] at hhead
      exact head_toDigits hn hhead
    subst hn
    rw [Nat.toDigits_zero] at h
    obtain rfl : r = c :: t := (List.cons.inj h).2
    have hc : radix c = none := by
      unfold radix
      split <;> first | rfl | cases hr
    rw [hc]
    exact hread
  next => exact hread

theorem scalar_toDigits (n : ℕ) (hr : Apart r) :
    scalar (Nat.toDigits 10 n ++ r) = some (.integer n, r) := by
  have hs : string (Nat.toDigits 10 n ++ r) = none := by
    unfold string
    split
    next t h => exact absurd (digit_of_toDigits h) (by decide)
    next t _ h => exact absurd (digit_of_toDigits h) (by decide)
    next t h => exact absurd (digit_of_toDigits h) (by decide)
    next t _ h => exact absurd (digit_of_toDigits h) (by decide)
    next => rfl
  rw [scalar, hs, integer_toDigits n hr]
  rfl

theorem scalar_string (h : string t = some (s, r)) : scalar t = some (.string s, r) := by
  rw [scalar, h]

/-- A key that needs no quotes. -/
def BareKey (k : List Char) : Prop := k ≠ [] ∧ ∀ c ∈ k, isBare c = true

theorem blank_of_bare {c : Char} (h : isBare c = true) : isBlank c = false := by
  rw [← Bool.not_eq_true]
  intro hb
  simp only [isBlank, Bool.or_eq_true, decide_eq_true_eq] at hb
  rcases hb with rfl | rfl <;> cases h

theorem skip_blank (t : List Char) : skip (' ' :: t) = skip t := rfl

theorem skip_bare (hk : BareKey k) (r : List Char) : skip (k ++ r) = k ++ r := by
  obtain ⟨hne, hk⟩ := hk
  cases k with
  | nil => exact absurd rfl hne
  | cons c k => exact skip_of_head (blank_of_bare (hk c List.mem_cons_self)) _

/-- A bare key with what is set, on a line of its own. -/
def setting (k vt r : List Char) : List Char := k ++ ' ' :: '=' :: ' ' :: (vt ++ '\n' :: r)

theorem setting_key (hk : BareKey k) (vt r : List Char) :
    Key (skip (setting k vt r)) [k] (' ' :: '=' :: ' ' :: (vt ++ '\n' :: r)) := by
  rw [setting, skip_bare hk]
  exact Key.bare hk.2 hk.1 rfl (by rw [skip]; exact nofun)

theorem setting_line {vt : List Char} {v : Value} (hk : BareKey k)
    (hv : Val (vt ++ '\n' :: r) v ('\n' :: r)) (hb : skip (vt ++ '\n' :: r) = vt ++ '\n' :: r) :
    Line (setting k vt r) (some (.entry [k] v)) r := by
  have hval : Val (skip (' ' :: (vt ++ '\n' :: r))) v ('\n' :: r) := by
    rw [skip_blank, hb]
    exact hv
  exact .entry (setting_key hk vt r) rfl hval rfl

/-- What a line that begins like a setting says. -/
theorem Line.of_setting {vt r' : List Char} {st : Option Statement} (hk : BareKey k)
    (hb : skip (vt ++ '\n' :: r) = vt ++ '\n' :: r) (h : Line (setting k vt r) st r') :
    ∃ v u, st = some (.entry [k] v) ∧ Val (vt ++ '\n' :: r) v u ∧ lineEnd (skip u) = some r' := by
  have hkey := setting_key hk vt r
  cases h with
  | blank he => exact (lineEnd_not_key he hkey).elim
  | header ht =>
    rw [ht] at hkey
    cases hkey.head
  | arrayHeader ht =>
    rw [ht] at hkey
    cases hkey.head
  | @entry r₁ u r₂ _ p v hk' hq hv he =>
    obtain ⟨rfl, rfl⟩ := hkey.unique hk'
    have hu : ' ' :: (vt ++ '\n' :: r) = u := (List.cons.inj hq).2
    rw [← hu, skip_blank, hb] at hv
    exact ⟨v, r₂, rfl, hv, he⟩

theorem Reads.of_setting {vt : List Char} {st : Statement} {ss : List Statement} (hk : BareKey k)
    (hb : skip (vt ++ '\n' :: r) = vt ++ '\n' :: r) (h : Reads (setting k vt r) (st :: ss)) :
    ∃ v u r', st = .entry [k] v ∧ Val (vt ++ '\n' :: r) v u ∧ lineEnd (skip u) = some r' ∧
      Reads r' ss := by
  generalize ht : setting k vt r = t at h
  generalize he : st :: ss = all at h
  cases h with
  | nil => cases he
  | line hl hr =>
    subst ht
    obtain ⟨v, u, rfl, hv, hend⟩ := hl.of_setting hk hb
    cases he
    exact ⟨v, u, _, rfl, hv, hend, hr⟩

theorem Reads.behind_iff {st st' : Statement} {ss : List Statement} (hl : Line t (some st) r) :
    Reads t (st' :: ss) ↔ st' = st ∧ Reads r ss := by
  constructor
  · intro h
    exact h.behind hl
  · rintro ⟨rfl, h⟩
    exact .line hl h

theorem reads_number {ss : List Statement} (hk : BareKey k) (n : ℕ) :
    Reads (setting k (Nat.toDigits 10 n) r) (.entry [k] (.scalar (.integer n)) :: ss) ↔
      Reads r ss := by
  have hskip : skip (Nat.toDigits 10 n ++ '\n' :: r) = Nat.toDigits 10 n ++ '\n' :: r := by
    cases h : Nat.toDigits 10 n ++ '\n' :: r with
    | nil => rfl
    | cons c u =>
      have hc : isBare c = true := by
        simp [isBare, Char.isAlphanum, digit_of_toDigits h]
      exact skip_of_head (blank_of_bare hc) u
  have hl := setting_line hk (.scalar (scalar_toDigits n (by rfl))) hskip
  rw [Reads.behind_iff hl, and_iff_right rfl]

def quoted (s : List Char) : List Char := '"' :: (s ++ ['"'])

theorem quoted_append (s r : List Char) : quoted s ++ r = '"' :: (s ++ '"' :: r) := by
  simp [quoted]

/-- An escaped string is read back exactly where it holds no control character. -/
theorem reads_escaped {ss : List Statement} (hk : BareKey k) :
    Reads (setting k (quoted (escape s)) r) (.entry [k] (.scalar (.string s)) :: ss) ↔
      (∀ c ∈ s, isControl c = false) ∧ Reads r ss := by
  have hread : string (quoted (escape s) ++ '\n' :: r) =
      if s.all (fun c => !isControl c) then some (s, '\n' :: r) else none := by
    rw [quoted_append]
    exact string_escape (by simp)
  have hskip : skip (quoted (escape s) ++ '\n' :: r) = quoted (escape s) ++ '\n' :: r := rfl
  by_cases hs : s.all (fun c => !isControl c) = true
  · rw [if_pos hs] at hread
    have hl := setting_line hk (.scalar (scalar_string hread)) hskip
    have hall : ∀ c ∈ s, isControl c = false := by simpa using hs
    rw [Reads.behind_iff hl, and_iff_right rfl, and_iff_right hall]
  · rw [if_neg hs] at hread
    refine iff_of_false ?_ fun h => hs (by simpa using h.1)
    intro h
    obtain ⟨v, u, r', he, hv, -⟩ := h.of_setting hk hskip
    cases he
    cases hv with
    | scalar hv =>
      rw [scalar, hread] at hv
      cases hv

theorem reads_blank {ss : List Statement} : Reads ('\n' :: r) ss ↔ Reads r ss := by
  constructor
  · intro h
    exact h.behind_blank (.blank rfl)
  · intro h
    exact .line (.blank rfl) h

theorem comment_append (h : ∀ c ∈ s, isControl c = false) (r : List Char) :
    comment (s ++ '\n' :: r) = some r := by
  induction s with
  | nil => rfl
  | cons c s ih =>
    obtain ⟨hc, hs⟩ := List.forall_mem_cons.mp h
    rw [List.cons_append, comment, if_neg (by rw [hc]; exact Bool.false_ne_true), ih hs]
    · rintro rfl
      cases hc
    · rintro u rfl
      cases hc

theorem reads_comment {ss : List Statement} (h : ∀ c ∈ s, isControl c = false) :
    Reads ('#' :: (s ++ '\n' :: r)) ss ↔ Reads r ss := by
  have hl : Line ('#' :: (s ++ '\n' :: r)) none r := .blank (comment_append h r)
  constructor
  · intro h
    exact h.behind_blank hl
  · intro h
    exact .line hl h

theorem bare_key (hk : BareKey k) {c : Char} (hc : c = ']' ∨ c = '.') :
    simpleKey (k ++ c :: r) = some (k, c :: r) :=
  simpleKey_append hk.2 hk.1 (by rcases hc with rfl | rfl <;> rfl)

theorem reads_header {ss : List Statement} (hk : BareKey k) :
    Reads ('[' :: (k ++ ']' :: '\n' :: r)) (.header [k] :: ss) ↔ Reads r ss := by
  have hkey : Key (skip (k ++ ']' :: '\n' :: r)) [k] (']' :: '\n' :: r) := by
    rw [skip_bare hk]
    exact .last (bare_key hk (.inl rfl)) (by rw [skip]; exact nofun)
  rw [Reads.behind_iff (.header rfl hkey rfl rfl), and_iff_right rfl]

/-- A text that has no newline in it ends before the first one. -/
theorem length_le_of_newline {x y p q : List Char} (h : x ++ '\n' :: y = p ++ q) (hp : '\n' ∉ p) :
    p.length ≤ x.length := by
  rcases List.append_eq_append_iff.mp h with ⟨z, rfl, hz⟩ | ⟨z, rfl, -⟩
  · cases z with
    | nil => rw [List.append_nil]
    | cons c z =>
      obtain rfl : '\n' = c := (List.cons.inj hz).1
      exact absurd (List.mem_append_right x List.mem_cons_self) hp
  · rw [List.length_append]
    exact Nat.le_add_right _ _

theorem bareKey_of_key (h : Key (skip (k ++ ']' :: '\n' :: r)) [k] u) : BareKey k := by
  cases h with
  | dot h hd hk => cases hk.ne_nil rfl
  | last h =>
    rcases simpleKey_cases h with ⟨-, hne, hk⟩ | ⟨q, raw, hq, ht, hn, hlen, -⟩
    · exact ⟨hne, hk⟩
    · -- a quoted key would end on the line, and is too long for that
      have hsplit : k ++ ']' :: '\n' :: r =
          ((k ++ ']' :: '\n' :: r).takeWhile isBlank ++ q :: (raw ++ [q])) ++ u := by
        rw [List.append_assoc, List.cons_append, List.append_assoc, List.singleton_append, ← ht]
        exact List.takeWhile_append_dropWhile.symm
      have hnew : '\n' ∉ (k ++ ']' :: '\n' :: r).takeWhile isBlank ++ q :: (raw ++ [q]) := by
        rw [List.mem_append, not_or]
        refine ⟨fun h => absurd (List.mem_takeWhile_imp h) (by decide), ?_⟩
        rcases hq with rfl | rfl <;> simp [hn]
      have hle := length_le_of_newline (x := k ++ [']']) (y := r)
        (by rw [List.append_assoc]; exact hsplit) hnew
      simp only [List.length_append, List.length_cons, List.length_nil] at hle
      omega

theorem Reads.key_of_subheader {a : List Char} {ss : List Statement} (ha : BareKey a)
    (h : Reads ('[' :: (a ++ '.' :: (k ++ ']' :: '\n' :: r))) (.header [a, k] :: ss)) :
    BareKey k := by
  have hfirst := bare_key (r := k ++ ']' :: '\n' :: r) ha (.inr rfl)
  rw [← skip_bare ha] at hfirst
  generalize ht : '[' :: (a ++ '.' :: (k ++ ']' :: '\n' :: r)) = t at h
  generalize he : Statement.header [a, k] :: ss = all at h
  cases h with
  | nil => cases he
  | line hl hr =>
    subst ht
    cases hl with
    | blank hend => cases hend
    | entry hk => cases hk.head
    | arrayHeader hu => cases he
    | header hu hk =>
      cases he
      cases hu
      cases hk with
      | dot hs hd hk =>
        rw [hfirst] at hs
        cases hs
        cases hd
        exact bareKey_of_key hk

/-- In a header a key is read as it stands if and only if it is bare. -/
theorem reads_subheader {a : List Char} {ss : List Statement} (ha : BareKey a) :
    Reads ('[' :: (a ++ '.' :: (k ++ ']' :: '\n' :: r))) (.header [a, k] :: ss) ↔
      BareKey k ∧ Reads r ss := by
  have hfirst := bare_key (r := k ++ ']' :: '\n' :: r) ha (.inr rfl)
  rw [← skip_bare ha] at hfirst
  by_cases hk : BareKey k
  · have hkey : Key (skip (a ++ '.' :: (k ++ ']' :: '\n' :: r))) [a, k] (']' :: '\n' :: r) := by
      refine .dot hfirst rfl ?_
      rw [skip_bare hk]
      exact .last (bare_key hk (.inl rfl)) (by rw [skip]; exact nofun)
    rw [Reads.behind_iff (.header rfl hkey rfl rfl), and_iff_right rfl, and_iff_right hk]
  · exact iff_of_false (fun h => hk (h.key_of_subheader ha)) fun h => hk h.1

end Writing

end FleetOrchestrator.Encoding.Toml
