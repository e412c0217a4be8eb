import Mathlib.Data.List.Basic
import Mathlib.Data.Nat.Notation

/-! The strings of TOML, and how much of a text the reading of one takes. -/

namespace FleetOrchestrator.Encoding.Toml

def isBlank (c : Char) : Bool := c = ' ' || c = '\t'

/-- A control character, which nothing holds as it is. -/
def isControl (c : Char) : Bool := c ≠ '\t' && (c.toNat < 0x20 || c.toNat = 0x7F)

/-- A character that a basic string holds as it is. -/
def isPlain (c : Char) : Bool := !isControl c && c ≠ '"' && c ≠ '\\'

def isBare (c : Char) : Bool := c.isAlphanum || c = '-' || c = '_'

def hexDigit (c : Char) : Option ℕ :=
  if c.isDigit then some (c.toNat - '0'.toNat)
  else if c.isLower ∧ c ≤ 'f' then some (c.toNat - 'a'.toNat + 10)
  else if c.isUpper ∧ c ≤ 'F' then some (c.toNat - 'A'.toNat + 10)
  else none

def hexNumber (digits : List Char) : ℕ :=
  (digits.filterMap hexDigit).foldl (fun n d => 16 * n + d) 0

/-- The character of a number in hexadecimal, if there is one. -/
def unicode (digits : List Char) : Option Char :=
  if digits.all (fun c => (hexDigit c).isSome) ∧ (hexNumber digits).isValidChar then
    some (Char.ofNat (hexNumber digits))
  else none

def shortEscape : Char → Option Char
  | 'b' => some '\x08'
  | 't' => some '\t'
  | 'n' => some '\n'
  | 'f' => some '\x0c'
  | 'r' => some '\r'
  | '"' => some '"'
  | '\\' => some '\\'
  | _ => none

def push (c : Option Char) (read : Option (List Char × List Char)) :
    Option (List Char × List Char) :=
  c.bind fun c => read.map fun p => (c :: p.1, p.2)

/-- A basic string behind its opening quote, and the rest of the text. -/
def basic : List Char → Option (List Char × List Char)
  | [] => none
  | '"' :: t => some ([], t)
  | '\\' :: 'u' :: a :: b :: c :: d :: t => push (unicode [a, b, c, d]) (basic t)
  | '\\' :: 'U' :: a :: b :: c :: d :: e :: f :: g :: h :: t =>
    push (unicode [a, b, c, d, e, f, g, h]) (basic t)
  | '\\' :: c :: t => push (shortEscape c) (basic t)
  | c :: t => if isControl c then none else push (some c) (basic t)

def literal : List Char → Option (List Char × List Char)
  | [] => none
  | '\'' :: t => some ([], t)
  | c :: t => if isControl c then none else push (some c) (literal t)

/-- Up to two quotes behind the closing three belong to the string. -/
def closing (q : Char) : List Char → List Char × List Char
  | a :: b :: t =>
    if a = q ∧ b = q then ([q, q], t) else if a = q then ([q], b :: t) else ([], a :: b :: t)
  | [a] => if a = q then ([q], []) else ([], [a])
  | [] => ([], [])

/-- Whether a text goes on with the end of its line. -/
def endsLine (t : List Char) : Bool :=
  ['\n'].isPrefixOf (t.dropWhile isBlank) || ['\r', '\n'].isPrefixOf (t.dropWhile isBlank)

/-- A multi-line basic string; behind an escaped end of line, blanks and newlines are skipped. -/
def multiBasic : Bool → List Char → Option (List Char × List Char)
  | _, [] => none
  | true, ' ' :: t => multiBasic true t
  | true, '\t' :: t => multiBasic true t
  | true, '\n' :: t => multiBasic true t
  | true, '\r' :: '\n' :: t => multiBasic true t
  | _, '"' :: '"' :: '"' :: t => some (closing '"' t)
  | _, '\\' :: 'u' :: a :: b :: c :: d :: t => push (unicode [a, b, c, d]) (multiBasic false t)
  | _, '\\' :: 'U' :: a :: b :: c :: d :: e :: f :: g :: h :: t =>
    push (unicode [a, b, c, d, e, f, g, h]) (multiBasic false t)
  | _, '\\' :: c :: t =>
    if endsLine (c :: t) then multiBasic true t else push (shortEscape c) (multiBasic false t)
  | _, '\r' :: '\n' :: t => push (some '\n') (multiBasic false t)
  | _, '\n' :: t => push (some '\n') (multiBasic false t)
  | _, c :: t => if isControl c then none else push (some c) (multiBasic false t)

def multiLiteral : List Char → Option (List Char × List Char)
  | [] => none
  | '\'' :: '\'' :: '\'' :: t => some (closing '\'' t)
  | '\r' :: '\n' :: t => push (some '\n') (multiLiteral t)
  | '\n' :: t => push (some '\n') (multiLiteral t)
  | c :: t => if isControl c then none else push (some c) (multiLiteral t)

/-- The newline right behind the opening of a multi-line string does not belong to it. -/
def behindNewline : List Char → List Char
  | '\n' :: t => t
  | '\r' :: '\n' :: t => t
  | t => t

def string : List Char → Option (List Char × List Char)
  | '"' :: '"' :: '"' :: t => multiBasic false (behindNewline t)
  | '"' :: t => basic t
  | '\'' :: '\'' :: '\'' :: t => multiLiteral (behindNewline t)
  | '\'' :: t => literal t
  | _ => none

/-- The characters that neither blanks, ends of lines nor digits make up. -/
def isHeavy (c : Char) : Bool := !(isBlank c || c = '\n' || c = '\r' || c.isDigit)

def heavy (t : List Char) : ℕ := t.countP isHeavy

section Readings

variable {c : Char} {o : Option Char} {s r t u : List Char} {read : Option (List Char × List Char)}

theorem push_eq_some : push o read = some (s, r) ↔
    ∃ c s', o = some c ∧ read = some (s', r) ∧ s = c :: s' := by
  unfold push
  constructor
  · intro h
    obtain ⟨c, rfl, h⟩ := Option.bind_eq_some_iff.mp h
    obtain ⟨⟨s', r'⟩, rfl, h⟩ := Option.map_eq_some_iff.mp h
    cases h
    exact ⟨c, s', rfl, rfl, rfl⟩
  · rintro ⟨c, s', rfl, rfl, rfl⟩
    rfl

theorem heavy_le_one (c : Char) : heavy [c] ≤ 1 := List.countP_le_length

/-- What stands for a string in a text: the string itself, or more than it. -/
def Spells (ok : Char → Bool) (raw s : List Char) : Prop :=
  (s = raw ∧ ∀ c ∈ s, ok c = true) ∨ (s.length < raw.length ∧ heavy s < heavy raw)

theorem Spells.cons {ok : Char → Bool} {raw : List Char} (h : Spells ok raw s) (hc : ok c = true) :
    Spells ok (c :: raw) (c :: s) := by
  rcases h with ⟨rfl, hs⟩ | ⟨hlen, hheavy⟩
  · exact .inl ⟨rfl, List.forall_mem_cons.mpr ⟨hc, hs⟩⟩
  · refine .inr ⟨Nat.succ_lt_succ hlen, ?_⟩
    simp only [heavy, List.countP_cons] at hheavy ⊢
    omega

theorem Spells.escape {ok : Char → Bool} {raw : List Char} (h : Spells ok raw s) (esc : List Char)
    (hl : 2 ≤ esc.length) (hw : 2 ≤ heavy esc) : Spells ok (esc ++ raw) (c :: s) := by
  have hc := heavy_le_one c
  have hle : s.length ≤ raw.length ∧ heavy s ≤ heavy raw := by
    rcases h with ⟨rfl, -⟩ | ⟨hlen, hheavy⟩
    · exact ⟨Nat.le_refl _, Nat.le_refl _⟩
    · exact ⟨Nat.le_of_lt hlen, Nat.le_of_lt hheavy⟩
  refine .inr ⟨?_, ?_⟩
  · rw [List.length_append, List.length_cons]
    omega
  · simp only [heavy, List.countP_append, List.countP_cons, List.countP_nil] at *
    omega

theorem two_le_heavy (h : isHeavy c = true) (u : List Char) : 2 ≤ heavy ('\\' :: c :: u) := by
  have hslash : isHeavy '\\' = true := by decide
  rw [heavy, List.countP_cons_of_pos hslash, List.countP_cons_of_pos h]
  omega

theorem heavy_of_shortEscape {d : Char} (h : shortEscape c = some d) : isHeavy c = true := by
  unfold shortEscape at h
  split at h <;> first | rfl | cases h

theorem newline_of_shortEscape {d : Char} (h : shortEscape c = some d) : c ≠ '\n' := by
  rintro rfl
  cases h

theorem newline_of_unicode (h : unicode u = some c) : '\n' ∉ u := by
  intro hn
  unfold unicode at h
  split at h
  next hok =>
    have hhex := List.all_eq_true.mp hok.1 '\n' hn
    cases hhex
  next => cases h

/-- The text of a basic string up to its closing quote, which stands on the same line. -/
theorem basic_raw (h : basic t = some (s, r)) :
    ∃ raw, t = raw ++ '"' :: r ∧ '\n' ∉ raw ∧ Spells isPlain raw s := by
  fun_induction basic t generalizing s with
  | case1 => cases h
  | case2 t =>
    cases h
    exact ⟨[], rfl, List.not_mem_nil, .inl ⟨rfl, nofun⟩⟩
  | case3 a b c d t ih =>
    obtain ⟨x, s', hu, hb, rfl⟩ := push_eq_some.mp h
    obtain ⟨raw, rfl, hn, hs⟩ := ih hb
    refine ⟨'\\' :: 'u' :: ([a, b, c, d] ++ raw), rfl, ?_,
      hs.escape ['\\', 'u', a, b, c, d] (by simp) (two_le_heavy rfl _)⟩
    have hhex := newline_of_unicode hu
    rw [List.mem_cons, List.mem_cons, List.mem_append]
    simp [hn, hhex]
  | case4 a b c d e f g h t ih =>
    obtain ⟨x, s', hu, hb, rfl⟩ := push_eq_some.mp ‹_›
    obtain ⟨raw, rfl, hn, hs⟩ := ih hb
    refine ⟨'\\' :: 'U' :: ([a, b, c, d, e, f, g, _] ++ raw), rfl, ?_,
      hs.escape ['\\', 'U', a, b, c, d, e, f, g, _] (by simp) (two_le_heavy rfl _)⟩
    have hhex := newline_of_unicode hu
    rw [List.mem_cons, List.mem_cons, List.mem_append]
    simp [hn, hhex]
  | case5 c t hu hU ih =>
    obtain ⟨x, s', he, hb, rfl⟩ := push_eq_some.mp h
    obtain ⟨raw, rfl, hn, hs⟩ := ih hb
    refine ⟨'\\' :: c :: raw, rfl, ?_,
      hs.escape ['\\', c] (by simp) (two_le_heavy (heavy_of_shortEscape he) _)⟩
    have hne := newline_of_shortEscape he
    simp [hn, hne.symm]
  | case6 => cases h
  | case7 c t hq hu hU hs hc ih =>
    obtain ⟨x, s', he, hb, rfl⟩ := push_eq_some.mp h
    cases he
    obtain ⟨raw, rfl, hn, hr⟩ := ih hb
    have hslash : c ≠ '\\' := by
      rintro rfl
      cases raw with
      | nil => exact hs _ _ rfl rfl
      | cons d raw => exact hs _ _ rfl rfl
    have hquote : c ≠ '"' := hq
    have hplain : isPlain c = true := by simp [isPlain, hc, hslash, hquote]
    refine ⟨c :: raw, rfl, ?_, hr.cons hplain⟩
    have hne : c ≠ '\n' := by
      rintro rfl
      exact hc rfl
    simp [hn, hne.symm]

theorem literal_raw (h : literal t = some (s, r)) : t = s ++ '\'' :: r ∧ '\n' ∉ s := by
  fun_induction literal t generalizing s with
  | case1 => cases h
  | case2 t =>
    cases h
    exact ⟨rfl, List.not_mem_nil⟩
  | case3 => cases h
  | case4 c t hq hc ih =>
    obtain ⟨x, s', he, hb, rfl⟩ := push_eq_some.mp h
    cases he
    obtain ⟨rfl, hn⟩ := ih hb
    have hne : c ≠ '\n' := by
      rintro rfl
      exact hc rfl
    exact ⟨rfl, by simp [hn, hne.symm]⟩

/-- The text of a multi-line string up to its last three quotes. -/
def Closes (q : Char) (t s r : List Char) : Prop :=
  ∃ body, t = body ++ q :: q :: q :: r ∧ s.length ≤ body.length ∧ heavy s ≤ heavy body

theorem closes_closing (q : Char) (t : List Char) :
    Closes q (q :: q :: q :: t) (closing q t).1 (closing q t).2 := by
  fun_cases closing q t with
  | case1 a b t h =>
    obtain ⟨rfl, rfl⟩ := h
    exact ⟨[_, _], rfl, Nat.le_refl _, Nat.le_refl _⟩
  | case2 b t =>
    exact ⟨[q], rfl, Nat.le_refl _, Nat.le_refl _⟩
  | case3 a b t =>
    exact ⟨[], rfl, Nat.le_refl _, Nat.le_refl _⟩
  | case4 =>
    exact ⟨[q], rfl, Nat.le_refl _, Nat.le_refl _⟩
  | case5 =>
    exact ⟨[], rfl, Nat.le_refl _, Nat.le_refl _⟩
  | case6 => exact ⟨[], rfl, Nat.le_refl _, Nat.le_refl _⟩

theorem Closes.skip {q : Char} (h : Closes q t s r) (u : List Char) : Closes q (u ++ t) s r := by
  obtain ⟨body, rfl, hlen, hheavy⟩ := h
  refine ⟨u ++ body, (List.append_assoc ..).symm, ?_, ?_⟩
  · rw [List.length_append]
    omega
  · rw [heavy, heavy, List.countP_append]
    exact Nat.le_trans hheavy (Nat.le_add_left ..)

/-- One more character, and what stands for it. -/
theorem Closes.push {q : Char} (h : Closes q t s r) (u : List Char) (hl : 1 ≤ u.length)
    (hw : heavy [c] ≤ heavy u) : Closes q (u ++ t) (c :: s) r := by
  obtain ⟨body, rfl, hlen, hheavy⟩ := h
  refine ⟨u ++ body, (List.append_assoc ..).symm, ?_, ?_⟩
  · rw [List.length_append, List.length_cons]
    omega
  · simp only [heavy, List.countP_append, List.countP_cons, List.countP_nil] at *
    omega

theorem Closes.escape {q : Char} (esc : List Char) (hp : Toml.push o read = some (s, r))
    (ih : ∀ {s}, read = some (s, r) → Closes q u s r) (hl : 1 ≤ esc.length) (hw : 1 ≤ heavy esc) :
    Closes q (esc ++ u) s r := by
  obtain ⟨x, s', -, hb, rfl⟩ := push_eq_some.mp hp
  exact (ih hb).push esc hl (Nat.le_trans (heavy_le_one x) hw)

theorem Closes.char {q : Char} (hp : Toml.push (some c) read = some (s, r))
    (ih : ∀ {s}, read = some (s, r) → Closes q u s r) : Closes q (c :: u) s r := by
  obtain ⟨x, s', he, hb, rfl⟩ := push_eq_some.mp hp
  cases he
  exact (ih hb).push [c] (Nat.le_refl _) (Nat.le_refl _)

theorem one_le_heavy (u : List Char) : 1 ≤ heavy ('\\' :: u) := by
  have hslash : isHeavy '\\' = true := by decide
  rw [heavy, List.countP_cons_of_pos hslash]
  omega

theorem multiBasic_closes {b : Bool} (h : multiBasic b t = some (s, r)) : Closes '"' t s r := by
  fun_induction multiBasic b t generalizing s with
  | case1 => cases h
  | case2 t ih => exact (ih h).skip [' ']
  | case3 t ih => exact (ih h).skip ['\t']
  | case4 t ih => exact (ih h).skip ['\n']
  | case5 t ih => exact (ih h).skip ['\r', '\n']
  | case6 _ t =>
    have hc := closes_closing '"' t
    rwa [Option.some.inj h] at hc
  | case7 _ a b c d t ih =>
    exact Closes.escape ['\\', 'u', a, b, c, d] h ih (by simp) (one_le_heavy _)
  | case8 _ a b c d e f g k t ih =>
    exact Closes.escape ['\\', 'U', a, b, c, d, e, f, g, k] h ih (by simp) (one_le_heavy _)
  | case9 _ c t _ _ _ ih => exact (ih h).skip ['\\', c]
  | case10 _ c t _ _ _ ih => exact Closes.escape ['\\', c] h ih (by simp) (one_le_heavy _)
  | case11 _ t _ ih =>
    obtain ⟨x, s', he, hb, rfl⟩ := push_eq_some.mp h
    cases he
    exact (ih hb).push ['\r', '\n'] (by simp) (by decide)
  | case12 _ t _ ih => exact Closes.char h ih
  | case13 => cases h
  | case14 _ c t _ _ _ _ _ _ _ _ _ _ _ ih => exact Closes.char h ih

theorem multiLiteral_closes (h : multiLiteral t = some (s, r)) : Closes '\'' t s r := by
  fun_induction multiLiteral t generalizing s with
  | case1 => cases h
  | case2 t =>
    have hc := closes_closing '\'' t
    rwa [Option.some.inj h] at hc
  | case3 t ih =>
    obtain ⟨x, s', he, hb, rfl⟩ := push_eq_some.mp h
    cases he
    exact (ih hb).push ['\r', '\n'] (by simp) (by decide)
  | case4 t ih => exact Closes.char h ih
  | case5 => cases h
  | case6 c t _ _ _ _ ih => exact Closes.char h ih

theorem Closes.behindNewline {q : Char} (h : Closes q (behindNewline t) s r) : Closes q t s r := by
  unfold Toml.behindNewline at h
  split at h
  · exact h.skip ['\n']
  · exact h.skip ['\r', '\n']
  · exact h

theorem string_basic (h : ¬['"', '"'] <+: t) : string ('"' :: t) = basic t := by
  rw [string]
  rintro u rfl
  exact h (List.prefix_append ['"', '"'] u)

/-- A string in double quotes ends on its line, or with three quotes. -/
theorem string_cases (h : string ('"' :: t) = some (s, r)) :
    (∃ raw, t = raw ++ '"' :: r ∧ '\n' ∉ raw ∧ Spells isPlain raw s) ∨
      ∃ u, t = '"' :: '"' :: u ∧ Closes '"' u s r := by
  by_cases hp : ['"', '"'] <+: t
  · obtain ⟨u, rfl⟩ := hp
    exact .inr ⟨u, rfl, (multiBasic_closes h).behindNewline⟩
  · rw [string_basic hp] at h
    exact .inl (basic_raw h)

theorem heavy_append (t u : List Char) : heavy (t ++ u) = heavy t + heavy u :=
  List.countP_append

theorem heavy_cons (h : isHeavy c = true) (t : List Char) : heavy (c :: t) = heavy t + 1 :=
  List.countP_cons_of_pos h

theorem Spells.heavy_le {ok : Char → Bool} {raw : List Char} (h : Spells ok raw s) :
    heavy s ≤ heavy raw := by
  rcases h with ⟨rfl, -⟩ | ⟨-, hw⟩
  · exact Nat.le_refl _
  · exact Nat.le_of_lt hw

theorem Spells.length_le {ok : Char → Bool} {raw : List Char} (h : Spells ok raw s) :
    s.length ≤ raw.length := by
  rcases h with ⟨rfl, -⟩ | ⟨hl, -⟩
  · exact Nat.le_refl _
  · exact Nat.le_of_lt hl

theorem Closes.heavy_le {q : Char} (hq : isHeavy q = true) (h : Closes q t s r) :
    heavy s + heavy r + 3 ≤ heavy t := by
  obtain ⟨body, rfl, -, hw⟩ := h
  rw [heavy_append, heavy_cons hq, heavy_cons hq, heavy_cons hq]
  omega

theorem string_heavy (h : string t = some (s, r)) : heavy s + heavy r + 2 ≤ heavy t := by
  have hd : isHeavy '"' = true := by decide
  have hs : isHeavy '\'' = true := by decide
  unfold string at h
  split at h
  · have hw := (multiBasic_closes h).behindNewline.heavy_le hd
    rw [heavy_cons hd, heavy_cons hd, heavy_cons hd]
    omega
  · obtain ⟨raw, rfl, -, hraw⟩ := basic_raw h
    have hw := hraw.heavy_le
    rw [heavy_cons hd, heavy_append, heavy_cons hd]
    omega
  · have hw := (multiLiteral_closes h).behindNewline.heavy_le hs
    rw [heavy_cons hs, heavy_cons hs, heavy_cons hs]
    omega
  · obtain ⟨rfl, -⟩ := literal_raw h
    rw [heavy_cons hs, heavy_append, heavy_cons hs]
    omega
  · cases h

def escapeChar (c : Char) : List Char :=
  if c = '\\' then ['\\', '\\'] else if c = '"' then ['\\', '"'] else [c]

/-- A string with its quotes and backslashes escaped, and nothing else. -/
def escape (s : List Char) : List Char := s.flatMap escapeChar

theorem basic_escapeChar (c : Char) (t : List Char) :
    basic (escapeChar c ++ t) = if isControl c then none else push (some c) (basic t) := by
  unfold escapeChar
  split
  next hc =>
    subst hc
    rw [List.cons_append, List.cons_append, List.nil_append, basic]
    · rfl
    · rintro a b c d u ⟨⟩
    · rintro a b c d e f g k u ⟨⟩
  next hslash =>
    split
    next hc =>
      subst hc
      rw [List.cons_append, List.cons_append, List.nil_append, basic]
      · rfl
      · rintro a b c d u ⟨⟩
      · rintro a b c d e f g k u ⟨⟩
    next hq =>
      rw [List.cons_append, List.nil_append, basic]
      · exact hq
      · rintro a b c d u rfl
        exact absurd rfl hslash
      · rintro a b c d e f g k u rfl
        exact absurd rfl hslash
      · rintro d u rfl
        exact absurd rfl hslash

/-- An escaped string comes back unless it holds a control character. -/
theorem basic_escape (s r : List Char) : basic (escape s ++ '"' :: r) =
    if s.all (fun c => !isControl c) then some (s, r) else none := by
  induction s with
  | nil => rfl
  | cons c s ih =>
    have hcons : escape (c :: s) = escapeChar c ++ escape s := List.flatMap_cons
    rw [hcons, List.append_assoc, basic_escapeChar, ih, List.all_cons]
    cases isControl c with
    | true => rfl
    | false =>
      cases s.all fun c => !isControl c <;> rfl

theorem string_escape (hr : r.head? ≠ some '"') : string ('"' :: (escape s ++ '"' :: r)) =
    if s.all (fun c => !isControl c) then some (s, r) else none := by
  rw [string_basic, basic_escape]
  rintro ⟨u, hu⟩
  cases s with
  | nil =>
    cases hu
    exact hr rfl
  | cons c s =>
    have hcons : escape (c :: s) = escapeChar c ++ escape s := List.flatMap_cons
    rw [hcons, escapeChar] at hu
    split at hu
    · cases hu
    · split at hu
      · cases hu
      next hq =>
        exact hq (List.cons.inj hu).1.symm

theorem escape_plain (h : ∀ c ∈ s, isPlain c = true) : escape s = s := by
  induction s with
  | nil => rfl
  | cons c s ih =>
    obtain ⟨hc, hs⟩ := List.forall_mem_cons.mp h
    simp only [isPlain, Bool.and_eq_true, decide_eq_true_eq, ne_eq] at hc
    rw [escape, List.flatMap_cons, escapeChar, if_neg hc.2, if_neg hc.1.2]
    exact congrArg (c :: ·) (ih hs)

/-- A plain string is read as it stands. -/
theorem string_plain (h : ∀ c ∈ s, isPlain c = true) (hr : r.head? ≠ some '"') :
    string ('"' :: (s ++ '"' :: r)) = some (s, r) := by
  have hall : s.all (fun c => !isControl c) = true := by
    rw [List.all_eq_true]
    intro c hc
    have hp := h c hc
    simp only [isPlain, Bool.and_eq_true] at hp
    exact hp.1.1
  have hread := string_escape (s := s) hr
  rwa [escape_plain h, if_pos hall] at hread

end Readings

end FleetOrchestrator.Encoding.Toml
