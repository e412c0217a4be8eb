import Mathlib.Data.List.Basic

/-! Shell commands cut into tokens by the quoting rules of POSIX. -/

namespace FleetOrchestrator.Encoding.Shell

/-- A character of a word: taken as it is, or acted upon by the shell, which expands it. -/
inductive Piece where
  | literal (c : Char)
  | active (c : Char)
  deriving DecidableEq

inductive Token where
  | word (pieces : List Piece)
  | operator (c : Char)
  deriving DecidableEq

inductive Quoting where
  | bare
  | single
  | double
  | comment

def isBlank (c : Char) : Bool := c = ' ' || c = '\t'

def isOperator (c : Char) : Bool := ['|', '&', ';', '<', '>', '(', ')', '\n'].contains c

/-- The expansions that double quotes let through. -/
def isExpansion (c : Char) : Bool := c = '$' || c = '`'

/-- Parameters, commands and patterns, and a home directory in front of a word. -/
def isActive (start : Bool) (c : Char) : Bool :=
  isExpansion c || ['*', '?', '['].contains c || start && c = '~'

def put (w : Option (List Piece)) (p : Piece) : Option (List Piece) := some (w.getD [] ++ [p])

def close : Option (List Piece) → List Token → List Token
  | none, ts => ts
  | some w, ts => .word w :: ts

/-- The tokens of the rest, where `w` has been read of the current word; `none` if a quotation is
left open. -/
def lex : Quoting → Option (List Piece) → List Char → Option (List Token)
  | .bare, w, [] => some (close w [])
  | .comment, _, [] => some []
  | .single, _, [] | .double, _, [] => none
  | .single, w, c :: cs =>
    if c = '\'' then lex .bare w cs else lex .single (put w (.literal c)) cs
  | .double, w, '\\' :: d :: cs =>
    if d = '\n' then lex .double w cs
    else if isExpansion d || d = '"' || d = '\\' then lex .double (put w (.literal d)) cs
    else lex .double (put (put w (.literal '\\')) (.literal d)) cs
  | .double, w, c :: cs =>
    if c = '"' then lex .bare w cs
    else lex .double (put w (if isExpansion c then .active c else .literal c)) cs
  | .comment, _, c :: cs =>
    if c = '\n' then (lex .bare none cs).map (.operator c :: ·) else lex .comment none cs
  | .bare, w, '\\' :: d :: cs => lex .bare (if d = '\n' then w else put w (.literal d)) cs
  | .bare, w, c :: cs =>
    if c = '\'' then lex .single (some (w.getD [])) cs
    else if c = '"' then lex .double (some (w.getD [])) cs
    else if isBlank c then (lex .bare none cs).map (close w)
    else if isOperator c then (lex .bare none cs).map fun ts => close w (.operator c :: ts)
    else if c = '#' && w.isNone then lex .comment none cs
    else lex .bare (put w (if isActive w.isNone c then .active c else .literal c)) cs

/-- The token that is exactly this text, nothing of it acted upon. -/
def argument (text : List Char) : Token := .word (text.map .literal)

/-- A quotation in single quotes; a single quote inside ends it for as long as it takes. -/
def quote (text : List Char) : List Char :=
  '\'' :: text.flatMap (fun c => if c = '\'' then ['\'', '\\', '\'', '\''] else [c]) ++ ['\'']

/-- A character that stands for itself wherever it stands. -/
def isPlain (c : Char) : Bool :=
  !(isBlank c || isOperator c || isActive true c || ['\'', '"', '\\', '#'].contains c)

/-- A text that is read as this argument, whatever comes behind it. -/
def Shows (text arg : List Char) : Prop :=
  ∀ rest, lex .bare none (text ++ rest) = lex .bare (some (arg.map .literal)) rest

section Reading

variable {text arg rest : List Char} {texts args : List (List Char)} {w : List Piece} {c : Char}

theorem lex_quotation (text rest : List Char) (w : List Piece) :
    lex .single (some w) (text.flatMap (fun c => if c = '\'' then ['\'', '\\', '\'', '\''] else [c]) ++
      '\'' :: rest) = lex .bare (some (w ++ text.map .literal)) rest := by
  induction text generalizing w with
  | nil => simp [lex]
  | cons c text ih =>
    rw [List.flatMap_cons, List.map_cons]
    by_cases hc : c = '\''
    · subst hc
      have h := ih (w ++ [.literal '\''])
      rw [List.append_assoc] at h
      simpa [lex, put] using h
    · have h := ih (w ++ [.literal c])
      rw [List.append_assoc] at h
      simpa [lex, put, hc] using h

theorem shows_quote (text : List Char) : Shows (quote text) text := by
  intro rest
  have h := lex_quotation text rest []
  simpa [quote, lex] using h

theorem lex_plain (h : isPlain c = true) (rest : List Char) (w : Option (List Piece)) :
    lex .bare w (c :: rest) = lex .bare (put w (.literal c)) rest := by
  simp only [isPlain, Bool.not_eq_true', Bool.or_eq_false_iff, List.contains_eq_mem,
    decide_eq_false_iff_not, List.mem_cons, List.not_mem_nil, or_false, not_or] at h
  obtain ⟨⟨⟨hblank, hop⟩, hactive⟩, hsingle, hdouble, hback, hhash⟩ := h
  have hact : isActive w.isNone c = false := by
    simp only [isActive, Bool.or_eq_false_iff, Bool.and_eq_false_imp] at hactive ⊢
    exact ⟨hactive.1, fun _ => hactive.2 trivial⟩
  rw [lex]
  · simp [hsingle, hdouble, hblank, hop, hhash, hact]
  · rintro d cs rfl
    exact absurd rfl hback

theorem shows_plain (h : text.all isPlain = true) (hne : text ≠ []) : Shows text text := by
  rw [List.all_eq_true] at h
  have hmore (text rest : List Char) (w : List Piece) (h : ∀ c ∈ text, isPlain c = true) :
      lex .bare (some w) (text ++ rest) = lex .bare (some (w ++ text.map .literal)) rest := by
    induction text generalizing w with
    | nil => simp
    | cons c text ih =>
      rw [List.cons_append, lex_plain (h c List.mem_cons_self)]
      have hrest := ih (w ++ [.literal c]) fun d hd => h d (.tail _ hd)
      rw [List.append_assoc] at hrest
      exact hrest
  intro rest
  cases text with
  | nil => exact absurd rfl hne
  | cons c text =>
    rw [List.cons_append, lex_plain (h c List.mem_cons_self)]
    exact hmore text rest [.literal c] fun d hd => h d (.tail _ hd)

/-- Texts behind blanks are read as their arguments, and as nothing else. -/
theorem lex_texts (h : List.Forall₂ Shows texts args) (w : List Char) :
    lex .bare (some (w.map .literal)) (texts.flatMap (' ' :: ·)) =
      some (argument w :: args.map argument) := by
  induction h generalizing w with
  | nil => rfl
  | @cons text arg texts args hs _ ih =>
    have hread : lex .bare none (text ++ texts.flatMap (' ' :: ·)) =
        some (argument arg :: args.map argument) := by rw [hs, ih]
    have hblank : lex .bare (some (w.map .literal)) (' ' :: (text ++ texts.flatMap (' ' :: ·))) =
        (lex .bare none (text ++ texts.flatMap (' ' :: ·))).map (close (some (w.map .literal))) := by
      rw [lex]
      · rfl
      · rintro d cs ⟨⟩
    rw [List.flatMap_cons, List.cons_append, hblank, hread]
    rfl

theorem lex_command (hc : Shows text arg) (h : List.Forall₂ Shows texts args) :
    lex .bare none (text ++ texts.flatMap (' ' :: ·)) = some ((arg :: args).map argument) := by
  rw [hc, lex_texts h]
  rfl

end Reading

end FleetOrchestrator.Encoding.Shell
