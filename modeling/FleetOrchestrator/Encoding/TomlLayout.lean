import FleetOrchestrator.Encoding.Lines
import FleetOrchestrator.Encoding.TomlQuoting
import Mathlib.Data.List.Basic

/-! Sequences that are cut wherever an automaton comes to rest. -/

namespace FleetOrchestrator.Encoding

/-- It takes the automaton to rest, and does so at its end only. -/
inductive Chunk {σ α : Type} (step : σ → α → σ) (rest : σ) : σ → List α → Prop
  | last {s : σ} {a : α} (h : step s a = rest) : Chunk step rest s [a]
  | more {s : σ} {a : α} {c : List α} (h : step s a ≠ rest)
      (hc : Chunk step rest (step s a) c) : Chunk step rest s (a :: c)

structure Cut {σ α : Type} (step : σ → α → σ) (rest : σ) (l : List α) (cs : List (List α)) :
    Prop where
  flatten : cs.flatten = l
  chunk : ∀ c ∈ cs, Chunk step rest rest c

section Chunks

variable {σ α : Type} {step : σ → α → σ} {rest s : σ} {a : α} {c d l m : List α}
  {cs ds : List (List α)}

theorem Chunk.ne_nil (h : Chunk step rest s c) : c ≠ [] := by
  cases h with
  | last h => exact List.cons_ne_nil _ _
  | more h hc => exact List.cons_ne_nil _ _

/-- No chunk goes on where another one has ended. -/
theorem Chunk.unique (h : Chunk step rest s c) (h' : Chunk step rest s d) (he : c ++ l = d ++ m) :
    c = d ∧ l = m := by
  induction h generalizing d with
  | last hs =>
    cases h' with
    | last hs' =>
      obtain ⟨rfl, rfl⟩ := List.cons.inj he
      exact ⟨rfl, rfl⟩
    | more hs' hd =>
      obtain ⟨rfl, -⟩ := List.cons.inj he
      exact absurd hs hs'
  | more hs hc ih =>
    cases h' with
    | last hs' =>
      obtain ⟨rfl, -⟩ := List.cons.inj he
      exact absurd hs' hs
    | more hs' hd =>
      obtain ⟨rfl, htail⟩ := List.cons.inj he
      obtain ⟨rfl, rfl⟩ := ih hd htail
      exact ⟨rfl, rfl⟩

theorem Cut.nil : Cut step rest [] [] := ⟨rfl, fun _ h => absurd h List.not_mem_nil⟩

theorem Cut.cons (hc : Chunk step rest rest c) (h : Cut step rest l cs) :
    Cut step rest (c ++ l) (c :: cs) where
  flatten := by rw [List.flatten_cons, h.flatten]
  chunk := List.forall_mem_cons.mpr ⟨hc, h.chunk⟩

theorem Cut.append (h : Cut step rest l cs) (h' : Cut step rest m ds) :
    Cut step rest (l ++ m) (cs ++ ds) where
  flatten := by rw [List.flatten_append, h.flatten, h'.flatten]
  chunk := List.forall_mem_append.mpr ⟨h.chunk, h'.chunk⟩

theorem Cut.behind (hc : Chunk step rest rest c) (h : Cut step rest (c ++ l) cs) :
    ∃ ds, cs = c :: ds ∧ Cut step rest l ds := by
  obtain ⟨hflat, hchunk⟩ := h
  cases cs with
  | nil => exact absurd hflat.symm (List.append_ne_nil_of_left_ne_nil hc.ne_nil _)
  | cons d ds =>
    obtain ⟨hd, hds⟩ := List.forall_mem_cons.mp hchunk
    obtain ⟨rfl, hrest⟩ := hd.unique hc hflat
    exact ⟨ds, rfl, hrest, hds⟩

theorem Cut.head (h : Cut step rest (a :: l) cs) : ∃ c ds, cs = (a :: c) :: ds := by
  obtain ⟨hflat, hchunk⟩ := h
  cases cs with
  | nil => cases hflat
  | cons c cs =>
    obtain ⟨b, c, rfl⟩ := List.exists_cons_of_ne_nil (hchunk c List.mem_cons_self).ne_nil
    obtain ⟨rfl, -⟩ := List.cons.inj hflat
    exact ⟨c, cs, rfl⟩

theorem Cut.unique (h : Cut step rest l cs) (h' : Cut step rest l ds) : cs = ds := by
  induction cs generalizing l ds with
  | nil =>
    obtain ⟨rfl, -⟩ := h
    cases ds with
    | nil => rfl
    | cons d ds =>
      have hd := (h'.chunk d List.mem_cons_self).ne_nil
      exact absurd h'.flatten (List.append_ne_nil_of_left_ne_nil hd _)
  | cons c cs ih =>
    obtain ⟨hc, hcs⟩ := List.forall_mem_cons.mp h.chunk
    have hflat : c ++ cs.flatten = l := h.flatten
    subst hflat
    obtain ⟨ds, rfl, hds⟩ := h'.behind hc
    rw [ih ⟨rfl, hcs⟩ hds]

/-- A sequence in two parts is cut between them, or a chunk goes across. -/
theorem Cut.split (h : Cut step rest (l ++ m) cs) :
    (∃ xs ys, cs = xs ++ ys ∧ Cut step rest l xs ∧ Cut step rest m ys) ∨
      ∃ xs c d ys, cs = xs ++ (c ++ d) :: ys ∧ c ≠ [] ∧ d ≠ [] ∧ m = d ++ ys.flatten := by
  induction cs generalizing l with
  | nil =>
    obtain ⟨rfl, rfl⟩ := List.append_eq_nil_iff.mp h.flatten.symm
    exact .inl ⟨[], [], rfl, .nil, .nil⟩
  | cons c cs ih =>
    obtain ⟨hc, hcs⟩ := List.forall_mem_cons.mp h.chunk
    have hflat : c ++ cs.flatten = l ++ m := h.flatten
    rcases List.append_eq_append_iff.mp hflat with ⟨l', rfl, htail⟩ | ⟨d, rfl, rfl⟩
    · rcases ih ⟨htail, hcs⟩ with ⟨xs, ys, rfl, hl, hm⟩ | ⟨xs, c', d, ys, rfl, hne, hd, hm⟩
      · exact .inl ⟨c :: xs, ys, rfl, hl.cons hc, hm⟩
      · exact .inr ⟨c :: xs, c', d, ys, rfl, hne, hd, hm⟩
    · by_cases hl : l = []
      · subst hl
        exact .inl ⟨[], d :: cs, rfl, .nil, rfl, h.chunk⟩
      · by_cases hd : d = []
        · subst hd
          rw [List.append_nil] at hc
          refine .inl ⟨[l], cs, by rw [List.append_nil]; rfl, ?_, rfl, hcs⟩
          exact ⟨List.append_nil l, List.forall_mem_singleton.mpr hc⟩
        · exact .inr ⟨[], l, d, cs, rfl, hl, hd, rfl⟩

end Chunks

end FleetOrchestrator.Encoding

/-! The lines of a TOML document in their expressions: headers, entries with all the lines that
their values take, comments and blank lines. -/

namespace FleetOrchestrator.Encoding.Toml

/-- A string is open once a character that is no quote, or a third one, is behind its quotes. -/
inductive Mode where
  | plain
  | comment
  | opening (quote : Char) (two : Bool)
  | single (quote : Char) (escaped : Bool)
  | multi (quote : Char) (escaped : Bool) (quotes : ℕ)
  | closing (quote : Char) (more : ℕ)
  | broken
  deriving DecidableEq

/-- A place in a text, within so many brackets. -/
structure Place where
  mode : Mode := .plain
  depth : ℕ := 0
  deriving DecidableEq

namespace Place

def outside (d : ℕ) (c : Char) : Place :=
  if c = '#' then ⟨.comment, d⟩
  else if c = '"' ∨ c = '\'' then ⟨.opening c false, d⟩
  else if c = '[' ∨ c = '{' then ⟨.plain, d + 1⟩
  else if c = ']' ∨ c = '}' then ⟨.plain, d - 1⟩
  else ⟨.plain, d⟩

def escapes (quote c : Char) : Bool := c = '\\' && quote = '"'

/-- Up to two quotes behind the closing three belong to the string. -/
def next (s : Place) (c : Char) : Place :=
  if isControl c then ⟨.broken, s.depth⟩
  else
    match s.mode with
    | .plain => outside s.depth c
    | .comment => s
    | .opening q false =>
      if c = q then ⟨.opening q true, s.depth⟩ else ⟨.single q (escapes q c), s.depth⟩
    | .opening q true => if c = q then ⟨.multi q false 0, s.depth⟩ else outside s.depth c
    | .single q true => ⟨.single q false, s.depth⟩
    | .single q false =>
      if c = q then ⟨.plain, s.depth⟩ else ⟨.single q (escapes q c), s.depth⟩
    | .multi q true _ => ⟨.multi q false 0, s.depth⟩
    | .multi q false n =>
      if c = q then if n = 2 then ⟨.closing q 0, s.depth⟩ else ⟨.multi q false (n + 1), s.depth⟩
      else ⟨.multi q (escapes q c) 0, s.depth⟩
    | .closing q n =>
      if c = q ∧ n < 2 then ⟨.closing q (n + 1), s.depth⟩ else outside s.depth c
    | .broken => s

def endLine (s : Place) : Place :=
  match s.mode with
  | .plain | .comment | .opening _ true | .closing _ _ => ⟨.plain, s.depth⟩
  | .multi q _ _ => ⟨.multi q false 0, s.depth⟩
  | .opening _ false | .single _ _ | .broken => ⟨.broken, s.depth⟩

def behindLine (s : Place) (l : List Char) : Place := (l.foldl next s).endLine

def isOutside (s : Place) : Bool :=
  match s.mode with
  | .plain | .opening _ true | .closing _ _ => true
  | _ => false

end Place

/-- A key with its dots, and what follows it. -/
def dotted : ℕ → List Char → Option (Path × List Char)
  | 0, _ => none
  | n + 1, t =>
    match simpleKey t with
    | none => none
    | some (k, r) =>
      match skip r with
      | '.' :: u => (dotted n (skip u)).map fun (p, r) => (k :: p, r)
      | u => some ([k], u)

def key (t : List Char) : Option (Path × List Char) := dotted t.length t

inductive Kind where
  | blank
  | comment
  | header (table : Path)
  | entry (path : Path) (inline : Bool)
  | unknown
  deriving DecidableEq

/-- What begins with a line: the header of a table or of the next table of an array, or an entry,
which may have an inline table. -/
def kindOf (l : List Char) : Kind :=
  match skip l with
  | [] => .blank
  | '#' :: _ => .comment
  | '[' :: '[' :: t =>
    match key (skip t) with
    | some (p, ']' :: ']' :: _) => .header p
    | _ => .unknown
  | '[' :: t =>
    match key (skip t) with
    | some (p, ']' :: _) => .header p
    | _ => .unknown
  | t =>
    match key t with
    | some (p, '=' :: u) => .entry p ((skip u).head? = some '{')
    | _ => .unknown

abbrev Expression := List (List Char)

namespace Expression

def kind (e : Expression) : Kind := kindOf (e.headD [])

/-- The table that the lines from this one on are in. -/
def table (t : Path) (e : Expression) : Path :=
  match e.kind with
  | .header p => p
  | _ => t

end Expression

/-- What is behind the value that an inline table goes on with. -/
def behindValue : Place → List Char → List Char
  | _, [] => []
  | s, c :: t =>
    if s.isOutside && s.depth = 0 && (c = ',' || c = '}') then c :: t
    else behindValue (if c = '\n' then s.endLine else s.next c) t

/-- Whether an inline table holds another one; its text begins behind the brace. -/
def holdsTable : ℕ → List Char → Bool
  | 0, _ => false
  | n + 1, t =>
    match key (skip t) with
    | some (p, '=' :: u) =>
      2 ≤ p.length || (skip u).head? = some '{' ||
        match behindValue {} u with
        | ',' :: r => holdsTable n r
        | _ => false
    | _ => false

def Expression.holdsTable (e : Expression) : Bool :=
  match key (skip (unlines e)) with
  | some (_, '=' :: u) =>
    match skip u with
    | '{' :: t => Toml.holdsTable t.length t
    | _ => false
  | _ => false

/-- The expressions that are not blank, with the tables that they are in. -/
def located : Path → List Expression → List (Path × Expression)
  | _, [] => []
  | t, e :: es =>
    if e.kind = .blank then located t es else (e.table t, e) :: located (e.table t) es

structure Document where
  text : List Char
  expressions : List Expression
  cut : Cut Place.behindLine {} (lines text) expressions

def Document.located (d : Document) : List (Path × Expression) := Toml.located [] d.expressions

section Places

variable {s : Place} {c : Char} {l : List Char}

theorem next_broken (h : s.mode = .broken) (c : Char) : (s.next c).mode = .broken := by
  obtain ⟨mode, depth⟩ := s
  cases h
  rw [Place.next]
  split <;> rfl

theorem foldl_broken (h : s.mode = .broken) (l : List Char) :
    (l.foldl Place.next s).mode = .broken := by
  induction l generalizing s with
  | nil => exact h
  | cons c l ih => exact ih (next_broken h c)

theorem foldl_control (hc : isControl c = true) (h : c ∈ l) :
    (l.foldl Place.next s).mode = .broken := by
  induction l generalizing s with
  | nil => exact absurd h List.not_mem_nil
  | cons d l ih =>
    rcases List.mem_cons.mp h with rfl | h
    · have hnext : s.next c = ⟨.broken, s.depth⟩ := if_pos hc
      have hmode : (s.next c).mode = .broken := by rw [hnext]
      exact foldl_broken hmode l
    · exact ih h

theorem endLine_broken (h : s.mode = .broken) : s.endLine.mode = .broken := by
  rw [Place.endLine, h]

theorem chunk_broken {e : Expression} (h : s.mode = .broken) :
    ¬ Chunk Place.behindLine {} s e := by
  intro he
  induction he with
  | @last s l hs =>
    have hmode : (s.behindLine l).mode = .broken := endLine_broken (foldl_broken h l)
    rw [hs] at hmode
    cases hmode
  | more hs he ih => exact ih (endLine_broken (foldl_broken h _))

/-- A carriage return is none of the characters of a document. -/
theorem chunk_control {e : Expression} (h : Chunk Place.behindLine {} s e) :
    ∀ l ∈ e, ∀ c ∈ l, isControl c = false := by
  have hline {s : Place} {l : List Char} (hl : (s.behindLine l).mode ≠ .broken) :
      ∀ c ∈ l, isControl c = false := by
    intro c hc
    rw [← Bool.not_eq_true]
    intro hcontrol
    exact hl (endLine_broken (foldl_control hcontrol hc))
  induction h with
  | @last s l hs =>
    intro m hm
    obtain rfl := List.mem_singleton.mp hm
    apply hline (s := s)
    rw [hs]
    exact Mode.noConfusion
  | more hs he ih => exact List.forall_mem_cons.mpr ⟨hline fun h => chunk_broken h he, ih⟩

theorem endLine_endLine (s : Place) : s.endLine.endLine = s.endLine := by
  obtain ⟨mode, depth⟩ := s
  cases mode with
  | opening q two => cases two <;> rfl
  | plain => rfl
  | comment => rfl
  | single q escaped => rfl
  | multi q escaped n => rfl
  | closing q n => rfl
  | broken => rfl

/-- An empty line ends nothing that a line before it has left open. -/
theorem chunk_empty {e x : Expression} (h : Chunk Place.behindLine {} s x) (hx : x = e ++ [[]]) :
    e = [] := by
  induction h generalizing e with
  | last hs => simpa using congrArg List.length hx
  | more hs hc ih =>
    cases e with
    | nil =>
      obtain ⟨rfl, rfl⟩ := List.cons.inj hx
      exact absurd rfl hc.ne_nil
    | cons l e =>
      obtain ⟨rfl, htail⟩ := List.cons.inj hx
      obtain rfl := ih htail
      subst htail
      cases hc with
      | last h => exact absurd ((endLine_endLine _).symm.trans h) hs
      | more _ h => exact absurd rfl h.ne_nil

/-- Blanks stay outside of everything. -/
theorem behindLine_blank (h : skip l = []) : Place.behindLine {} l = {} := by
  have hall : l.foldl Place.next {} = {} := by
    induction l with
    | nil => rfl
    | cons c l ih =>
      rw [skip, List.dropWhile_eq_nil_iff] at h
      obtain ⟨hc, hl⟩ := List.forall_mem_cons.mp h
      have hstay : Place.next {} c = {} := by
        rw [isBlank, Bool.or_eq_true, decide_eq_true_iff, decide_eq_true_iff] at hc
        rcases hc with rfl | rfl <;> rfl
      rw [List.foldl_cons, hstay]
      exact ih (List.dropWhile_eq_nil_iff.mpr hl)
  rw [Place.behindLine, hall]
  rfl

theorem chunk_blank {e : Expression} (h : skip l = []) (he : Chunk Place.behindLine {} {} (l :: e)) :
    e = [] := by
  cases he with
  | last hs => rfl
  | more hs he => exact absurd (behindLine_blank h) hs

end Places

section Layout

variable {l : List Char} {e : Expression} {es ds : List Expression} {ls ms : List (List Char)}
  {t p : Path} {x : Path × Expression} {k : ℕ}

theorem dotted_ne_nil {n : ℕ} {c r : List Char} (h : dotted n c = some (p, r)) : p ≠ [] := by
  cases n with
  | zero => cases h
  | succ n =>
    rw [dotted] at h
    split at h
    · cases h
    · split at h
      · obtain ⟨q, -, hq⟩ := Option.map_eq_some_iff.mp h
        obtain ⟨rfl, -⟩ := Prod.mk.inj hq
        exact List.cons_ne_nil _ _
      · obtain ⟨rfl, -⟩ := Prod.mk.inj (Option.some.inj h)
        exact List.cons_ne_nil _ _

theorem entry_ne_nil {inline : Bool} (h : kindOf l = .entry p inline) : p ≠ [] := by
  unfold kindOf at h
  split at h
  · cases h
  · cases h
  · split at h <;> cases h
  · split at h <;> cases h
  · split at h
    · next hk =>
      cases h
      exact dotted_ne_nil hk
    · cases h

theorem blank_iff : kindOf l = .blank ↔ skip l = [] := by
  constructor
  · intro h
    unfold kindOf at h
    split at h
    · assumption
    · cases h
    · split at h <;> cases h
    · split at h <;> cases h
    · split at h <;> cases h
  · intro h
    rw [kindOf, h]

theorem chunk_kind_blank (he : Chunk Place.behindLine {} {} e) (h : e.kind = .blank) :
    ∃ l, e = [l] ∧ skip l = [] := by
  obtain ⟨l, e, rfl⟩ := List.exists_cons_of_ne_nil he.ne_nil
  have hl : skip l = [] := blank_iff.mp h
  obtain rfl := chunk_blank hl he
  exact ⟨l, rfl, hl⟩

theorem empty_chunk : Chunk Place.behindLine {} {} ([[]] : Expression) := .last rfl

/-- Empty lines at the end are expressions of their own. -/
theorem cut_empties (h : Cut Place.behindLine {} (ls ++ List.replicate k []) es) :
    ∃ ds, es = ds ++ List.replicate k [[]] ∧ Cut Place.behindLine {} ls ds := by
  induction k generalizing es with
  | zero =>
    rw [List.replicate_zero, List.append_nil] at h
    exact ⟨es, (List.append_nil es).symm, h⟩
  | succ k ih =>
    rw [List.replicate_succ', ← List.append_assoc] at h
    have hne : es ≠ [] := by
      rintro rfl
      exact absurd h.flatten (by simp)
    obtain ⟨ds, e, rfl⟩ : ∃ ds e, es = ds ++ [e] :=
      ⟨es.dropLast, es.getLast hne, (List.dropLast_append_getLast hne).symm⟩
    have he := h.chunk e (List.mem_append_right _ (List.mem_singleton_self e))
    obtain ⟨e', l, rfl⟩ : ∃ e' l, e = e' ++ [l] :=
      ⟨e.dropLast, e.getLast he.ne_nil, (List.dropLast_append_getLast he.ne_nil).symm⟩
    have hflat := h.flatten
    rw [List.flatten_append, List.flatten_singleton, ← List.append_assoc] at hflat
    obtain ⟨hfront, hl⟩ := List.append_inj' hflat rfl
    obtain rfl : l = [] := List.singleton_inj.mp hl
    obtain rfl := chunk_empty he rfl
    rw [List.append_nil] at hfront
    obtain ⟨ds', rfl, hds⟩ :=
      ih ⟨hfront, fun c hc => h.chunk c (List.mem_append_left _ hc)⟩
    refine ⟨ds', ?_, hds⟩
    rw [List.replicate_succ', List.append_assoc]
    rfl

theorem cut_append_empties (h : Cut Place.behindLine {} ls ds) (k : ℕ) :
    Cut Place.behindLine {} (ls ++ List.replicate k []) (ds ++ List.replicate k [[]]) := by
  apply h.append
  constructor
  · induction k with
    | zero => rfl
    | succ k ih =>
      rw [List.replicate_succ, List.flatten_cons, ih, List.replicate_succ]
      rfl
  · intro c hc
    rw [List.eq_of_mem_replicate hc]
    exact empty_chunk

theorem located_append (t : Path) (es ds : List Expression) :
    located t (es ++ ds) = located t es ++ located (es.foldl Expression.table t) ds := by
  induction es generalizing t with
  | nil => rfl
  | cons e es ih =>
    rw [List.cons_append, located, located, List.foldl_cons, ih, ih]
    split
    · next h =>
      rw [Expression.table, h]
    · rfl

theorem located_empties (t : Path) (es : List Expression) (k : ℕ) :
    located t (es ++ List.replicate k [[]]) = located t es := by
  have hnone (t : Path) : located t (List.replicate k [[]]) = [] := by
    induction k with
    | zero => rfl
    | succ k ih => exact ih
  rw [located_append, hnone, List.append_nil]

/-- The same lines up to the empty ones at their end. -/
def SameFront (ls ms : List (List Char)) : Prop :=
  ∃ front j k, ls = front ++ List.replicate j [] ∧ ms = front ++ List.replicate k []

theorem SameFront.symm (h : SameFront ls ms) : SameFront ms ls := by
  obtain ⟨front, j, k, hl, hm⟩ := h
  exact ⟨front, k, j, hm, hl⟩

theorem SameFront.cut (h : SameFront ls ms) (hes : Cut Place.behindLine {} ls es) :
    ∃ ds, Cut Place.behindLine {} ms ds ∧ ∀ t, located t ds = located t es := by
  obtain ⟨front, j, k, rfl, rfl⟩ := h
  obtain ⟨ds, rfl, hds⟩ := cut_empties hes
  refine ⟨_, cut_append_empties hds k, fun t => ?_⟩
  rw [located_empties, located_empties]

theorem located_snd (t : Path) (es : List Expression) :
    (located t es).map Prod.snd = es.filter (·.kind ≠ .blank) := by
  induction es generalizing t with
  | nil => rfl
  | cons e es ih =>
    rw [located]
    split
    · next h => rw [ih, List.filter_cons_of_neg (by simpa using h)]
    · next h => rw [List.map_cons, ih, List.filter_cons_of_pos (by simpa using h)]

theorem located_mem (h : x ∈ located t es) :
    x.2 ∈ es ∧ x.2.kind ≠ .blank ∧ x.2.table x.1 = x.1 := by
  have hfix (t : Path) (e : Expression) : e.table (e.table t) = e.table t := by
    rw [Expression.table, Expression.table]
    cases e.kind <;> rfl
  induction es generalizing t with
  | nil => exact absurd h List.not_mem_nil
  | cons e es ih =>
    rw [located] at h
    split at h
    · exact (ih h).imp_left (List.mem_cons_of_mem _)
    · next hb =>
      rcases List.mem_cons.mp h with rfl | h
      · exact ⟨List.mem_cons_self, hb, hfix t e⟩
      · exact (ih h).imp_left (List.mem_cons_of_mem _)

/-- Lines of which no blank one counts are counted in the expressions that are not blank. -/
theorem count_located {f : List Char → Bool} (hf : ∀ l, skip l = [] → f l = false)
    (hes : ∀ e ∈ es, Chunk Place.behindLine {} {} e) (t : Path) :
    es.flatten.countP f = ((located t es).flatMap Prod.snd).countP f := by
  induction es generalizing t with
  | nil => rfl
  | cons e es ih =>
    obtain ⟨he, hrest⟩ := List.forall_mem_cons.mp hes
    rw [List.flatten_cons, List.countP_append, located]
    split
    · next h =>
      obtain ⟨l, rfl, hl⟩ := chunk_kind_blank he h
      rw [ih hrest t, List.countP_singleton, hf l hl, if_neg Bool.false_ne_true, Nat.zero_add]
    · rw [List.flatMap_cons, List.countP_append, ih hrest]

end Layout

section Settings

variable {c : Char} {k a s l v : List Char} {d n : ℕ}

/-- A character that leaves a place outside of strings as it is. -/
def isInert (c : Char) : Bool :=
  !isControl c && !(['#', '"', '\'', '[', ']', '{', '}'].contains c)

theorem next_inert (h : isInert c = true) (d : ℕ) : Place.next ⟨.plain, d⟩ c = ⟨.plain, d⟩ := by
  simp only [isInert, Bool.and_eq_true, Bool.not_eq_true', List.contains_cons, Bool.or_eq_false_iff,
    beq_eq_false_iff_ne] at h
  obtain ⟨hc, h1, h2, h3, h4, h5, h6, h7, -⟩ := h
  have hnext : Place.next ⟨.plain, d⟩ c = Place.outside d c := if_neg (by rw [hc]; decide)
  rw [hnext, Place.outside, if_neg h1, if_neg (not_or.mpr ⟨h2, h3⟩), if_neg (not_or.mpr ⟨h4, h6⟩),
    if_neg (not_or.mpr ⟨h5, h7⟩)]

theorem foldl_inert (h : ∀ c ∈ l, isInert c = true) (d : ℕ) :
    l.foldl Place.next ⟨.plain, d⟩ = ⟨.plain, d⟩ := by
  induction l with
  | nil => rfl
  | cons c l ih =>
    obtain ⟨hc, hl⟩ := List.forall_mem_cons.mp h
    rw [List.foldl_cons, next_inert hc, ih hl]

theorem inert_of_bare (h : isBare c = true) : isInert c = true := by
  have hcontrol : isControl c = false := by
    have hplain := isPlain_of_isBare h
    rw [isPlain, Bool.and_eq_true, Bool.and_eq_true, Bool.not_eq_true'] at hplain
    exact hplain.1.1
  rw [isInert, hcontrol, Bool.not_false, Bool.true_and, Bool.not_eq_true', ← Bool.not_eq_true]
  intro hin
  simp only [List.contains_cons, Bool.or_eq_true, beq_iff_eq, List.contains_nil,
    Bool.false_eq_true, or_false] at hin
  rcases hin with rfl | rfl | rfl | rfl | rfl | rfl | rfl <;> cases h

theorem foldl_escapeChar (hc : isControl c = false) (d : ℕ) :
    (escapeChar c).foldl Place.next ⟨.single '"' false, d⟩ = ⟨.single '"' false, d⟩ ∧
      (escapeChar c).foldl Place.next ⟨.opening '"' false, d⟩ = ⟨.single '"' false, d⟩ := by
  unfold escapeChar
  split
  · exact ⟨rfl, rfl⟩
  next hslash =>
    split
    · exact ⟨rfl, rfl⟩
    next hquote =>
      have hesc : Place.escapes '"' c = false := by simp [Place.escapes, hslash]
      have hneg : ¬ isControl c = true := by simp [hc]
      constructor
      · refine (if_neg hneg).trans ?_
        dsimp only
        rw [if_neg hquote, hesc]
      · refine (if_neg hneg).trans ?_
        dsimp only
        rw [if_neg hquote, hesc]

theorem foldl_escape (h : ∀ c ∈ s, isControl c = false) (d : ℕ) :
    (escape s).foldl Place.next ⟨.single '"' false, d⟩ = ⟨.single '"' false, d⟩ := by
  induction s with
  | nil => rfl
  | cons c s ih =>
    obtain ⟨hc, hs⟩ := List.forall_mem_cons.mp h
    have hcons : escape (c :: s) = escapeChar c ++ escape s := List.flatMap_cons
    rw [hcons, List.foldl_append, (foldl_escapeChar hc d).1, ih hs]

/-- A string with its quotes ends where it is written. -/
theorem behindLine_quoted (h : ∀ c ∈ s, isControl c = false) :
    Place.behindLine {} (quoted (escape s)) = {} := by
  cases s with
  | nil => rfl
  | cons c s =>
    obtain ⟨hc, hs⟩ := List.forall_mem_cons.mp h
    have hcons : quoted (escape (c :: s)) = '"' :: (escapeChar c ++ escape s ++ ['"']) :=
      congrArg quoted List.flatMap_cons
    have hopen : Place.next {} '"' = ⟨.opening '"' false, 0⟩ := rfl
    rw [Place.behindLine, hcons, List.foldl_cons, hopen, List.foldl_append, List.foldl_append,
      (foldl_escapeChar hc 0).2, foldl_escape hs]
    rfl

/-- A bare key with what is set, on one line. -/
def settingLine (k v : List Char) : List Char := k ++ ' ' :: '=' :: ' ' :: v

theorem behindLine_setting (hk : BareKey k) (v : List Char) :
    Place.behindLine {} (settingLine k v) = Place.behindLine {} v := by
  have hbare : k.foldl Place.next {} = {} := foldl_inert (fun c hc => inert_of_bare (hk.2 c hc)) 0
  rw [Place.behindLine, settingLine, List.foldl_append, hbare]
  rfl

theorem key_bare (hk : BareKey k) {r : List Char} (hr : Apart r) (hd : (skip r).head? ≠ some '.') :
    key (k ++ r) = some ([k], skip r) := by
  obtain ⟨n, hn⟩ : ∃ n, (k ++ r).length = n + 1 := by
    apply Nat.exists_eq_succ_of_ne_zero
    simp [hk.1]
  rw [key, hn, dotted, simpleKey_append hk.2 hk.1 hr]
  dsimp only
  split
  next u hu =>
    rw [hu] at hd
    exact absurd rfl hd
  next => rfl

theorem kind_setting (hk : BareKey k) (v : List Char) :
    kindOf (settingLine k v) = .entry [k] ((skip v).head? = some '{') := by
  have hkey : key (settingLine k v) = some ([k], '=' :: ' ' :: v) := key_bare hk rfl nofun
  have hskip : skip (settingLine k v) = settingLine k v := skip_bare hk _
  obtain ⟨c, k', rfl⟩ := List.exists_cons_of_ne_nil hk.1
  have hc : isBare c = true := hk.2 c List.mem_cons_self
  unfold kindOf
  rw [hskip]
  split
  next hnil => cases hnil
  next hcomment =>
    obtain ⟨rfl, -⟩ := List.cons.inj hcomment
    cases hc
  next harray =>
    obtain ⟨rfl, -⟩ := List.cons.inj harray
    cases hc
  next hheader =>
    obtain ⟨rfl, -⟩ := List.cons.inj hheader
    cases hc
  next =>
    rw [hkey]
    rfl

/-- The header of a table below another one. -/
def subheaderLine (a k : List Char) : List Char := '[' :: (a ++ '.' :: (k ++ [']']))

theorem behindLine_subheader (ha : BareKey a) (hk : BareKey k) :
    Place.behindLine {} (subheaderLine a k) = {} := by
  have hbare {l : List Char} (hl : BareKey l) : l.foldl Place.next ⟨.plain, 1⟩ = ⟨.plain, 1⟩ :=
    foldl_inert (fun c hc => inert_of_bare (hl.2 c hc)) 1
  have hopen : Place.next {} '[' = ⟨.plain, 1⟩ := rfl
  have hdot : Place.next ⟨.plain, 1⟩ '.' = ⟨.plain, 1⟩ := rfl
  rw [Place.behindLine, subheaderLine, List.foldl_cons, hopen, List.foldl_append, hbare ha,
    List.foldl_cons, hdot, List.foldl_append, hbare hk]
  rfl

theorem kind_subheader (ha : BareKey a) (hk : BareKey k) :
    kindOf (subheaderLine a k) = .header [a, k] := by
  have hlast : dotted (a.length + k.length + 1) (k ++ [']']) = some ([k], [']']) := by
    have hr : Apart [']'] := rfl
    rw [dotted, simpleKey_append hk.2 hk.1 hr]
    rfl
  have hkey : key (a ++ '.' :: (k ++ [']'])) = some ([a, k], [']']) := by
    have hlength : (a ++ '.' :: (k ++ [']'])).length = a.length + k.length + 1 + 1 := by
      simp only [List.length_append, List.length_cons, List.length_nil]
      omega
    have hr : Apart ('.' :: (k ++ [']'])) := rfl
    rw [key, hlength, dotted, simpleKey_append ha.2 ha.1 hr]
    change (dotted (a.length + k.length + 1) (skip (k ++ [']']))).map _ = _
    rw [skip_bare hk, hlast]
    rfl
  obtain ⟨c, a', rfl⟩ := List.exists_cons_of_ne_nil ha.1
  have hc : isBare c = true := ha.2 c List.mem_cons_self
  have hskip : skip (subheaderLine (c :: a') k) = subheaderLine (c :: a') k := rfl
  unfold kindOf
  rw [hskip]
  split
  next hnil => cases hnil
  next hcomment => cases hcomment
  next harray =>
    obtain ⟨-, harray⟩ := List.cons.inj harray
    obtain ⟨rfl, -⟩ := List.cons.inj harray
    cases hc
  next t _ hheader =>
    obtain ⟨-, rfl⟩ := List.cons.inj hheader
    rw [skip_bare ha, hkey]
    rfl
  next hother => exact absurd rfl (hother _)

/-- Lines that each end what they begin are expressions of their own. -/
theorem cut_lines {ls : List (List Char)} (h : ∀ l ∈ ls, Place.behindLine {} l = {}) :
    Cut Place.behindLine {} (lines (unlines ls)) (ls.map fun l => [l]) := by
  have hcontrol : ∀ l ∈ ls, ∀ c ∈ l, isControl c = false := fun l hl =>
    chunk_control (.last (h l hl)) l (List.mem_singleton_self l)
  have hnewline : ∀ l ∈ ls, '\n' ∉ l := fun l hl hc => by cases hcontrol l hl _ hc
  have hchomp : ∀ l ∈ ls, chomp l = l := by
    intro l hl
    apply if_neg
    intro hlast
    cases hcontrol l hl _ (List.mem_of_getLast? hlast)
  constructor
  · rw [lines_unlines hnewline, List.map_congr_left hchomp, List.map_id']
    rw [← List.flatMap_def, List.flatMap_singleton']
  · intro e he
    obtain ⟨l, hl, rfl⟩ := List.mem_map.mp he
    exact .last (h l hl)

end Settings

end FleetOrchestrator.Encoding.Toml
