import FleetOrchestrator.Encoding.TomlLayout
import FleetOrchestrator.Provision.MergeConfig
import FleetOrchestrator.Provision.Sections

/-! What a merge leaves of the tables of a configuration file. -/

namespace FleetOrchestrator.Provision

open Encoding Encoding.Toml

/-- How much of an expression is of the tables below `model`. -/
inductive Share where
  | none
  | whole
  | part
  deriving DecidableEq

/-- A path of a table below `model`, or within one. -/
def ofModel (p : Path) : Bool := p.head? = some "model".toList && 2 ≤ p.length

def entryShare (path : Path) (inline : Bool) (e : Expression) : Share :=
  if path = ["model".toList] then if inline && e.holdsTable then .part else .none
  else if ofModel path && (3 ≤ path.length || inline) then .whole
  else .none

/-- A comment is of the table that it is in. -/
def share (x : Path × Expression) : Share :=
  match x.2.kind with
  | .entry p inline => entryShare (x.1 ++ p) inline x.2
  | _ => if ofModel x.1 then .whole else .none

def others (xs : List (Path × Expression)) : List (Path × Expression) :=
  xs.filter fun x => share x ≠ .whole

def models (xs : List (Path × Expression)) : List (Path × Expression) :=
  xs.filter fun x => share x ≠ .none

/-- The table of one credential. -/
structure CredentialSection where
  text : List Char
  header : Line
  table : Path
  body : List Expression
  cut : Cut Place.behindLine {} (lines text) ([header] :: body)
  kind : kindOf header = .header table
  ofModel : ofModel table = true
  looks : isHeader header = true ∧ isModelHeader header = true
  bodyLooks : ∀ l ∈ body.flatten, isHeader l = false
  bodyKind : ∀ e ∈ body, ∀ p, e.kind ≠ .header p

def CredentialSection.located (s : CredentialSection) : List (Path × Expression) :=
  Toml.located [] ([s.header] :: s.body)

/-- The merge is a document, which has the model tables of the sections and everything else of what
existed. -/
def Merged (Valid : List Expression → Prop) (d : Document) (ss : List CredentialSection) : Prop :=
  ∃ d' : Document, d'.text = mergeConfig d.text (ss.map (·.text)) ∧
    Valid (d'.located.map Prod.snd) ∧ others d'.located = others d.located ∧
    models d'.located = ss.flatMap (·.located)

/-- Every expression is of the model tables or not as its first line tells, or else the expression
before it, and no other line of it looks like a header that tells otherwise. -/
def Told : Bool → List (Path × Expression) → Prop
  | _, [] => True
  | before, x :: xs =>
    share x ≠ .part ∧ inModelSection before (x.2.headD []) = decide (share x = .whole) ∧
      (∀ l ∈ x.2.tail, isHeader l = true → isModelHeader l = decide (share x = .whole)) ∧
      Told (decide (share x = .whole)) xs

section Shares

variable {x : Path × Expression} {xs : List (Path × Expression)} {e o : Expression} {t p : Path}
  {es : List Expression}

theorem share_header (h : e.kind = .header p) (t : Path) :
    share (t, e) = if ofModel t then .whole else .none := by
  rw [share, h]

theorem share_ofModel (h : ofModel t = true) (e : Expression) : share (t, e) = .whole := by
  rw [share]
  split
  next p inline hk =>
    have hp := entry_ne_nil hk
    rw [ofModel, Bool.and_eq_true, decide_eq_true_iff, decide_eq_true_iff] at h
    have hhead : (t ++ p).head? = some "model".toList := by
      rw [List.head?_append, h.1]
      rfl
    have hlength : 3 ≤ (t ++ p).length := by
      have hpos := List.length_pos_iff.mpr hp
      rw [List.length_append]
      omega
    have hne : t ++ p ≠ ["model".toList] := by
      intro he
      rw [he] at hlength
      exact absurd hlength (by decide)
    have hmodel : ofModel (t ++ p) = true := by
      rw [ofModel, hhead, Bool.and_eq_true, decide_eq_true_iff, decide_eq_true_iff]
      exact ⟨rfl, Nat.le_of_succ_le hlength⟩
    rw [entryShare, if_neg hne, hmodel, decide_eq_true hlength]
    rfl
  next => rw [if_pos h]

/-- What is of the model tables is so by its first line and the table that it is in. -/
theorem share_first (h : share (t, e) = .whole) (hfirst : o.headD [] = e.headD []) :
    share (t, o) = .whole := by
  have hkind : o.kind = e.kind := congrArg kindOf hfirst
  rw [share] at h
  rw [share, hkind]
  cases hk : e.kind with
  | entry p inline =>
    rw [hk] at h
    dsimp only at h ⊢
    rw [entryShare] at h
    split at h
    · split at h <;> cases h
    · next hne =>
      rw [entryShare, if_neg hne]
      exact h
  | _ =>
    rw [hk] at h
    exact h

theorem mem_others : x ∈ others xs ↔ x ∈ xs ∧ share x ≠ .whole := by simp [others]

theorem mem_models : x ∈ models xs ↔ x ∈ xs ∧ share x ≠ .none := by simp [models]

/-- Behind what is of the model tables, so is the table, unless it is the same. -/
theorem table_whole (h : share (e.table t, e) = .whole) :
    e.table t = t ∨ ofModel (e.table t) = true := by
  cases hk : e.kind with
  | header p =>
    right
    rw [share_header hk] at h
    by_contra hp
    rw [if_neg hp] at h
    cases h
  | _ =>
    left
    rw [Expression.table, hk]

theorem table_other {t' : Path} (h : share (e.table t, e) ≠ .whole)
    (ht : t' = t ∨ ofModel t = true) : e.table t' = e.table t := by
  rw [Expression.table] at h
  rw [Expression.table, Expression.table]
  cases hk : e.kind with
  | header p => rfl
  | _ =>
    rw [hk] at h
    exact ht.resolve_right fun hp => h (share_ofModel hp e)

/-- The first of the others is a header, or in the table that is gone on with. -/
theorem first_other {ys : List (Path × Expression)} (h : others (located t es) = x :: ys) :
    (∃ p, x.2.kind = .header p) ∨ x.1 = t := by
  induction es generalizing t with
  | nil => cases h
  | cons e es ih =>
    rw [located] at h
    split at h
    · exact ih h
    · rw [others, List.filter_cons] at h
      split at h
      · obtain ⟨rfl, -⟩ := List.cons.inj h
        rw [Expression.table]
        split
        next p hk => exact .inl ⟨p, hk⟩
        next => exact .inr rfl
      · next hwhole =>
        have hshare : share (e.table t, e) = .whole := by simpa using hwhole
        rcases ih h with hx | hx
        · exact .inl hx
        · refine .inr ((table_whole hshare).elim hx.trans fun hp => ?_)
          have hother := (mem_others.mp (h ▸ List.mem_cons_self)).2
          rw [← Prod.mk.eta (p := x), hx] at hother
          exact absurd (share_ofModel hp _) hother

end Shares

section Scans

variable {b : Bool} {l : Line} {ls ms : List Line} {e : Expression} {es ks : List Expression}
  {t t' : Path} {x : Path × Expression} {xs : List (Path × Expression)}

theorem skip_trimmed (h : skip l = []) : trimmed l = [] := by
  have hwhite : l.dropWhile Core.isWhiteSpace = [] := by
    apply List.dropWhile_eq_nil_iff.mpr
    intro c hc
    have hblank := List.dropWhile_eq_nil_iff.mp h c hc
    rw [isBlank, Bool.or_eq_true, decide_eq_true_iff, decide_eq_true_iff] at hblank
    rcases hblank with rfl | rfl <;> rfl
  rw [trimmed, hwhite]
  rfl

theorem isHeader_blank (h : skip l = []) : isHeader l = false := by
  rw [isHeader, skip_trimmed h]
  rfl

/-- Headers of other tables always stay. -/
theorem count_stripFrom (b : Bool) (ls : List Line) :
    (stripFrom b ls).countP (fun l => isHeader l && !isModelHeader l) =
      ls.countP fun l => isHeader l && !isModelHeader l := by
  induction ls generalizing b with
  | nil => rfl
  | cons l ls ih =>
    rw [stripFrom]
    split
    · next hin =>
      have hl : (isHeader l && !isModelHeader l) = false := by
        rw [inModelSection] at hin
        split at hin
        · rw [hin]
          exact Bool.and_false _
        · next hl => rw [Bool.not_eq_true _ |>.mp hl, Bool.false_and]
      rw [ih, List.countP_cons_of_neg (by rw [hl]; exact Bool.false_ne_true)]
    · rw [List.countP_cons, List.countP_cons, ih]

theorem stripFrom_kept (hl : inModelSection b l = false) (hls : Foreign ls) (ms : List Line) :
    stripFrom b (l :: ls ++ ms) = l :: ls ++ stripFrom false ms := by
  rw [List.cons_append, stripFrom, hl, if_neg Bool.false_ne_true, stripFrom_foreign hls,
    List.cons_append]

theorem stripFrom_dropped (hl : inModelSection b l = true) (hls : Modelled ls) (ms : List Line) :
    stripFrom b (l :: ls ++ ms) = stripFrom true ms := by
  rw [List.cons_append, stripFrom, if_pos hl, stripFrom_modelled hls]

/-- The first line that is kept behind a model section looks like a header. -/
theorem stripFrom_head (h : stripFrom true ls = l :: ms) : isHeader l = true := by
  induction ls with
  | nil => cases h
  | cons m ls ih =>
    rw [stripFrom] at h
    split at h
    · exact ih h
    · next hin =>
      obtain ⟨rfl, -⟩ := List.cons.inj h
      by_contra hm
      rw [inModelSection, if_neg hm] at hin
      exact hin rfl

theorem stripFrom_blank (hl : skip l = []) (b : Bool) (ls : List Line) :
    stripFrom b (l :: ls) = if b then stripFrom b ls else l :: stripFrom b ls := by
  have hin : inModelSection b l = b := by
    rw [inModelSection, isHeader_blank hl, if_neg Bool.false_ne_true]
  rw [stripFrom, hin]
  cases b <;> rfl

/-- What a scan that is told right keeps is the others. -/
theorem kept_cut (hes : ∀ e ∈ es, Chunk Place.behindLine {} {} e) (h : Told b (located t es))
    (ht : t' = t ∨ ofModel t = true) : ∃ ks, Cut Place.behindLine {} (stripFrom b es.flatten) ks ∧
      located t' ks = others (located t es) := by
  induction es generalizing b t t' with
  | nil => exact ⟨[], .nil, rfl⟩
  | cons e es ih =>
    obtain ⟨he, hrest⟩ := List.forall_mem_cons.mp hes
    rw [located] at h ⊢
    split at h
    · next hblank =>
      rw [if_pos hblank]
      obtain ⟨l, rfl, hl⟩ := chunk_kind_blank he hblank
      obtain ⟨ks, hks, hsame⟩ := ih hrest h ht
      rw [List.flatten_cons, List.singleton_append, stripFrom_blank hl]
      split
      · exact ⟨ks, hks, hsame⟩
      · refine ⟨[l] :: ks, hks.cons he, ?_⟩
        rw [located, if_pos hblank, hsame]
    · next hblank =>
      rw [if_neg hblank]
      obtain ⟨hpart, hfirst, hlines, hxs⟩ := h
      obtain ⟨l, ls, rfl⟩ := List.exists_cons_of_ne_nil he.ne_nil
      by_cases hwhole : share (Expression.table t (l :: ls), l :: ls) = .whole
      · rw [decide_eq_true hwhole] at hfirst hlines hxs
        have htable : t' = Expression.table t (l :: ls) ∨
            ofModel (Expression.table t (l :: ls)) = true := by
          rcases table_whole hwhole with hsame | hp
          · rwa [hsame]
          · exact .inr hp
        obtain ⟨ks, hks, hsame⟩ := ih hrest hxs htable
        refine ⟨ks, ?_, ?_⟩
        · have hdrop := stripFrom_dropped (l := l) hfirst hlines es.flatten
          rw [List.flatten_cons]
          exact hdrop ▸ hks
        · rw [hsame, others, others, List.filter_cons_of_neg (by simpa using hwhole)]
      · rw [decide_eq_false hwhole] at hfirst hlines hxs
        obtain ⟨ks, hks, hsame⟩ := ih hrest hxs (.inl rfl)
        refine ⟨(l :: ls) :: ks, ?_, ?_⟩
        · have hkeep := stripFrom_kept (l := l) hfirst hlines es.flatten
          rw [List.flatten_cons]
          exact hkeep ▸ hks.cons he
        · rw [located, if_neg hblank, table_other hwhole ht, hsame, others, others,
            List.filter_cons_of_pos (by simpa using hwhole)]

/-- No line that looks like a header tells anything wrong. -/
def Headed (xs : List (Path × Expression)) : Prop :=
  ∀ x ∈ xs, share x ≠ .part ∧ ∀ l ∈ x.2, isHeader l = true →
    isModelHeader l = decide (share x = .whole)

/-- What is of the model tables does not begin like the first of the others behind it. -/
theorem first_kept (hwhole : share (e.table t, e) = .whole) (hblank : e.kind ≠ .blank)
    (hks : Cut Place.behindLine {} (e.headD [] :: ms) ks) :
    ks.filter (·.kind ≠ .blank) ≠ (others (located (e.table t) es)).map Prod.snd := by
  intro hkept
  obtain ⟨c, ks, rfl⟩ := hks.head
  have hkind : Expression.kind (e.headD [] :: c) = e.kind := rfl
  rw [List.filter_cons_of_pos (by simpa only [hkind, decide_eq_true_eq] using hblank), eq_comm,
    List.map_eq_cons_iff] at hkept
  obtain ⟨x, xs, hothers, hx, -⟩ := hkept
  obtain ⟨hmem, hother⟩ := mem_others.mp (hothers ▸ List.mem_cons_self)
  have hin : x.1 = e.table t := by
    rcases first_other hothers with ⟨p, hp⟩ | hin
    · have hfix := (located_mem hmem).2.2
      have hp' : e.kind = .header p := by rw [← hkind, ← hx, hp]
      rw [Expression.table, hp] at hfix
      rw [Expression.table, hp', ← hfix]
    · exact hin
  rw [← Prod.mk.eta (p := x), hin, hx] at hother
  exact hother (share_first hwhole rfl)

/-- If the first of the others is kept in a model section, it looks like a header. -/
theorem first_dropped {l : Line} {ls ms : List Line}
    (hks : Cut Place.behindLine {} (stripFrom true ms) ks)
    (hkept : ks.filter (·.kind ≠ .blank) = (l :: ls) :: es) : isHeader l = true := by
  cases hms : stripFrom true ms with
  | nil =>
    rw [hms] at hks
    rw [hks.unique .nil] at hkept
    cases hkept
  | cons m ms' =>
    rw [hms] at hks
    obtain ⟨c, ks, rfl⟩ := hks.head
    have hm : isHeader m = true := stripFrom_head hms
    have hblank : Expression.kind (m :: c) ≠ .blank := by
      intro hblank
      have hskip : skip m = [] := blank_iff.mp hblank
      rw [isHeader_blank hskip] at hm
      cases hm
    rw [List.filter_cons_of_pos (by simpa using hblank)] at hkept
    obtain ⟨hl, -⟩ := List.cons.inj hkept
    obtain ⟨rfl, -⟩ := List.cons.inj hl
    exact hm

/-- Where a scan keeps the others and nothing else, it is told right. -/
theorem told_of_kept (hes : ∀ e ∈ es, Chunk Place.behindLine {} {} e)
    (hxs : Headed (located t es)) (hks : Cut Place.behindLine {} (stripFrom b es.flatten) ks)
    (hkept : ks.filter (·.kind ≠ .blank) = (others (located t es)).map Prod.snd) :
    Told b (located t es) := by
  induction es generalizing b t ks with
  | nil => trivial
  | cons e es ih =>
    obtain ⟨he, hrest⟩ := List.forall_mem_cons.mp hes
    obtain ⟨l, ls, rfl⟩ := List.exists_cons_of_ne_nil he.ne_nil
    rw [located] at hxs hkept ⊢
    split at hxs
    · next hblank =>
      rw [if_pos hblank] at hkept ⊢
      obtain ⟨l, hl, hskip⟩ := chunk_kind_blank he hblank
      obtain ⟨rfl, rfl⟩ := List.cons.inj hl
      rw [List.flatten_cons, List.singleton_append, stripFrom_blank hskip] at hks
      split at hks
      · exact ih hrest hxs hks hkept
      · obtain ⟨ks, rfl, htail⟩ := Cut.behind (c := [l]) he hks
        rw [List.filter_cons_of_neg (by simpa using hblank)] at hkept
        exact ih hrest hxs htail hkept
    · next hblank =>
      rw [if_neg hblank] at hkept ⊢
      obtain ⟨hx, hxs⟩ := List.forall_mem_cons.mp hxs
      obtain ⟨hpart, hlooks⟩ := hx
      obtain ⟨hl, hls⟩ := List.forall_mem_cons.mp hlooks
      refine ⟨hpart, ?_⟩
      by_cases hwhole : share (Expression.table t (l :: ls), l :: ls) = .whole
      · rw [decide_eq_true hwhole] at hl hls ⊢
        have hothers : others ((Expression.table t (l :: ls), l :: ls) ::
            located (Expression.table t (l :: ls)) es) =
            others (located (Expression.table t (l :: ls)) es) := by
          rw [others, List.filter_cons_of_neg (by simpa using hwhole), others]
        rw [hothers] at hkept
        have hfirst : inModelSection b l = true := by
          by_contra hin
          rw [List.flatten_cons, List.cons_append, stripFrom, if_neg hin] at hks
          exact first_kept (e := l :: ls) hwhole hblank hks hkept
        have hdrop := stripFrom_dropped hfirst hls es.flatten
        rw [List.flatten_cons, hdrop] at hks
        exact ⟨hfirst, hls, ih hrest hxs hks hkept⟩
      · rw [decide_eq_false hwhole] at hl hls ⊢
        have hothers : others ((Expression.table t (l :: ls), l :: ls) ::
            located (Expression.table t (l :: ls)) es) = (Expression.table t (l :: ls), l :: ls) ::
            others (located (Expression.table t (l :: ls)) es) := by
          rw [others, List.filter_cons_of_pos (by simpa using hwhole), others]
        rw [hothers, List.map_cons] at hkept
        have hfirst : inModelSection b l = false := by
          rw [← Bool.not_eq_true]
          intro hin
          rw [inModelSection] at hin
          split at hin
          · next hh => rw [hl hh] at hin; cases hin
          · next hh => exact hh (first_dropped (hin ▸ hks) hkept)
        have hkeep := stripFrom_kept hfirst hls es.flatten
        rw [List.flatten_cons, hkeep] at hks
        obtain ⟨ks, rfl, htail⟩ := Cut.behind he hks
        rw [List.filter_cons_of_pos (by simpa using hblank)] at hkept
        exact ⟨hfirst, hls, ih hrest hxs htail (List.cons.inj hkept).2⟩

end Scans

section Texts

variable {d : Document} {s : CredentialSection} {ss : List CredentialSection} {l : Line}
  {ls : List Line} {es : List Expression} {x : Path × Expression} {t : Path}

theorem settled_front (ls : List Line) : SameFront ls (settled ls) := by
  obtain ⟨ms, k, rfl, hms⟩ := exists_empty_lines ls
  by_cases hne : ms = []
  · subst hne
    cases k with
    | zero => exact ⟨[], 0, 0, rfl, rfl⟩
    | succ k => exact ⟨[], k + 1, 2, rfl, settled_replicate k⟩
  · exact ⟨ms, k, 1, rfl, settled_append hms hne k⟩

/-- No line of a document ends with a carriage return. -/
theorem line_end (h : Cut Place.behindLine {} ls es) (hl : l ∈ ls) : l.getLast? ≠ some '\r' := by
  rw [← h.flatten] at hl
  obtain ⟨e, he, hl⟩ := List.mem_flatten.mp hl
  intro hlast
  have hcr := chunk_control (h.chunk e he) l hl '\r' (List.mem_of_getLast? hlast)
  cases hcr

theorem map_chomp_raw {raw : List Line} (h : List.Forall₂ (fun r l => l = r ∨ l = chomp r) raw ls)
    (hls : ∀ l ∈ ls, chomp l = l) : raw.map chomp = ls := by
  induction h with
  | nil => rfl
  | cons hl h ih =>
    obtain ⟨hchomp, hls⟩ := List.forall_mem_cons.mp hls
    rw [List.map_cons, ih hls]
    rcases hl with rfl | rfl
    · rw [hchomp]
    · rfl

theorem section_raw (s : CredentialSection) : ∃ raw, sectionBlock s.text = unlines raw ∧
    (∀ l ∈ raw, '\n' ∉ l) ∧ raw.map chomp = lines s.text ++ [[]] := by
  have hs : s.text ≠ [] := by
    intro hs
    have hflat := s.cut.flatten
    rw [hs] at hflat
    cases hflat
  obtain ⟨raw, hblock, hnl, hsame⟩ := sectionBlock_raw hs
  refine ⟨raw ++ [[]], hblock, ?_, ?_⟩
  · intro l hl
    rcases List.mem_append.mp hl with hl | hl
    · exact hnl l hl
    · rw [List.mem_singleton.mp hl]
      exact List.not_mem_nil
  · rw [List.map_append, map_chomp_raw hsame fun l hl => chomp_eq (line_end s.cut hl)]
    rfl

theorem sections_raw (ss : List CredentialSection) : ∃ raw,
    (ss.map (·.text)).flatMap sectionBlock = unlines raw ∧ (∀ l ∈ raw, '\n' ∉ l) ∧
      raw.map chomp = ss.flatMap fun s => lines s.text ++ [[]] := by
  induction ss with
  | nil => exact ⟨[], rfl, fun _ h => absurd h List.not_mem_nil, rfl⟩
  | cons s ss ih =>
    obtain ⟨raw, hblock, hnl, hlines⟩ := section_raw s
    obtain ⟨raw', hblocks, hnl', hlines'⟩ := ih
    refine ⟨raw ++ raw', ?_, List.forall_mem_append.mpr ⟨hnl, hnl'⟩, ?_⟩
    · rw [List.map_cons, List.flatMap_cons, hblock, hblocks, unlines_append]
    · rw [List.map_append, hlines, hlines', List.flatMap_cons]

/-- The merge has the lines that are preserved, and those of the sections. -/
theorem lines_merge (d : Document) (ss : List CredentialSection) :
    SameFront (settled (preservedLines d.text) ++ ss.flatMap fun s => lines s.text ++ [[]])
      (lines (mergeConfig d.text (ss.map (·.text)))) := by
  have hkept : ∀ l ∈ settled (preservedLines d.text), chomp l = l := by
    intro l hl
    rcases mem_settled hl with hl | rfl
    · exact chomp_eq (line_end d.cut ((stripFrom_sublist false _).mem hl))
    · rfl
  obtain ⟨raw, hblocks, hnl, hlines⟩ := sections_raw ss
  have hall : ∀ l ∈ settled (preservedLines d.text) ++ raw, '\n' ∉ l :=
    List.forall_mem_append.mpr ⟨settled_newlines preservedLines_newlines, hnl⟩
  obtain ⟨front, j, k, hfront, htext⟩ := keepNewlines_front hall 1
  have hchomp : settled (preservedLines d.text) ++ ss.flatMap (fun s => lines s.text ++ [[]]) =
      (settled (preservedLines d.text) ++ raw).map chomp := by
    rw [List.map_append, hlines, List.map_congr_left hkept, List.map_id']
  have hempty (k : ℕ) : (List.replicate k []).map chomp = List.replicate k [] := List.map_replicate
  refine ⟨front.map chomp, j, k, ?_, ?_⟩
  · rw [hchomp, hfront, List.map_append, hempty]
  · have hlast : ∀ l ∈ front ++ List.replicate k [], '\n' ∉ l := by
      intro l hl
      rcases List.mem_append.mp hl with hl | hl
      · exact hall l (hfront ▸ List.mem_append_left _ hl)
      · rw [List.eq_of_mem_replicate hl]
        exact List.not_mem_nil
    rw [mergeConfig_eq, hblocks, ← unlines_append, htext, lines_unlines hlast, List.map_append,
      hempty]

theorem located_section (s : CredentialSection) (t : Path) (es : List Expression) :
    Toml.located t ([s.header] :: es) = (s.table, [s.header]) :: Toml.located s.table es := by
  have hkind : Expression.kind [s.header] = .header s.table := s.kind
  rw [Toml.located, if_neg (by rw [hkind]; exact Kind.noConfusion), Expression.table, hkind]

theorem located_fixed (h : ∀ e ∈ es, ∀ p, e.kind ≠ .header p) (hx : x ∈ Toml.located t es) :
    x.1 = t := by
  induction es with
  | nil => exact absurd hx List.not_mem_nil
  | cons e es ih =>
    obtain ⟨he, hes⟩ := List.forall_mem_cons.mp h
    have htable : e.table t = t := by
      rw [Expression.table]
      split
      next p hk => exact absurd hk (he p)
      next => rfl
    rw [Toml.located, htable] at hx
    split at hx
    · exact ih hes hx
    · rcases List.mem_cons.mp hx with rfl | hx
      · rfl
      · exact ih hes hx

theorem share_section (hx : x ∈ s.located) : share x = .whole := by
  rw [CredentialSection.located, located_section] at hx
  have htable : x.1 = s.table := by
    rcases List.mem_cons.mp hx with rfl | hx
    · rfl
    · exact located_fixed s.bodyKind hx
  rw [← Prod.mk.eta (p := x), htable]
  exact share_ofModel s.ofModel _

/-- What looks like a header in a section is an expression by itself. -/
theorem looks_section (hx : x ∈ s.located) (hl : l ∈ x.2) (hlooks : isHeader l = true) :
    x.2 = [s.header] := by
  rw [CredentialSection.located, located_section] at hx
  rcases List.mem_cons.mp hx with rfl | hx
  · rfl
  · rw [s.bodyLooks l (List.mem_flatten_of_mem (located_mem hx).1 hl)] at hlooks
    cases hlooks

theorem sections_cut (ss : List CredentialSection) : ∃ xs,
    Cut Place.behindLine {} (ss.flatMap fun s => lines s.text ++ [[]]) xs ∧
      ∀ t, Toml.located t xs = ss.flatMap (·.located) := by
  induction ss with
  | nil => exact ⟨[], .nil, fun _ => rfl⟩
  | cons s ss ih =>
    obtain ⟨xs, hxs, hlocated⟩ := ih
    refine ⟨_, (cut_append_empties s.cut 1).append hxs, fun t => ?_⟩
    rw [located_append, hlocated, located_empties, located_section, List.flatMap_cons,
      CredentialSection.located, located_section]

end Texts

section Merging

variable {Valid : List Expression → Prop} {d : Document} {ss : List CredentialSection}
  {xs ys : List (Path × Expression)} {x : Path × Expression} {b : Bool} {ls : List Line}

theorem told_part (h : Told b xs) : ∀ x ∈ xs, share x ≠ .part := by
  induction xs generalizing b with
  | nil => exact fun _ hx => absurd hx List.not_mem_nil
  | cons x xs ih => exact List.forall_mem_cons.mpr ⟨h.1, ih h.2.2.2⟩

theorem others_append (xs ys : List (Path × Expression)) :
    others (xs ++ ys) = others xs ++ others ys := List.filter_append ..

theorem models_append (xs ys : List (Path × Expression)) :
    models (xs ++ ys) = models xs ++ models ys := List.filter_append ..

theorem sections_whole (hx : x ∈ ss.flatMap (·.located)) : share x = .whole := by
  obtain ⟨s, -, hx⟩ := List.mem_flatMap.mp hx
  exact share_section hx

theorem others_sections (ss : List CredentialSection) : others (ss.flatMap (·.located)) = [] := by
  apply List.filter_eq_nil_iff.mpr
  intro x hx
  simp [sections_whole hx]

theorem models_sections (ss : List CredentialSection) :
    models (ss.flatMap (·.located)) = ss.flatMap (·.located) := by
  apply List.filter_eq_self.mpr
  intro x hx
  simp [sections_whole hx]

theorem count_shares (h : ∀ x ∈ xs, share x ≠ .part) (f : Line → Bool) :
    (xs.flatMap Prod.snd).countP f = ((others xs).flatMap Prod.snd).countP f +
      ((models xs).flatMap Prod.snd).countP f := by
  induction xs with
  | nil => rfl
  | cons x xs ih =>
    obtain ⟨hx, hxs⟩ := List.forall_mem_cons.mp h
    rw [List.flatMap_cons, List.countP_append, ih hxs, others, others, models, models,
      List.filter_cons, List.filter_cons]
    cases hshare : share x with
    | none =>
      simp only [ne_eq, reduceCtorEq, not_false_eq_true, decide_true, not_true_eq_false,
        decide_false, if_true, Bool.false_eq_true, if_false, List.flatMap_cons, List.countP_append]
      omega
    | whole =>
      simp only [ne_eq, reduceCtorEq, not_false_eq_true, decide_true, not_true_eq_false,
        decide_false, if_true, Bool.false_eq_true, if_false, List.flatMap_cons, List.countP_append]
      omega
    | part => exact absurd hshare hx

theorem merged_of_told (h : Told false d.located)
    (hv : Valid ((others d.located ++ ss.flatMap (·.located)).map Prod.snd)) : Merged Valid d ss := by
  obtain ⟨ks, hks, hkept⟩ := kept_cut d.cut.chunk h (.inl rfl)
  rw [d.cut.flatten] at hks
  obtain ⟨ks', hks', hsame⟩ := (settled_front _).cut hks
  obtain ⟨xs, hxs, hsections⟩ := sections_cut ss
  obtain ⟨cs, hcs, hlocated⟩ := (lines_merge d ss).cut (hks'.append hxs)
  have hall : Toml.located [] cs = others d.located ++ ss.flatMap (·.located) := by
    rw [hlocated, located_append, hsame, hkept, hsections, Document.located]
  refine ⟨⟨_, cs, hcs⟩, rfl, ?_⟩
  rw [Document.located, hall, others_append, models_append, others_sections, models_sections]
  refine ⟨hv, ?_, ?_⟩
  · rw [List.append_nil, others, others, List.filter_filter]
    simp
  · have hnone : models (others d.located) = [] := by
      apply List.filter_eq_nil_iff.mpr
      intro x hx
      obtain ⟨hin, hwhole⟩ := mem_others.mp hx
      have hpart := told_part h x hin
      cases hshare : share x with
      | none => simp
      | whole => exact absurd hshare hwhole
      | part => exact absurd hshare hpart
    rw [hnone, List.nil_append]

theorem count_foreign (h : Foreign ls) : ls.countP (fun l => isHeader l && isModelHeader l) = 0 := by
  apply List.countP_eq_zero.mpr
  intro l hl hlooks
  rw [Bool.and_eq_true] at hlooks
  rw [h l hl hlooks.1] at hlooks
  cases hlooks.2

theorem looks_blank {f : Line → Bool} {l : Line} (h : skip l = []) :
    (isHeader l && f l) = false := by
  rw [isHeader_blank h, Bool.false_and]

theorem count_zero {f : Line → Bool} {l : Line} (h : (xs.flatMap Prod.snd).countP f = 0)
    (hx : x ∈ xs) (hl : l ∈ x.2) : f l = false :=
  Bool.eq_false_iff.mpr (List.countP_eq_zero.mp h l (List.mem_flatMap_of_mem hx hl))

/-- No expression goes across from other lines to the sections if the model tables are theirs. -/
theorem not_across {cs : List Expression} (hls : Foreign ls)
    (hcs : Cut Place.behindLine {} (ls ++ ss.flatMap fun s => lines s.text ++ [[]]) cs)
    (hmodels : models (Toml.located [] cs) = ss.flatMap (·.located)) :
    ∃ ks xs, cs = ks ++ xs ∧ Cut Place.behindLine {} ls ks ∧
      Cut Place.behindLine {} (ss.flatMap fun s => lines s.text ++ [[]]) xs := by
  rcases hcs.split with hsplit | ⟨xs, c, e, ys, hacross, hc, he, htail⟩
  · exact hsplit
  · exfalso
    cases ss with
    | nil => exact absurd htail.symm (List.append_ne_nil_of_left_ne_nil he _)
    | cons s ss =>
      -- the expression that goes across holds the header of the first section
      have hheader : s.header ∈ e := by
        obtain ⟨l, e, rfl⟩ := List.exists_cons_of_ne_nil he
        rw [List.flatMap_cons, ← s.cut.flatten] at htail
        obtain ⟨rfl, -⟩ := List.cons.inj htail
        exact List.mem_cons_self
      have hin : c ++ e ∈ cs := hacross ▸ List.mem_append_right _ List.mem_cons_self
      have hlong : 2 ≤ (c ++ e).length := by
        have hcpos := List.length_pos_iff.mpr hc
        have hepos := List.length_pos_iff.mpr he
        rw [List.length_append]
        omega
      have hblank : Expression.kind (c ++ e) ≠ .blank := by
        intro hblank
        obtain ⟨l, hl, -⟩ := chunk_kind_blank (hcs.chunk _ hin) hblank
        rw [hl] at hlong
        exact absurd hlong (by simp)
      obtain ⟨x, hx, hxe⟩ : ∃ x ∈ Toml.located [] cs, x.2 = c ++ e := by
        rw [← List.mem_map, located_snd]
        exact List.mem_filter.mpr ⟨hin, by simpa using hblank⟩
      have hmem : s.header ∈ x.2 := hxe ▸ List.mem_append_right _ hheader
      have hpart : ∀ x ∈ Toml.located [] cs, share x ≠ .part := by
        intro y hy hshare
        have hy' : y ∈ models (Toml.located [] cs) := mem_models.mpr ⟨hy, by rw [hshare]; decide⟩
        rw [sections_whole (hmodels ▸ hy')] at hshare
        cases hshare
      -- every line that looks like the header of a model section is of the sections
      have hcount := count_located (fun l hl => looks_blank (f := isModelHeader) hl) hcs.chunk []
      rw [hcs.flatten, List.countP_append, count_foreign hls, count_shares hpart, hmodels,
        Nat.zero_add] at hcount
      obtain ⟨xs', hxs', hsections⟩ := sections_cut (s :: ss)
      have hcount' := count_located (fun l hl => looks_blank (f := isModelHeader) hl) hxs'.chunk []
      rw [hxs'.flatten, hsections, hcount] at hcount'
      by_cases hnone : share x = .none
      · have hzero := count_zero (Nat.add_eq_right.mp hcount')
          (mem_others.mpr ⟨hx, by rw [hnone]; decide⟩) hmem
        rw [s.looks.1, s.looks.2] at hzero
        cases hzero
      · have hx' : x ∈ (s :: ss).flatMap (·.located) := hmodels ▸ mem_models.mpr ⟨hx, hnone⟩
        obtain ⟨s', -, hx'⟩ := List.mem_flatMap.mp hx'
        have hsingle := looks_section hx' hmem s.looks.1
        rw [← hxe, hsingle] at hlong
        exact absurd hlong (by simp)

/-- Where the lines that stay are the others, no line looks like a header that it is not. -/
theorem headed_of_kept {ks : List Expression}
    (hks : Cut Place.behindLine {} (preservedLines d.text) ks)
    (hall : Toml.located [] ks = others d.located) (hmodels : models (Toml.located [] ks) = []) :
    Headed d.located := by
  have hpart : ∀ x ∈ d.located, share x ≠ .part := by
    intro x hx hshare
    have hx' : x ∈ models (Toml.located [] ks) := by
      rw [hall]
      exact mem_models.mpr ⟨mem_others.mpr ⟨hx, by rw [hshare]; decide⟩, by rw [hshare]; decide⟩
    rw [hmodels] at hx'
    exact absurd hx' List.not_mem_nil
  intro x hx
  refine ⟨hpart x hx, fun l hl hlooks => ?_⟩
  by_cases hwhole : share x = .whole
  · rw [decide_eq_true hwhole, ← Bool.not_eq_false]
    intro hforeign
    -- headers of other tables stay, and are counted in what stays
    have hcount := count_located (fun l hl => looks_blank (f := fun l => !isModelHeader l) hl)
      d.cut.chunk []
    have hcount' := count_located (fun l hl => looks_blank (f := fun l => !isModelHeader l) hl)
      hks.chunk []
    rw [d.cut.flatten, ← Document.located, count_shares hpart] at hcount
    rw [hks.flatten, hall, preservedLines, count_stripFrom, hcount] at hcount'
    have hzero := count_zero (Nat.add_eq_left.mp hcount')
      (mem_models.mpr ⟨hx, by rw [hwhole]; decide⟩) hl
    rw [hlooks, hforeign] at hzero
    cases hzero
  · rw [decide_eq_false hwhole]
    have hx' : x ∈ Toml.located [] ks := hall ▸ mem_others.mpr ⟨hx, hwhole⟩
    have hline : l ∈ preservedLines d.text :=
      hks.flatten ▸ List.mem_flatten_of_mem (located_mem hx').1 hl
    exact foreign_stripFrom false _ l hline hlooks

theorem told_of_merged (h : Merged Valid d ss) : Told false d.located ∧
    Valid ((others d.located ++ ss.flatMap (·.located)).map Prod.snd) := by
  obtain ⟨d', htext, hvalid, hothers, hmodels⟩ := h
  have hd' := d'.cut
  rw [htext] at hd'
  obtain ⟨cs, hcs, hlocated⟩ := (lines_merge d ss).symm.cut hd'
  have hforeign : Foreign (preservedLines d.text) := foreign_stripFrom false _
  rw [Document.located, ← hlocated] at hvalid hothers hmodels
  obtain ⟨ks, xs, rfl, hks, hxs⟩ := not_across (foreign_settled hforeign) hcs hmodels
  obtain ⟨xs', hxs', hsections⟩ := sections_cut ss
  obtain rfl := hxs.unique hxs'
  rw [located_append, hsections] at hvalid hothers hmodels
  rw [models_append, models_sections, List.append_left_eq_self] at hmodels
  rw [others_append, others_sections, List.append_nil] at hothers
  have hall : Toml.located [] ks = others d.located := by
    rw [← hothers, eq_comm]
    apply List.filter_eq_self.mpr
    intro x hx
    by_contra hwhole
    have hx' : x ∈ models (Toml.located [] ks) := by
      refine mem_models.mpr ⟨hx, fun hnone => hwhole ?_⟩
      simp [hnone]
    rw [hmodels] at hx'
    exact absurd hx' List.not_mem_nil
  refine ⟨?_, by rwa [hall] at hvalid⟩
  obtain ⟨ks, hkept, hsame⟩ := (settled_front _).symm.cut hks
  rw [← hsame] at hall hmodels
  have hcut := hkept
  rw [preservedLines, ← d.cut.flatten] at hcut
  refine told_of_kept d.cut.chunk (headed_of_kept hkept hall hmodels) hcut ?_
  rw [← located_snd [] ks, hall]
  rfl

end Merging

/-- A merge replaces the model tables of a document exactly if its lines are told right, and if
everything else of it is valid with the sections behind it. -/
theorem mergeConfig_tables (Valid : List Expression → Prop) (d : Document)
    (ss : List CredentialSection) : Merged Valid d ss ↔ Told false d.located ∧
      Valid ((others d.located ++ ss.flatMap (·.located)).map Prod.snd) :=
  ⟨told_of_merged, fun h => merged_of_told h.1 h.2⟩

section Rendered

variable {c : WorkerCredentials}

/-- The keys of a section with their values. -/
def settings (c : WorkerCredentials) : List (String × List Char) :=
  [("base_url", tomlEscape c.baseUrl), ("api_key", tomlEscape c.apiKey)] ++
    c.model.toList.map (fun m => ("model", tomlEscape m)) ++
    [("api_backend", tomlEscape c.apiBackend),
      ("context_window", Nat.toDigits 10 c.contextWindow)]

theorem settings_bare {x : String × List Char} (hx : x ∈ settings c) : BareKey x.1.toList := by
  have hkeys : ∀ key ∈ ["base_url", "api_key", "model", "api_backend", "context_window"],
      key.toList ≠ [] ∧ key.toList.all isBare = true := by decide
  apply bareKey_fixed
  apply hkeys
  simp only [settings, List.mem_append, List.mem_cons, List.mem_map, List.not_mem_nil,
    or_false] at hx
  rcases hx with ((rfl | rfl) | ⟨m, -, rfl⟩) | rfl | rfl <;> simp

theorem behindLine_settings (ht : ∀ s ∈ c.texts, Uncontrolled s) {x : String × List Char}
    (hx : x ∈ settings c) : Place.behindLine {} (settingLine x.1.toList x.2) = {} := by
  have htext {s : String} (hs : s ∈ c.texts) : Place.behindLine {} (tomlEscape s) = {} := by
    rw [tomlEscape_eq]
    exact behindLine_quoted (ht s hs)
  rw [behindLine_setting (settings_bare hx)]
  simp only [settings, List.mem_append, List.mem_cons, List.mem_map, List.not_mem_nil,
    or_false] at hx
  rcases hx with ((rfl | rfl) | ⟨m, hm, rfl⟩) | rfl | rfl
  · exact htext (by simp [WorkerCredentials.texts])
  · exact htext (by simp [WorkerCredentials.texts])
  · exact htext (by simp [WorkerCredentials.texts, Option.mem_toList.mp hm])
  · exact htext (by simp [WorkerCredentials.texts])
  · have hinert : ∀ d ∈ Nat.toDigits 10 c.contextWindow, isInert d = true := by
      intro d hd
      have hdigit := Nat.isDigit_of_mem_toDigits (by decide) (by decide) hd
      exact inert_of_bare (by simp [isBare, Char.isAlphanum, hdigit])
    rw [Place.behindLine, foldl_inert hinert 0]
    rfl

theorem rendered_lines (c : WorkerCredentials) : renderGrokConfigSection c =
    unlines (subheaderLine "model".toList c.modelId.toList ::
      (settings c).map fun x => settingLine x.1.toList x.2) := by
  have hline (key : String) (value r : List Char) :
      sectionLine key value ++ r = settingLine key.toList value ++ '\n' :: r := by
    rw [sectionLine_append, setting, settingLine]
    simp
  have hlast (key : String) (value : List Char) :
      sectionLine key value = settingLine key.toList value ++ ['\n'] := by
    rw [← hline, List.append_nil]
  rw [renderGrokConfigSection, sectionHeader_append, unlines_cons, subheaderLine, settings]
  cases c.model with
  | none => simp [hlast]
  | some m => simp [hlast]

theorem isHeader_setting {k : List Char} (hk : BareKey k) (v : List Char) :
    isHeader (settingLine k v) = false := by
  obtain ⟨x, k, rfl⟩ := List.exists_cons_of_ne_nil hk.1
  have hx : isBare x = true := hk.2 x List.mem_cons_self
  have hwhite : ¬ Core.isWhiteSpace x = true := by
    obtain ⟨hlow, hhigh⟩ := range_of_isBare hx
    intro hwhite
    simp [Core.isWhiteSpace] at hwhite
    omega
  have htext : settingLine (x :: k) v = x :: settingLine k v := rfl
  rw [← Bool.not_eq_true, isHeader, Bool.and_eq_true, decide_eq_true_iff]
  rintro ⟨hhead, -⟩
  rw [trimmed, htext, List.dropWhile_cons_of_neg hwhite] at hhead
  obtain ⟨u, hu⟩ := List.rdropWhile_prefix Core.isWhiteSpace (x :: settingLine k v)
  obtain ⟨y, hy⟩ := List.head?_eq_some_iff.mp hhead
  rw [hy] at hu
  obtain ⟨rfl, -⟩ := List.cons.inj hu
  cases hx

/-- The rendered credential is the table of its model. -/
def rendered (c : WorkerCredentials) (hid : BareKey c.modelId.toList)
    (ht : ∀ s ∈ c.texts, Uncontrolled s) : CredentialSection where
  text := renderGrokConfigSection c
  header := subheaderLine "model".toList c.modelId.toList
  table := ["model".toList, c.modelId.toList]
  body := (settings c).map fun x => [settingLine x.1.toList x.2]
  cut := by
    have hall : ∀ l ∈ subheaderLine "model".toList c.modelId.toList ::
        (settings c).map fun x => settingLine x.1.toList x.2, Place.behindLine {} l = {} := by
      refine List.forall_mem_cons.mpr ⟨behindLine_subheader (bareKey_fixed (by decide)) hid, ?_⟩
      intro l hl
      obtain ⟨x, hx, rfl⟩ := List.mem_map.mp hl
      exact behindLine_settings ht hx
    have hcut := cut_lines hall
    rw [List.map_cons, List.map_map] at hcut
    rw [rendered_lines]
    exact hcut
  kind := kind_subheader (bareKey_fixed (by decide)) hid
  ofModel := rfl
  looks := by
    have htext : subheaderLine "model".toList c.modelId.toList =
        "[model.".toList ++ c.modelId.toList ++ [']'] := by simp [subheaderLine]
    rw [htext]
    exact modelHeader c.modelId.toList
  bodyLooks := by
    intro l hl
    obtain ⟨e, he, hl⟩ := List.mem_flatten.mp hl
    obtain ⟨x, hx, rfl⟩ := List.mem_map.mp he
    rw [List.mem_singleton.mp hl]
    exact isHeader_setting (settings_bare hx) _
  bodyKind := by
    intro e he p
    obtain ⟨x, hx, rfl⟩ := List.mem_map.mp he
    have hkind : Expression.kind [settingLine x.1.toList x.2] = _ :=
      kind_setting (settings_bare hx) x.2
    rw [hkind]
    exact Kind.noConfusion

end Rendered

def commented : Document where
  text := "[model.x] # old\nk = 1\n".toList
  expressions := [["[model.x] # old".toList], ["k = 1".toList]]
  cut := ⟨by decide, by
    intro e he
    rcases List.mem_pair.mp he with rfl | rfl <;> exact .last (by decide)⟩

def pushedSection : CredentialSection :=
  rendered ⟨"w", "x", "https://api.example", "sk-1", "chat_completions", 200000, none⟩
    (bareKey_fixed (by decide)) <| by
      have hall : ∀ s ∈ ["https://api.example", "sk-1", "chat_completions"],
          s.toList.all (fun c => !isControl c) = true := by decide
      intro s hs c hc
      simpa using List.all_eq_true.mp (hall s hs) c hc

/-- A comment behind a header hides the model table from the merge. -/
theorem commented_stays : ¬ ∃ Valid, Merged Valid commented [pushedSection] := by
  rintro ⟨Valid, h⟩
  have htold := (told_of_merged h).1
  exact absurd htold.2.1 (by decide)

end FleetOrchestrator.Provision
