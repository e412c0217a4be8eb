import FleetOrchestrator.Encoding.Lines
import FleetOrchestrator.Encoding.Words
import Mathlib.Data.List.Forall2

/-! The merge of credential sections into a configuration file, which goes by the lines that look
like headers. -/

namespace FleetOrchestrator.Provision

open Core Encoding

abbrev Line := List Char

def trimmed (l : Line) : Line := (l.dropWhile isWhiteSpace).rdropWhile isWhiteSpace

def isHeader (l : Line) : Bool :=
  (trimmed l).head? = some '[' && (trimmed l).getLast? = some ']'

def isModelHeader (l : Line) : Bool := "[model.".toList.isPrefixOf (trimmed l)

/-- Whether a line belongs to a model section, by the line itself or by the one before. -/
def inModelSection (before : Bool) (l : Line) : Bool :=
  if isHeader l then isModelHeader l else before

def stripFrom : Bool → List Line → List Line
  | _, [] => []
  | b, l :: ls => if inModelSection b l then stripFrom true ls else l :: stripFrom false ls

def preservedLines (existing : List Char) : List Line := stripFrom false (lines existing)

def stripModelSections (existing : List Char) : List Char := unlines (preservedLines existing)

/-- One newline behind what is preserved, and an empty line. -/
def separated (preserved : List Char) : List Char :=
  if preserved.isEmpty then preserved
  else
    let out := keepNewlines 1 preserved
    (if out.getLast? = some '\n' then out else out ++ ['\n']) ++ ['\n']

def sectionBlock (s : List Char) : List Char :=
  s ++ (if s.getLast? = some '\n' then [] else ['\n']) ++ ['\n']

def mergeConfig (existing : List Char) (modelSections : List (List Char)) : List Char :=
  keepNewlines 2 (separated (stripModelSections existing) ++ modelSections.flatMap sectionBlock)

/-- A header of a model table, and behind it no line that looks like a header. -/
def ModelSection (s : List Char) : Prop :=
  ∃ id body, lines s = ("[model.".toList ++ id ++ [']']) :: body ∧ ∀ l ∈ body, isHeader l = false

/-- Lines that leave the scan outside of the model sections where it is outside. -/
def Foreign (ls : List Line) : Prop := ∀ l ∈ ls, isHeader l = true → isModelHeader l = false

/-- Lines that leave the scan inside where it is inside. -/
def Modelled (ls : List Line) : Prop := ∀ l ∈ ls, isHeader l = true → isModelHeader l = true

/-- The preserved lines, with one empty line at their end. -/
def settled (ls : List Line) : List Line :=
  if ls.isEmpty then []
  else (if ls.all List.isEmpty then [[]] else ls.rdropWhile List.isEmpty) ++ [[]]

section Scan

variable {b : Bool} {c : Char} {l m : Line} {ls ms : List Line} {e s : List Char}
  {ss : List (List Char)}

theorem trimmed_concat (h : isWhiteSpace c = true) (l : Line) : trimmed (l ++ [c]) = trimmed l := by
  rw [trimmed, List.dropWhile_append, trimmed]
  split
  next hl =>
    rw [List.isEmpty_iff.mp hl, List.dropWhile_cons_of_pos h]
    rfl
  next => exact List.rdropWhile_concat_pos _ _ _ h

@[simp] theorem trimmed_chomp (l : Line) : trimmed (chomp l) = trimmed l := by
  rw [chomp]
  split
  next h =>
    have hl : l = l.dropLast ++ ['\r'] := by
      have hne : l ≠ [] := by
        rintro rfl
        cases h
      rw [List.getLast?_eq_some_getLast hne, Option.some.injEq] at h
      rw [← h, List.dropLast_append_getLast]
    nth_rewrite 2 [hl]
    exact (trimmed_concat rfl _).symm
  next => rfl

theorem foreign_chomp (h : Foreign ls) : Foreign (ls.map chomp) := by
  intro l hl
  obtain ⟨l, hm, rfl⟩ := List.mem_map.mp hl
  simpa [isHeader, isModelHeader] using h l hm

theorem foreign_stripFrom (b : Bool) (ls : List Line) : Foreign (stripFrom b ls) := by
  induction ls generalizing b with
  | nil => exact fun l hl => absurd hl List.not_mem_nil
  | cons l ls ih =>
    rw [stripFrom]
    split
    · exact ih true
    · next hin =>
      intro x hx hh
      rcases List.mem_cons.mp hx with rfl | hx
      · rwa [inModelSection, if_pos hh, Bool.not_eq_true] at hin
      · exact ih false x hx hh

theorem stripFrom_sublist (b : Bool) (ls : List Line) : (stripFrom b ls).Sublist ls := by
  induction ls generalizing b with
  | nil => exact List.Sublist.refl _
  | cons l ls ih =>
    rw [stripFrom]
    split
    · exact (ih true).cons l
    · exact (ih false).cons_cons l

theorem stripFrom_foreign (h : Foreign ls) (ms : List Line) :
    stripFrom false (ls ++ ms) = ls ++ stripFrom false ms := by
  induction ls with
  | nil => rfl
  | cons l ls ih =>
    obtain ⟨hl, hls⟩ := List.forall_mem_cons.mp h
    have hstate : inModelSection false l = false := by
      rw [inModelSection]
      split
      · next hh => exact hl hh
      · rfl
    rw [List.cons_append, stripFrom, hstate, if_neg Bool.false_ne_true, ih hls, List.cons_append]

theorem stripFrom_modelled (h : Modelled ls) (ms : List Line) :
    stripFrom true (ls ++ ms) = stripFrom true ms := by
  induction ls with
  | nil => rfl
  | cons l ls ih =>
    obtain ⟨hl, hls⟩ := List.forall_mem_cons.mp h
    have hstate : inModelSection true l = true := by
      rw [inModelSection]
      split
      · next hh => exact hl hh
      · rfl
    rw [List.cons_append, stripFrom, hstate, if_pos rfl, ih hls]

theorem settled_replicate (k : ℕ) : settled (List.replicate (k + 1) []) = [[], []] := by
  simp [settled]

theorem settled_append (hl : ms.getLast? ≠ some []) (hms : ms ≠ []) (k : ℕ) :
    settled (ms ++ List.replicate k []) = ms ++ [[]] := by
  obtain ⟨front, l, rfl⟩ : ∃ front l, ms = front ++ [l] :=
    ⟨ms.dropLast, ms.getLast hms, (List.dropLast_append_getLast hms).symm⟩
  rw [List.getLast?_concat, ne_eq, Option.some.injEq] at hl
  have hdrop : (front ++ [l] ++ List.replicate k []).rdropWhile List.isEmpty = front ++ [l] := by
    induction k with
    | zero =>
      rw [List.replicate_zero, List.append_nil, List.rdropWhile_concat_neg]
      simpa using hl
    | succ k ih =>
      rw [List.replicate_succ', ← List.append_assoc, List.rdropWhile_concat_pos _ _ _ rfl, ih]
  have hall : (front ++ [l] ++ List.replicate k []).all List.isEmpty = false := by
    simp [hl]
  rw [settled, hdrop, hall]
  simp

theorem settled_newlines (h : ∀ l ∈ ls, '\n' ∉ l) : ∀ l ∈ settled ls, '\n' ∉ l := by
  intro l hl
  obtain ⟨ms, k, rfl, hms⟩ := exists_empty_lines ls
  by_cases hne : ms = []
  · subst hne
    cases k with
    | zero => cases hl
    | succ k =>
      rw [List.nil_append, settled_replicate] at hl
      rcases List.mem_pair.mp hl with rfl | rfl <;> exact List.not_mem_nil
  · rw [settled_append hms hne, List.mem_append, List.mem_singleton] at hl
    rcases hl with hl | rfl
    · exact h l (List.mem_append_left _ hl)
    · exact List.not_mem_nil

theorem mem_settled (hl : l ∈ settled ls) : l ∈ ls ∨ l = [] := by
  obtain ⟨ms, k, rfl, hms⟩ := exists_empty_lines ls
  by_cases hne : ms = []
  · subst hne
    cases k with
    | zero => cases hl
    | succ k =>
      rw [List.nil_append, settled_replicate] at hl
      exact .inr (by simpa using hl)
  · rw [settled_append hms hne, List.mem_append, List.mem_singleton] at hl
    exact hl.imp_left (List.mem_append_left _)

theorem settled_of_mem (hl : l ∈ ls) (hne : l ≠ []) : l ∈ settled ls := by
  obtain ⟨ms, k, rfl, hms⟩ := exists_empty_lines ls
  have hin : l ∈ ms := by
    rcases List.mem_append.mp hl with hl | hl
    · exact hl
    · exact absurd (List.eq_of_mem_replicate hl) hne
  rw [settled_append hms (List.ne_nil_of_mem hin)]
  exact List.mem_append_left _ hin

theorem count_settled {c : Char} (hc : c ≠ '\n') (ls : List Line) :
    (unlines (settled ls)).count c = (unlines ls).count c := by
  have hempty (k : ℕ) : (unlines (List.replicate k [])).count c = 0 := by
    rw [unlines_replicate, List.count_replicate]
    simp [hc.symm]
  obtain ⟨ms, k, rfl, hms⟩ := exists_empty_lines ls
  by_cases hne : ms = []
  · subst hne
    cases k with
    | zero => rfl
    | succ k =>
      rw [List.nil_append, settled_replicate, hempty]
      exact hempty 2
  · rw [settled_append hms hne, unlines_append, unlines_append, List.count_append,
      List.count_append, hempty]
    exact congrArg _ (hempty 1)

theorem settled_settled (ls : List Line) : settled (settled ls) = settled ls := by
  obtain ⟨ms, k, rfl, hms⟩ := exists_empty_lines ls
  by_cases hne : ms = []
  · subst hne
    cases k with
    | zero => rfl
    | succ k =>
      rw [List.nil_append, settled_replicate]
      rfl
  · rw [settled_append hms hne]
    exact settled_append hms hne 1

theorem getLast_unlines (h : ls ≠ []) : (unlines ls).getLast? = some '\n' := by
  rw [← List.dropLast_append_getLast h, unlines_append, unlines_cons, unlines_nil,
    ← List.append_assoc, List.getLast?_concat]

theorem separated_unlines (h : ∀ l ∈ ls, '\n' ∉ l) :
    separated (unlines ls) = unlines (settled ls) := by
  obtain ⟨ms, k, rfl, hms⟩ := exists_empty_lines ls
  by_cases hne : ms = []
  · subst hne
    cases k with
    | zero => rfl
    | succ k =>
      have hkeep : keepNewlines 1 (List.replicate (k + 1) '\n') = ['\n'] := by
        have hk := @keepNewlines_replicate [] nofun 1 (k + 1)
        rw [List.nil_append, Nat.min_eq_right (by omega)] at hk
        exact hk
      rw [List.nil_append, settled_replicate, unlines_replicate, separated, hkeep]
      rfl
  · have hkeep := keepNewlines_unlines (fun l hl => h l (List.mem_append_left _ hl)) hms hne 0 k
    rw [Nat.min_zero, List.replicate_zero, List.append_nil] at hkeep
    have hfull : unlines (ms ++ List.replicate k []) ≠ [] := by
      intro hx
      have hlast := getLast_unlines (List.append_ne_nil_of_left_ne_nil hne (List.replicate k []))
      rw [hx] at hlast
      cases hlast
    rw [separated, if_neg (by simpa using hfull), hkeep]
    dsimp only
    rw [getLast_unlines hne, if_pos rfl, settled_append hms hne, unlines_append]
    rfl

theorem preservedLines_newlines : ∀ l ∈ preservedLines e, '\n' ∉ l :=
  fun _ hl => notMem_lines ((stripFrom_sublist false _).mem hl)

theorem mergeConfig_eq (e : List Char) (ss : List (List Char)) : mergeConfig e ss =
    keepNewlines 2 (unlines (settled (preservedLines e)) ++ ss.flatMap sectionBlock) := by
  rw [mergeConfig, stripModelSections, separated_unlines preservedLines_newlines]

theorem foreign_settled (h : Foreign ls) : Foreign (settled ls) := by
  intro l hl hh
  rcases mem_settled hl with hl | rfl
  · exact h l hl hh
  · cases hh

theorem isHeader_congr (h : trimmed l = trimmed m) : isHeader l = isHeader m := by
  rw [isHeader, isHeader, h]

theorem isModelHeader_congr (h : trimmed l = trimmed m) : isModelHeader l = isModelHeader m := by
  rw [isModelHeader, isModelHeader, h]

theorem modelHeader (id : List Char) : isHeader ("[model.".toList ++ id ++ [']']) = true ∧
    isModelHeader ("[model.".toList ++ id ++ [']']) = true := by
  have htext : "[model.".toList ++ id ++ [']'] = '[' :: ("model.".toList ++ id ++ [']']) := rfl
  have htrim : trimmed ("[model.".toList ++ id ++ [']']) = "[model.".toList ++ id ++ [']'] := by
    rw [trimmed, htext, List.dropWhile_cons_of_neg (by decide), ← htext,
      List.rdropWhile_concat_neg _ _ _ (by decide)]
  rw [isHeader, isModelHeader, htrim, List.getLast?_concat, htext]
  exact ⟨rfl, rfl⟩

/-- The lines of a section as they stand in the text that is appended, an empty one behind them. -/
theorem sectionBlock_raw (hs : s ≠ []) : ∃ raw, sectionBlock s = unlines (raw ++ [[]]) ∧
    (∀ l ∈ raw, '\n' ∉ l) ∧ List.Forall₂ (fun r l => l = r ∨ l = chomp r) raw (lines s) := by
  have hchomp (ls : List Line) :
      List.Forall₂ (fun r l => l = r ∨ l = chomp r) ls (ls.map chomp) := by
    rw [List.forall₂_map_right_iff, List.forall₂_same]
    exact fun l _ => .inr rfl
  obtain ⟨ls, last, rfl, hls, hlast⟩ := exists_lines s
  by_cases hl : last = []
  · subst hl
    rw [List.append_nil] at hs ⊢
    have hne : ls ≠ [] := by
      rintro rfl
      exact hs rfl
    refine ⟨ls, ?_, hls, ?_⟩
    · rw [sectionBlock, getLast_unlines hne, if_pos rfl, unlines_append, List.append_nil]
      rfl
    · rw [lines_unlines hls]
      exact hchomp ls
  · have hend : (unlines ls ++ last).getLast? ≠ some '\n' := by
      rw [List.getLast?_append_of_ne_nil _ hl]
      exact fun h => hlast (List.mem_of_getLast? h)
    refine ⟨ls ++ [last], ?_, ?_, ?_⟩
    · rw [sectionBlock, if_neg hend, unlines_append, unlines_append]
      simp
    · intro l hm
      rcases List.mem_append.mp hm with hm | hm
      · exact hls l hm
      · rw [List.mem_singleton.mp hm]
        exact hlast
    · rw [lines_unlines_append hls, lines_last hlast hl]
      exact List.rel_append (hchomp ls) (.cons (.inl rfl) .nil)

theorem sectionBlock_lines (h : ModelSection s) : ∃ head body,
    sectionBlock s = unlines (head :: body) ∧ (∀ l ∈ head :: body, '\n' ∉ l) ∧
    isHeader head = true ∧ Modelled (head :: body) := by
  obtain ⟨id, body, hlines, hbody⟩ := h
  have hs : s ≠ [] := by
    rintro rfl
    cases hlines
  obtain ⟨raw, hblock, hnl, hsame⟩ := sectionBlock_raw hs
  have htrim : raw.map trimmed = (lines s).map trimmed := by
    rw [← List.forall₂_eq_eq_eq, List.forall₂_map_left_iff, List.forall₂_map_right_iff]
    apply hsame.imp
    rintro r l (rfl | rfl)
    · rfl
    · exact (trimmed_chomp r).symm
  rw [hlines, List.map_cons, List.map_eq_cons_iff] at htrim
  obtain ⟨head, rest, rfl, hhead, hrest⟩ := htrim
  obtain ⟨hh, hm⟩ := modelHeader id
  refine ⟨head, rest ++ [[]], by rw [hblock, List.cons_append], ?_, (isHeader_congr hhead).trans hh, ?_⟩
  · intro l hl
    rw [← List.cons_append, List.mem_append, List.mem_singleton] at hl
    rcases hl with hl | rfl
    · exact hnl l hl
    · exact List.not_mem_nil
  · intro l hl hlh
    rw [← List.cons_append, List.mem_append, List.mem_cons, List.mem_singleton] at hl
    rcases hl with (rfl | hl) | rfl
    · exact (isModelHeader_congr hhead).trans hm
    · obtain ⟨l', hl', he⟩ := List.mem_map.mp (hrest ▸ List.mem_map_of_mem hl)
      rw [← isHeader_congr he, hbody l' hl'] at hlh
      cases hlh
    · cases hlh

theorem blocks_lines (h : ∀ s ∈ ss, ModelSection s) (hne : ss ≠ []) : ∃ head body,
    ss.flatMap sectionBlock = unlines (head :: body) ∧ (∀ l ∈ head :: body, '\n' ∉ l) ∧
    isHeader head = true ∧ Modelled (head :: body) := by
  induction ss with
  | nil => exact absurd rfl hne
  | cons s ss ih =>
    obtain ⟨hs, hss⟩ := List.forall_mem_cons.mp h
    obtain ⟨head, body, htext, hnl, hh, hm⟩ := sectionBlock_lines hs
    by_cases hrest : ss = []
    · subst hrest
      exact ⟨head, body, by rw [List.flatMap_cons, List.flatMap_nil, List.append_nil, htext], hnl,
        hh, hm⟩
    · obtain ⟨head', body', htext', hnl', -, hm'⟩ := ih hss hrest
      refine ⟨head, body ++ head' :: body', ?_, ?_, hh, ?_⟩
      · rw [List.flatMap_cons, htext, htext', ← unlines_append, List.cons_append]
      · rw [← List.cons_append]
        exact List.forall_mem_append.mpr ⟨hnl, hnl'⟩
      · rw [← List.cons_append]
        exact List.forall_mem_append.mpr ⟨hm, hm'⟩

/-- The scan drops what the sections leave behind the preserved text. -/
theorem stripFrom_blocks (h : ∀ s ∈ ss, ModelSection s) (hne : ss ≠ []) :
    stripFrom false (lines (keepNewlines 2 (ss.flatMap sectionBlock))) = [] := by
  obtain ⟨head, body, htext, hnl, hh, hm⟩ := blocks_lines h hne
  obtain ⟨ms, k, hsplit, hms⟩ := exists_empty_lines (head :: body)
  have hfirst : ∃ tail, ms = head :: tail := by
    cases ms with
    | nil =>
      have he : head = [] := by
        apply List.eq_of_mem_replicate (n := k)
        rw [List.nil_append] at hsplit
        rw [← hsplit]
        exact List.mem_cons_self
      rw [he] at hh
      cases hh
    | cons x tail =>
      rw [List.cons_append, List.cons.injEq] at hsplit
      exact ⟨tail, by rw [hsplit.1]⟩
  obtain ⟨tail, rfl⟩ := hfirst
  have hsub : ∀ l ∈ head :: tail ++ List.replicate (min k 1) [], l ∈ head :: body := by
    intro l hl
    rw [hsplit, List.mem_append]
    rcases List.mem_append.mp hl with hl | hl
    · exact .inl hl
    · rw [List.mem_replicate] at hl ⊢
      exact .inr ⟨by omega, hl.2⟩
  rw [htext, hsplit, keepNewlines_unlines (fun l hl => hnl l (hsub l (List.mem_append_left _ hl)))
    hms (List.cons_ne_nil _ _), lines_unlines fun l hl => hnl l (hsub l hl), List.cons_append,
    List.map_cons, stripFrom]
  have hin : inModelSection false (chomp head) = true := by
    rw [inModelSection, if_pos (by rw [isHeader_congr (trimmed_chomp head), hh])]
    rw [isModelHeader_congr (trimmed_chomp head)]
    exact hm head List.mem_cons_self hh
  rw [if_pos hin, ← List.append_nil (List.map chomp _), stripFrom_modelled, stripFrom]
  intro l hl hlh
  obtain ⟨l', hl', rfl⟩ := List.mem_map.mp hl
  rw [isHeader_congr (trimmed_chomp l')] at hlh
  rw [isModelHeader_congr (trimmed_chomp l')]
  exact hm l' (hsub l' (.tail _ hl')) hlh

theorem keepNewlines_settled (h : ∀ l ∈ ls, '\n' ∉ l) :
    keepNewlines 2 (unlines (settled ls)) = unlines (settled ls) := by
  obtain ⟨ms, k, rfl, hms⟩ := exists_empty_lines ls
  by_cases hne : ms = []
  · subst hne
    cases k with
    | zero => rfl
    | succ k =>
      rw [List.nil_append, settled_replicate]
      decide
  · rw [settled_append hms hne]
    exact keepNewlines_unlines (fun l hl => h l (List.mem_append_left _ hl)) hms hne 1 1

theorem blocks_visible (h : ∀ s ∈ ss, ModelSection s) (hne : ss ≠ []) :
    ∃ c ∈ ss.flatMap sectionBlock, c ≠ '\n' := by
  obtain ⟨head, body, htext, -, hh, -⟩ := blocks_lines h hne
  have hopen : '[' ∈ trimmed head := by
    rw [isHeader, Bool.and_eq_true, decide_eq_true_eq] at hh
    exact List.mem_of_mem_head? hh.1
  have hin : '[' ∈ head :=
    (List.dropWhile_sublist _).mem ((List.rdropWhile_prefix _ _).subset hopen)
  rw [htext, unlines_cons]
  exact ⟨'[', List.mem_append_left _ hin, by decide⟩

/-- What a later merge preserves of an earlier one: the lines that the earlier one preserved, once
more without a carriage return. -/
theorem preservedLines_merge (h : ∀ s ∈ ss, ModelSection s) (e : List Char) :
    preservedLines (mergeConfig e ss) = (settled (preservedLines e)).map chomp := by
  have hnl := settled_newlines (@preservedLines_newlines e)
  have hforeign : Foreign ((settled (preservedLines e)).map chomp) :=
    foreign_chomp (foreign_settled (foreign_stripFrom false _))
  rw [preservedLines, mergeConfig_eq]
  by_cases hss : ss = []
  · have hall := stripFrom_foreign hforeign []
    rw [hss, List.flatMap_nil, List.append_nil, keepNewlines_settled preservedLines_newlines,
      lines_unlines hnl]
    rwa [List.append_nil, stripFrom, List.append_nil] at hall
  · rw [keepNewlines_behind 2 (blocks_visible h hss), lines_unlines_append hnl,
      stripFrom_foreign hforeign, stripFrom_blocks h hss, List.append_nil]

theorem count_chomp_le (l : Line) : (chomp l).count '\r' ≤ l.count '\r' :=
  (chomp_sublist l).count_le _

theorem count_chomp (h : (chomp l).count '\r' = l.count '\r') : l.getLast? ≠ some '\r' := by
  intro hl
  rw [chomp, if_pos hl] at h
  have hne : l ≠ [] := by
    rintro rfl
    cases hl
  rw [List.getLast?_eq_some_getLast hne, Option.some.injEq] at hl
  rw [← List.dropLast_append_getLast hne, hl, List.dropLast_concat, List.count_append] at h
  simp at h

theorem chomp_eq (h : l.getLast? ≠ some '\r') : chomp l = l := if_neg h

/-- The number of carriage returns tells whether a line has lost one. -/
theorem map_chomp_of_count (h : (unlines (ls.map chomp)).count '\r' = (unlines ls).count '\r') :
    ∀ l ∈ ls, l.getLast? ≠ some '\r' := by
  have hle (ls : List Line) :
      (unlines (ls.map chomp)).count '\r' ≤ (unlines ls).count '\r' := by
    induction ls with
    | nil => exact le_refl _
    | cons l ls ih =>
      have hl := count_chomp_le l
      simp only [List.map_cons, unlines_cons, List.count_append, List.count_cons]
      omega
  induction ls with
  | nil => exact fun l hl => absurd hl List.not_mem_nil
  | cons l ls ih =>
    have hl := count_chomp_le l
    have hls := hle ls
    simp only [List.map_cons, unlines_cons, List.count_append, List.count_cons] at h
    refine List.forall_mem_cons.mpr ⟨count_chomp (by omega), ih (by omega)⟩

theorem count_merge (e : List Char) (ss : List (List Char)) : (mergeConfig e ss).count '\r' =
    (unlines (settled (preservedLines e))).count '\r' + (ss.flatMap sectionBlock).count '\r' := by
  rw [mergeConfig_eq, count_keepNewlines (by decide), List.count_append]

end Scan

/-- A rotation leaves nothing of the earlier push exactly where no preserved line ends with a
carriage return that is not part of its end. -/
theorem mergeConfig_rotation (e : List Char) (s₁ s₂ : List (List Char))
    (h₁ : ∀ s ∈ s₁, ModelSection s) :
    mergeConfig (mergeConfig e s₁) s₂ = mergeConfig e s₂ ↔
      ∀ l ∈ preservedLines e, l.getLast? ≠ some '\r' := by
  constructor
  · intro heq
    have hcount := congrArg (List.count '\r') heq
    rw [count_merge, count_merge, preservedLines_merge h₁, count_settled (by decide),
      Nat.add_right_cancel_iff] at hcount
    intro l hl
    by_cases hne : l = []
    · rw [hne]
      exact nofun
    · exact map_chomp_of_count hcount l (settled_of_mem hl hne)
  · intro hcr
    have hchomp : (settled (preservedLines e)).map chomp = settled (preservedLines e) := by
      conv_rhs => rw [← List.map_id (settled (preservedLines e))]
      apply List.map_congr_left
      intro l hl
      rcases mem_settled hl with hl | rfl
      · exact chomp_eq (hcr l hl)
      · rfl
    rw [mergeConfig_eq (mergeConfig e s₁), preservedLines_merge h₁, hchomp, settled_settled,
      ← mergeConfig_eq]

def pushed (key : String) : List Char := ("[model.m]\napi_key = \"" ++ key ++ "\"\n").toList

theorem pushed_section : ∀ s ∈ [pushed "old"], ModelSection s := by
  intro s hs
  rw [List.mem_singleton.mp hs]
  exact ⟨['m'], ["api_key = \"old\"".toList], by decide, by decide +kernel⟩

theorem mergeConfig_rotation_cli : (∀ s ∈ [pushed "old"], ModelSection s) ∧
    mergeConfig (mergeConfig "[cli]\r\nauto = true\r\n".toList [pushed "old"]) [pushed "new"] =
      mergeConfig "[cli]\r\nauto = true\r\n".toList [pushed "new"] :=
  ⟨pushed_section, (mergeConfig_rotation _ _ _ pushed_section).mpr (by decide)⟩

/-- A carriage return at the very end of the file is part of the last line at the first push, and of
its end at the second. -/
theorem mergeConfig_rotation_fails :
    (¬ ∀ (e : List Char) (s₁ s₂ : List (List Char)), (∀ s ∈ s₁, ModelSection s) →
      (∀ s ∈ s₂, ModelSection s) →
      mergeConfig (mergeConfig e s₁) s₂ = mergeConfig e s₂) ∧
    mergeConfig "a = 1\r".toList [pushed "old"] ≠
      mergeConfig (mergeConfig "a = 1\r".toList [pushed "old"]) [pushed "old"] := by
  have hne : mergeConfig (mergeConfig "a = 1\r".toList [pushed "old"]) [pushed "old"] ≠
      mergeConfig "a = 1\r".toList [pushed "old"] := by decide
  exact ⟨fun hall => hne (hall _ _ _ pushed_section pushed_section), hne.symm⟩

end FleetOrchestrator.Provision
