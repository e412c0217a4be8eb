import Mathlib.Data.List.Sort
import Mathlib.Data.String.Basic
import FleetOrchestrator.Encoding.Search
import FleetOrchestrator.Encoding.Urls
import FleetOrchestrator.Tables.Keyed

/-! The labels of a worker as one argument of its join command, and as the worker reads them. -/

namespace FleetOrchestrator.Provision

open Encoding Tables

abbrev LabelMap := Keyed String (String × String) Prod.fst

def LabelMap.value (m : LabelMap) (k : String) : String := ((m.get k).map Prod.snd).getD ""

def LabelMap.sortedKeys (m : LabelMap) : List String :=
  (m.rows.map Prod.fst).insertionSort (· ≤ ·)

def LabelMap.pair (m : LabelMap) (k : String) : List Char := k.toList ++ '=' :: (m.value k).toList

def LabelMap.joined (m : LabelMap) : String :=
  String.ofList ([','].intercalate (m.sortedKeys.map m.pair))

/-- The argument of `--labels`; without labels the option is left out. -/
def LabelMap.argument (m : LabelMap) : Option String := if m.rows.isEmpty then none else some m.joined

/-- The command-line parser, as far as its documentation says what becomes of the argument behind
`--labels`: it is cut at every comma, and one that looks like an option is none of its values. -/
structure Clap where
  values : String → Except String (List String)
  delimited (text : String) (h : text.toList.head? ≠ some '-') :
    values text = .ok ((text.toList.splitOn ',').map String.ofList)
  hyphened (text : String) (h : text.toList.head? = some '-') (hlong : text ≠ "-") :
    ∃ e, values text = .error e

def parseLabels : LabelMap → List String → Except String LabelMap
  | out, [] => .ok out
  | out, item :: items =>
    match splitFirst ['='] item.toList with
    | none => .error ("invalid label '" ++ item ++ "' — expected key=value")
    | some (k, v) =>
      if k.isEmpty then .error ("invalid label '" ++ item ++ "' — empty key")
      else parseLabels (out.put (String.ofList k, String.ofList v)) items

/-- What the worker makes of the option. -/
def readLabels (C : Clap) : Option String → Except String LabelMap
  | none => parseLabels .empty []
  | some text =>
    match C.values text with
    | .error e => .error e
    | .ok items => parseLabels .empty items

/-- The labels come back as they were. -/
def Arrives (C : Clap) (m : LabelMap) : Prop :=
  ∃ out, readLabels C m.argument = .ok out ∧ ∀ k, out.get k = m.get k

/-- No separator within the labels, and no hyphen in front of the first key. -/
structure Unambiguous (m : LabelMap) : Prop where
  keys : ∀ r ∈ m.rows, '=' ∉ r.1.toList ∧ ',' ∉ r.1.toList
  values : ∀ r ∈ m.rows, ',' ∉ r.2.toList
  first : m.sortedKeys.head?.bind (·.toList.head?) ≠ some '-'

section Round

variable {C : Clap} {m out : LabelMap} {r : String × String} {k v : String} {items : List String}

theorem mem_sortedKeys : k ∈ m.sortedKeys ↔ ∃ r ∈ m.rows, r.1 = k := by
  rw [LabelMap.sortedKeys, (List.perm_insertionSort _ _).mem_iff, List.mem_map]

theorem nodup_sortedKeys (m : LabelMap) : m.sortedKeys.Nodup :=
  (List.perm_insertionSort _ _).nodup_iff.mpr m.nodup

theorem value_of_mem (h : r ∈ m.rows) : m.value r.1 = r.2 := by
  rw [LabelMap.value, Keyed.get_of_mem h]
  rfl

/-- What is read holds no separator that the reading splits at. -/
theorem parseLabels_clean (hi : ∀ item ∈ items, ',' ∉ item.toList)
    (ho : ∀ r ∈ out.rows, ('=' ∉ r.1.toList ∧ ',' ∉ r.1.toList) ∧ ',' ∉ r.2.toList)
    (h : parseLabels out items = .ok m) :
    ∀ r ∈ m.rows, ('=' ∉ r.1.toList ∧ ',' ∉ r.1.toList) ∧ ',' ∉ r.2.toList := by
  induction items generalizing out with
  | nil =>
    cases h
    exact ho
  | cons item items ih =>
    rw [parseLabels] at h
    split at h
    · cases h
    · next k v hs =>
      split at h
      · cases h
      · apply ih (fun x hx => hi x (.tail _ hx)) ?_ h
        intro r hr
        have heq := eq_of_splitFirst hs
        have hcomma := hi item List.mem_cons_self
        rw [heq] at hcomma
        simp only [List.mem_append, not_or] at hcomma
        rcases List.mem_append.mp hr with hr | hr
        · exact ho r (List.mem_filter.mp hr).1
        · cases List.mem_singleton.mp hr
          rw [String.toList_ofList, String.toList_ofList]
          exact ⟨⟨notMem_of_splitFirst hs, hcomma.1⟩, hcomma.2.2⟩

theorem parseLabels_pairs {ks : List String} (hn : ks.Nodup) (hk : ∀ k ∈ ks, k ≠ "")
    (he : ∀ k ∈ ks, '=' ∉ k.toList) (out : LabelMap) :
    ∃ out', parseLabels out (ks.map fun k => String.ofList (m.pair k)) = .ok out' ∧
      ∀ k, out'.get k = if k ∈ ks then some (k, m.value k) else out.get k := by
  induction ks generalizing out with
  | nil => exact ⟨out, rfl, fun k => (if_neg List.not_mem_nil).symm⟩
  | cons k ks ih =>
    obtain ⟨hfresh, hn⟩ := List.nodup_cons.mp hn
    obtain ⟨out', hparse, hget⟩ := ih hn (fun x hx => hk x (.tail _ hx))
      (fun x hx => he x (.tail _ hx)) (out.put (k, m.value k))
    refine ⟨out', ?_, fun x => ?_⟩
    · have hsplit : splitFirst ['='] (String.ofList (m.pair k)).toList =
          some (k.toList, (m.value k).toList) := by
        rw [String.toList_ofList]
        exact splitFirst_singleton (he k List.mem_cons_self) _
      have hne : k.toList.isEmpty = false := by
        rw [List.isEmpty_eq_false_iff, ne_eq, String.toList_eq_nil_iff]
        exact hk k List.mem_cons_self
      rw [List.map_cons, parseLabels, hsplit]
      dsimp only
      rw [hne, if_neg Bool.false_ne_true, String.ofList_toList, String.ofList_toList, hparse]
    · rw [hget]
      by_cases hx : x = k
      · subst hx
        rw [if_neg hfresh, if_pos List.mem_cons_self]
        exact Keyed.get_put_self
      · have hput : (out.put (k, m.value k)).get x = out.get x := Keyed.get_put_ne hx
        rw [hput]
        simp [hx]

theorem joined_head (hk : ∀ r ∈ m.rows, r.1 ≠ "") :
    m.joined.toList.head? = m.sortedKeys.head?.bind (·.toList.head?) := by
  rw [LabelMap.joined, String.toList_ofList]
  cases hs : m.sortedKeys with
  | nil => rfl
  | cons k ks =>
    obtain ⟨r, hr, rfl⟩ := mem_sortedKeys.mp (hs ▸ List.mem_cons_self)
    obtain ⟨c, cs, hc⟩ := List.exists_cons_of_ne_nil (mt String.toList_eq_nil_iff.mp (hk r hr))
    cases ks <;> simp [LabelMap.pair, hc]

theorem pair_joined (hr : r ∈ m.rows) : r.1.toList ++ '=' :: r.2.toList <:+: m.joined.toList := by
  rw [LabelMap.joined, String.toList_ofList]
  have h := infix_intercalate [','] (List.mem_map_of_mem (f := m.pair) (mem_sortedKeys.mpr ⟨r, hr, rfl⟩))
  rwa [LabelMap.pair, value_of_mem hr] at h

theorem parsed_items (hu : Unambiguous m) (hm : m.sortedKeys ≠ []) :
    (m.joined.toList.splitOn ',').map String.ofList =
      m.sortedKeys.map fun k => String.ofList (m.pair k) := by
  rw [LabelMap.joined, String.toList_ofList, List.splitOn_intercalate, List.map_map]
  · rfl
  · intro l hl hc
    obtain ⟨k, hk, rfl⟩ := List.mem_map.mp hl
    obtain ⟨r, hr, rfl⟩ := mem_sortedKeys.mp hk
    rw [LabelMap.pair, value_of_mem hr, List.mem_append, List.mem_cons] at hc
    rcases hc with hc | hc | hc
    · exact (hu.keys r hr).2 hc
    · cases hc
    · exact hu.values r hr hc
  · rwa [ne_eq, List.map_eq_nil_iff]

theorem sortedKeys_eq_nil : m.sortedKeys = [] ↔ m.rows = [] := by
  rw [LabelMap.sortedKeys, ← List.length_eq_zero_iff, List.length_insertionSort, List.length_map,
    List.length_eq_zero_iff]

theorem argument_some (h : m.rows ≠ []) : m.argument = some m.joined := by
  rw [LabelMap.argument, if_neg (by simpa using h)]

theorem get_sortedKeys (k : String) :
    (if k ∈ m.sortedKeys then some (k, m.value k) else none) = m.get k := by
  cases hg : m.get k with
  | none =>
    rw [if_neg]
    intro hk
    obtain ⟨r, hr, rfl⟩ := mem_sortedKeys.mp hk
    rw [Keyed.get_of_mem hr] at hg
    cases hg
  | some r =>
    obtain ⟨hr, rfl⟩ := Keyed.get_eq_some.mp hg
    rw [if_pos (mem_sortedKeys.mpr ⟨r, hr, rfl⟩), value_of_mem hr]

theorem arrives_empty (h : m.rows = []) : Arrives C m := by
  refine ⟨.empty, ?_, fun k => ?_⟩
  · rw [LabelMap.argument, h]
    rfl
  · rw [Keyed.get_empty, eq_comm, Keyed.get_eq_none, h]
    exact fun r hr => absurd hr List.not_mem_nil

theorem arrives_of_unambiguous (hk : ∀ r ∈ m.rows, r.1 ≠ "") (hu : Unambiguous m) :
    Arrives C m := by
  by_cases hm : m.rows = []
  · exact arrives_empty hm
  · have hfirst : m.joined.toList.head? ≠ some '-' := by
      rw [joined_head hk]
      exact hu.first
    have hkeys : ∀ k ∈ m.sortedKeys, k ≠ "" ∧ '=' ∉ k.toList := by
      intro k hks
      obtain ⟨r, hr, rfl⟩ := mem_sortedKeys.mp hks
      exact ⟨hk r hr, (hu.keys r hr).1⟩
    obtain ⟨out, hparse, hget⟩ := parseLabels_pairs (m := m) (nodup_sortedKeys m)
      (fun k h => (hkeys k h).1) (fun k h => (hkeys k h).2) .empty
    refine ⟨out, ?_, fun k => ?_⟩
    · rw [argument_some hm, readLabels, C.delimited _ hfirst,
        parsed_items hu (mt sortedKeys_eq_nil.mp hm)]
      exact hparse
    · rw [hget, Keyed.get_empty, get_sortedKeys]

theorem unambiguous_of_arrives (hk : ∀ r ∈ m.rows, r.1 ≠ "") (h : Arrives C m) :
    Unambiguous m := by
  obtain ⟨out, hread, hget⟩ := h
  by_cases hm : m.rows = []
  · refine ⟨?_, ?_, ?_⟩
    · simp [hm]
    · simp [hm]
    · rw [sortedKeys_eq_nil.mpr hm]
      exact nofun
  · rw [argument_some hm, readLabels] at hread
    have hfirst : m.joined.toList.head? ≠ some '-' := by
      intro hh
      obtain ⟨r, hr⟩ := List.exists_mem_of_ne_nil _ hm
      have hlong : m.joined ≠ "-" := by
        intro he
        have heq : '=' ∈ m.joined.toList := (pair_joined hr).subset (by simp)
        rw [he] at heq
        exact absurd heq (by decide)
      obtain ⟨e, he⟩ := C.hyphened _ hh hlong
      rw [he] at hread
      cases hread
    rw [C.delimited _ hfirst] at hread
    have hclean : ∀ r ∈ out.rows, ('=' ∉ r.1.toList ∧ ',' ∉ r.1.toList) ∧ ',' ∉ r.2.toList := by
      apply parseLabels_clean _ _ hread
      · intro item hi
        obtain ⟨part, hp, rfl⟩ := List.mem_map.mp hi
        rw [String.toList_ofList]
        exact (part_of_splitOn hp).1
      · intro r hr
        cases hr
    have hback : ∀ r ∈ m.rows, r ∈ out.rows := by
      intro r hr
      have h := Keyed.get_of_mem hr
      rw [← hget] at h
      exact (Keyed.get_eq_some.mp h).1
    refine ⟨fun r hr => (hclean r (hback r hr)).1, fun r hr => (hclean r (hback r hr)).2, ?_⟩
    rw [← joined_head hk]
    exact hfirst

end Round

theorem labels_arrive (C : Clap) (m : LabelMap) (hk : ∀ r ∈ m.rows, r.1 ≠ "") :
    Arrives C m ↔ Unambiguous m :=
  ⟨unambiguous_of_arrives hk, arrives_of_unambiguous hk⟩

def cutAtCommas : Clap where
  values text :=
    if text.toList.head? = some '-' ∧ text ≠ "-" then .error "error: unexpected argument found"
    else .ok ((text.toList.splitOn ',').map String.ofList)
  delimited text h := by rw [if_neg fun hx => h hx.1]
  hyphened text h hlong := ⟨_, if_pos ⟨h, hlong⟩⟩

def oneLabel (k v : String) : LabelMap := ⟨[(k, v)], List.nodup_singleton k⟩

theorem labels_arrive_plain : (∀ r ∈ (oneLabel "arch" "arm64").rows, r.1 ≠ "") ∧
    Arrives cutAtCommas (oneLabel "arch" "arm64") := by
  have hk : ∀ r ∈ (oneLabel "arch" "arm64").rows, r.1 ≠ "" := by decide
  exact ⟨hk, (labels_arrive cutAtCommas _ hk).mpr ⟨by decide, by decide, by decide⟩⟩

/-- A value with a comma arrives as two labels, or is refused by the worker that was started; a key
with an equals sign arrives as another. -/
theorem labels_do_not_arrive :
    (¬ ∀ m : LabelMap, (∀ r ∈ m.rows, r.1 ≠ "") → Arrives cutAtCommas m) ∧
    ((readLabels cutAtCommas (oneLabel "a" "1,b=2").argument).map Keyed.rows =
      .ok [("a", "1"), ("b", "2")]) ∧
    ((readLabels cutAtCommas (oneLabel "k=x" "1").argument).map Keyed.rows = .ok [("k", "x=1")]) ∧
    ((readLabels cutAtCommas (oneLabel "a" "1,2").argument).map Keyed.rows =
      .error "invalid label '2' — expected key=value") := by
  refine ⟨fun hall => ?_, ?_, ?_, ?_⟩
  · have h := unambiguous_of_arrives (by decide) (hall (oneLabel "a" "1,b=2") (by decide))
    exact absurd h.values (by decide)
  · decide +kernel
  · decide +kernel
  · decide +kernel

end FleetOrchestrator.Provision
