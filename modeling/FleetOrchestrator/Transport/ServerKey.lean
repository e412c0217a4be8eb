import FleetOrchestrator.Encoding.Search
import FleetOrchestrator.Encoding.Urls

/-! The secret in the endpoint of a worker, and what is shown of it. -/

namespace FleetOrchestrator.Transport

open Encoding

def marker : List Char := "server-key=".toList

def redacted : List Char := "<redacted>".toList

/-- The characters that end the value of a parameter. -/
def endsValue (c : Char) : Bool := c == '&' || c == '#'

def maskedText (t : List Char) : List Char :=
  match splitFirst marker t with
  | none => t
  | some (front, rest) => front ++ (marker ++ (redacted ++ rest.dropWhile fun c => !endsValue c))

def maskServerKey (endpoint : String) : String := String.ofList (maskedText endpoint.toList)

section Values

/-- A text that goes on to the end of a value. -/
def Inside (v : List Char) : Prop := ∀ c ∈ v, endsValue c = false

instance (v : List Char) : Decidable (Inside v) :=
  List.decidableBAll (fun c => endsValue c = false) v

/-- The end of the text, or of a value. -/
def Ended (r : List Char) : Prop := ∀ c ∈ r.head?, endsValue c = true

variable {v w r t : List Char}

theorem takeWhile_value (hv : Inside v) (hr : Ended r) :
    (v ++ r).takeWhile (fun c => !endsValue c) = v := by
  rw [List.takeWhile_append_of_pos (by simpa [Inside] using hv)]
  cases r with
  | nil => simp
  | cons c r => simp [show endsValue c = true from hr c rfl]

theorem dropWhile_value (hv : Inside v) (hr : Ended r) :
    (v ++ r).dropWhile (fun c => !endsValue c) = r := by
  have hboth := List.takeWhile_append_dropWhile (p := fun c => !endsValue c) (l := v ++ r)
  rw [takeWhile_value hv hr] at hboth
  exact List.append_cancel_left hboth

theorem inside_takeWhile (t : List Char) : Inside (t.takeWhile fun c => !endsValue c) := by
  intro c hc
  simpa using List.mem_takeWhile_imp hc

theorem ended_dropWhile (t : List Char) : Ended (t.dropWhile fun c => !endsValue c) := by
  intro c hc
  have hnot := List.head?_dropWhile_not (fun c => !endsValue c) t
  rw [Option.mem_def.mp hc] at hnot
  simpa using hnot

theorem dropWhile_of_not_inside (hv : ¬Inside v) (r : List Char) :
    (v ++ r).dropWhile (fun c => !endsValue c) = v.dropWhile (fun c => !endsValue c) ++ r := by
  rw [List.dropWhile_append, if_neg]
  simpa [Inside] using hv

end Values

section Masked

variable {t front rest v r : List Char}

theorem maskedText_marked (h : splitFirst marker t = some (front, rest)) :
    maskedText t =
      front ++ (marker ++ (redacted ++ rest.dropWhile fun c => !endsValue c)) := by
  simp only [maskedText, h]

theorem maskedText_unmarked (h : ¬marker <:+: t) : maskedText t = t := by
  cases hfirst : splitFirst marker t with
  | none => simp only [maskedText, hfirst]
  | some p =>
    exfalso
    apply h
    rw [eq_of_splitFirst hfirst]
    exact ⟨p.1, p.2, by simp⟩

/-- One value goes, and the rest is as it was. -/
theorem maskedText_keeps (h : marker <:+: t) :
    ∃ front v rest, t = front ++ (marker ++ (v ++ rest)) ∧ Inside v ∧ Ended rest ∧
      maskedText t = front ++ (marker ++ (redacted ++ rest)) := by
  cases hfirst : splitFirst marker t with
  | none => exact absurd h (splitFirst_eq_none hfirst)
  | some p =>
    refine ⟨p.1, p.2.takeWhile fun c => !endsValue c, p.2.dropWhile fun c => !endsValue c, ?_,
      inside_takeWhile p.2, ended_dropWhile p.2, maskedText_marked hfirst⟩
    rw [List.takeWhile_append_dropWhile]
    exact eq_of_splitFirst hfirst

theorem inside_redacted : Inside redacted := by decide

theorem maskedText_idem (t : List Char) : maskedText (maskedText t) = maskedText t := by
  cases hfirst : splitFirst marker t with
  | none => rw [maskedText_unmarked (splitFirst_eq_none hfirst),
      maskedText_unmarked (splitFirst_eq_none hfirst)]
  | some p =>
    have hagain (rest : List Char) :
        splitFirst marker (p.1 ++ (marker ++ rest)) = some (p.1, rest) := by
      rw [eq_of_splitFirst hfirst] at hfirst
      exact splitFirst_stable hfirst
    rw [maskedText_marked hfirst, maskedText_marked (hagain _),
      dropWhile_value inside_redacted (ended_dropWhile p.2)]

end Masked

section Keys

/-- A parameter without the value of a server key. -/
def withoutValue (p : List Char) : List Char := if marker <+: p then marker else p

/-- A URL without the values of its server keys. -/
def blanked (u : Url) : Url := { u with query := u.query.map (List.map withoutValue) }

/-- The two differ in the values of server keys and nothing else. -/
def SameButKeys (s t : String) : Prop :=
  blanked (Url.parse s.toList) = blanked (Url.parse t.toList)

/-- From the first marker in the text up to a server key no value ends. -/
def Covered (endpoint : String) : Prop :=
  ∀ ps p qs, (Url.parse endpoint.toList).query = some (ps ++ p :: qs) → marker <+: p →
    ∀ first, splitFirst marker (Url.lead (Url.parse endpoint.toList).front ps) = some first →
      Inside first.2

/-- What masking is for. -/
structure Masks (endpoint : String) : Prop where
  hides : ∀ other, SameButKeys endpoint other → maskServerKey endpoint = maskServerKey other
  unmarked : ¬marker <:+: endpoint.toList → maskServerKey endpoint = endpoint
  keeps : marker <:+: endpoint.toList → ∃ front v rest,
    endpoint.toList = front ++ (marker ++ (v ++ rest)) ∧ Inside v ∧ Ended rest ∧
      (maskServerKey endpoint).toList = front ++ (marker ++ (redacted ++ rest))
  idempotent : maskServerKey (maskServerKey endpoint) = maskServerKey endpoint

variable {ps qs : List (List Char)} {front x v p q fragment : List Char}

theorem lead_ends (front : List Char) (ps : List (List Char)) :
    ∃ l d, Url.lead front ps = l ++ [d] ∧ (d = '?' ∨ d = '&') := by
  obtain rfl | ⟨qs, q, rfl⟩ := ps.eq_nil_or_concat
  · exact ⟨front, '?', rfl, Or.inl rfl⟩
  · refine ⟨front ++ '?' :: (qs.flatMap (· ++ ['&']) ++ q), '&', ?_, Or.inr rfl⟩
    simp [Url.lead]

theorem marker_ne_nil : marker ≠ [] := by decide

theorem mark_notMem {d : Char} (hd : d = '?' ∨ d = '&') : d ∉ marker := by
  obtain rfl | rfl := hd <;> decide

theorem splitFirst_lead (front x : List Char) (ps : List (List Char)) :
    splitFirst marker (Url.lead front ps ++ (marker ++ x)) =
      match splitFirst marker (Url.lead front ps) with
      | some (pre, post) => some (pre, post ++ (marker ++ x))
      | none => some (Url.lead front ps, x) := by
  obtain ⟨l, d, hlead, hd⟩ := lead_ends front ps
  have hnil : splitFirst marker [] = none := if_neg marker_ne_nil
  rw [hlead, List.append_assoc, List.singleton_append,
    splitFirst_separated (mark_notMem hd) marker_ne_nil,
    splitFirst_separated (mark_notMem hd) marker_ne_nil, splitFirst_append, hnil]
  cases splitFirst marker l with
  | none => rfl
  | some first => simp

theorem withoutValue_key (hp : marker <+: p) : withoutValue p = marker := if_pos hp

theorem key_of_withoutValue (h : withoutValue p = withoutValue q) : marker <+: p ↔ marker <+: q := by
  by_cases hp : marker <+: p
  · by_cases hq : marker <+: q
    · exact iff_of_true hp hq
    · rw [withoutValue, if_pos hp, withoutValue, if_neg hq] at h
      exact absurd (h ▸ List.prefix_refl marker) hq
  · by_cases hq : marker <+: q
    · rw [withoutValue, if_neg hp, withoutValue, if_pos hq] at h
      exact absurd (h ▸ List.prefix_refl marker) hp
    · exact iff_of_false hp hq

/-- Without a server key there is nothing to differ in. -/
theorem eq_of_withoutValue (hps : ∀ p ∈ ps, ¬marker <+: p)
    (h : ps.map withoutValue = qs.map withoutValue) : ps = qs := by
  induction ps generalizing qs with
  | nil => exact (List.map_eq_nil_iff.mp h.symm).symm
  | cons p ps ih =>
    cases qs with
    | nil => simp at h
    | cons q qs =>
      obtain ⟨hhead, htail⟩ := List.cons.inj h
      have hp := hps p List.mem_cons_self
      have hq : ¬marker <+: q := (key_of_withoutValue hhead).not.mp hp
      rw [withoutValue, if_neg hp, withoutValue, if_neg hq] at hhead
      rw [hhead, ih (fun p hp => hps p (List.mem_cons_of_mem _ hp)) htail]

/-- The masked text does not depend on a value that no other ends in front of. -/
theorem maskedText_covered {r : List Char} (hv : Inside v) (hr : Ended r)
    (hfirst : ∀ first, splitFirst marker (Url.lead front ps) = some first → Inside first.2) :
    maskedText (Url.lead front ps ++ (marker ++ v ++ r)) =
      ((splitFirst marker (Url.lead front ps)).map Prod.fst).getD (Url.lead front ps) ++
        (marker ++ (redacted ++ r)) := by
  have hsplit := splitFirst_lead front (v ++ r) ps
  rw [List.append_assoc]
  cases hlead : splitFirst marker (Url.lead front ps) with
  | none =>
    simp only [hlead] at hsplit
    rw [maskedText_marked hsplit, dropWhile_value hv hr]
    rfl
  | some first =>
    simp only [hlead] at hsplit
    have hwhole : Inside (first.2 ++ (marker ++ v)) := by
      intro c hc
      simp only [List.mem_append] at hc
      obtain hc | hc | hc := hc
      · exact hfirst first hlead c hc
      · exact (show Inside marker by decide) c hc
      · exact hv c hc
    have hrest := dropWhile_value hwhole hr
    simp only [List.append_assoc] at hrest
    rw [maskedText_marked hsplit, hrest]
    rfl

/-- A value behind the end of another is shown. -/
theorem maskedText_shown {first : List Char × List Char}
    (hlead : splitFirst marker (Url.lead front ps) = some first) (hshown : ¬Inside first.2)
    (x : List Char) :
    maskedText (Url.lead front ps ++ (marker ++ x)) =
      first.1 ++ (marker ++ (redacted ++
        ((first.2.dropWhile fun c => !endsValue c) ++ (marker ++ x)))) := by
  have hsplit := splitFirst_lead front x ps
  simp only [hlead] at hsplit
  rw [maskedText_marked hsplit, dropWhile_of_not_inside hshown]

variable {s t : String} {u : Url}

theorem inside_of_wellFormed (h : u.WellFormed) (hq : u.query = some (ps ++ (marker ++ v) :: qs)) :
    Inside v := by
  obtain ⟨hamp, hhash⟩ := (h.query _ hq).2 (marker ++ v) (by simp)
  intro c hc
  have hin : c ∈ marker ++ v := List.mem_append_right _ hc
  rw [endsValue, Bool.or_eq_false_iff, beq_eq_false_iff_ne, beq_eq_false_iff_ne]
  exact ⟨fun h => hamp (h ▸ hin), fun h => hhash (h ▸ hin)⟩

theorem ended_tail (h : Headed '#' fragment) (qs : List (List Char)) :
    Ended (Url.tail qs fragment) := by
  cases qs with
  | cons q qs =>
    intro c hc
    cases hc
    rfl
  | nil =>
    obtain rfl | ⟨rest, rfl⟩ := h
    · simp [Ended, Url.tail]
    · intro c hc
      cases hc
      rfl

theorem text_split (hq : (Url.parse s.toList).query = some (ps ++ p :: qs)) :
    s.toList = Url.lead (Url.parse s.toList).front ps ++
      (p ++ Url.tail qs (Url.parse s.toList).fragment) := by
  have hrender := Url.render_parse s.toList
  rw [← Url.render_split, ← hq]
  exact hrender.symm

/-- Behind a server key there is no other. -/
theorem key_last (hs : Covered s) (hq : (Url.parse s.toList).query = some (ps ++ p :: qs))
    (hp : marker <+: p) : ∀ q ∈ qs, ¬marker <+: q := by
  intro q hmem hkey
  obtain ⟨a, b, rfl⟩ := List.append_of_mem hmem
  obtain ⟨v, rfl⟩ := hp
  have hlead : Url.lead (Url.parse s.toList).front (ps ++ (marker ++ v) :: a) =
      Url.lead (Url.parse s.toList).front ps ++
        (marker ++ (v ++ '&' :: a.flatMap (· ++ ['&']))) := by
    simp [Url.lead]
  have hsplit := splitFirst_lead (Url.parse s.toList).front
    (v ++ '&' :: a.flatMap (· ++ ['&'])) ps
  have hinside := hs (ps ++ (marker ++ v) :: a) q b (by simp [hq]) hkey
  rw [hlead, hsplit] at hinside
  cases hfirst : splitFirst marker (Url.lead (Url.parse s.toList).front ps) with
  | none =>
    simp only [hfirst] at hinside
    exact absurd (hinside _ rfl '&' (by simp)) (by decide)
  | some first =>
    simp only [hfirst] at hinside
    exact absurd (hinside _ rfl '&' (by simp)) (by decide)

theorem key_alone (hs : Covered s) (hq : (Url.parse s.toList).query = some (ps ++ p :: qs))
    (hp : marker <+: p) : (∀ q ∈ ps, ¬marker <+: q) ∧ ∀ q ∈ qs, ¬marker <+: q := by
  refine ⟨?_, key_last hs hq hp⟩
  intro q hmem hkey
  obtain ⟨a, b, rfl⟩ := List.append_of_mem hmem
  rw [List.append_assoc, List.cons_append] at hq
  exact key_last hs hq hkey p (by simp) hp

theorem string_of_parse (h : Url.parse s.toList = Url.parse t.toList) : s = t := by
  have htext := congrArg Url.render h
  rw [Url.render_parse, Url.render_parse] at htext
  exact String.toList_injective htext

theorem same_iff : SameButKeys s t ↔ (Url.parse s.toList).front = (Url.parse t.toList).front ∧
    (Url.parse s.toList).query.map (List.map withoutValue) =
      (Url.parse t.toList).query.map (List.map withoutValue) ∧
    (Url.parse s.toList).fragment = (Url.parse t.toList).fragment := by
  rw [SameButKeys, blanked, blanked, Url.mk.injEq]

theorem hides_of_covered (hs : Covered s) (h : SameButKeys s t) :
    maskServerKey s = maskServerKey t := by
  obtain ⟨hfront, hquery, hfragment⟩ := same_iff.mp h
  have hequal (hq : (Url.parse s.toList).query = (Url.parse t.toList).query) :
      maskServerKey s = maskServerKey t := by
    rw [string_of_parse (Url.ext hfront hq hfragment)]
  cases hps : (Url.parse s.toList).query with
  | none =>
    rw [hps, Option.map_none, eq_comm, Option.map_eq_none_iff] at hquery
    exact hequal (hps.trans hquery.symm)
  | some params =>
    rw [hps, Option.map_some, eq_comm, Option.map_eq_some_iff] at hquery
    obtain ⟨params', hqs, hvalues⟩ := hquery
    by_cases hkey : ∃ p ∈ params, marker <+: p
    · obtain ⟨p, hmem, hp⟩ := hkey
      obtain ⟨ps, qs, rfl⟩ := List.append_of_mem hmem
      obtain ⟨hbefore, hbehind⟩ := key_alone hs hps hp
      rw [List.map_append, List.map_cons, List.map_eq_append_iff] at hvalues
      obtain ⟨ps', rest, rfl, hps', hrest⟩ := hvalues
      rw [List.map_eq_cons_iff] at hrest
      obtain ⟨p', qs', rfl, hp', hqs'⟩ := hrest
      obtain rfl := eq_of_withoutValue hbefore hps'.symm
      obtain rfl := eq_of_withoutValue hbehind hqs'.symm
      obtain ⟨v, rfl⟩ := hp
      obtain ⟨v', rfl⟩ := (key_of_withoutValue hp').mpr (List.prefix_append marker v)
      have hfirst := hs ps _ qs hps (List.prefix_append marker v)
      have hended := ended_tail (Url.wellFormed_parse s.toList).fragment qs
      have hv := inside_of_wellFormed (Url.wellFormed_parse s.toList) hps
      have hv' := inside_of_wellFormed (Url.wellFormed_parse t.toList) hqs
      rw [maskServerKey, maskServerKey, text_split hps, text_split hqs, ← hfront, ← hfragment,
        maskedText_covered hv hended hfirst, maskedText_covered hv' hended hfirst]
    · rw [eq_of_withoutValue (fun p hmem hp => hkey ⟨p, hmem, hp⟩) hvalues.symm, ← hqs] at hps
      exact hequal hps

theorem covered_of_hides (h : ∀ other, SameButKeys s other → maskServerKey s = maskServerKey other) :
    Covered s := by
  intro ps p qs hps hp first hfirst
  by_contra hshown
  obtain ⟨v, rfl⟩ := hp
  have hwell := Url.wellFormed_parse s.toList
  -- the same URL with one more character in the value that is shown
  have hwell' : (Url.mk (Url.parse s.toList).front (some (ps ++ (marker ++ (v ++ ['x'])) :: qs))
      (Url.parse s.toList).fragment).WellFormed := by
    refine ⟨hwell.front, ?_, hwell.fragment⟩
    intro params hparams
    cases hparams
    refine ⟨by simp, ?_⟩
    intro p hmem
    have hold := (hwell.query _ hps).2
    simp only [List.mem_append, List.mem_cons] at hmem hold
    obtain hmem | rfl | hmem := hmem
    · exact hold p (Or.inl hmem)
    · have hvalue := hold (marker ++ v) (Or.inr (Or.inl rfl))
      simpa [List.mem_append, not_or] using hvalue
    · exact hold p (Or.inr (Or.inr hmem))
  have hparse := Url.parse_render hwell'
  have hsame : SameButKeys s (String.ofList (Url.render (Url.mk (Url.parse s.toList).front
      (some (ps ++ (marker ++ (v ++ ['x'])) :: qs)) (Url.parse s.toList).fragment))) := by
    rw [same_iff, String.toList_ofList, hparse, hps]
    simp [withoutValue]
  have htext := text_split hps
  have hmask := h _ hsame
  generalize Url.parse s.toList = u at *
  rw [maskServerKey, maskServerKey, String.toList_ofList, Url.render_split, htext] at hmask
  have hlists := String.ofList_injective hmask
  rw [List.append_assoc, List.append_assoc, maskedText_shown hfirst hshown,
    maskedText_shown hfirst hshown] at hlists
  have hlengths := congrArg List.length hlists
  simp only [List.length_append, List.length_cons, List.length_nil] at hlengths
  omega

/-- The values are hidden where every server key of the URL is at the first marker in the text, or
in the value behind it. -/
theorem masks_iff (endpoint : String) : Masks endpoint ↔ Covered endpoint := by
  constructor
  · intro h
    exact covered_of_hides h.hides
  · intro h
    refine ⟨fun other => hides_of_covered h, ?_, ?_, ?_⟩
    · intro hnone
      rw [maskServerKey, maskedText_unmarked hnone, String.ofList_toList]
    · intro hsome
      simpa only [maskServerKey, String.toList_ofList] using maskedText_keeps hsome
    · rw [maskServerKey, maskServerKey, String.toList_ofList, maskedText_idem]

/-- The second of two keys is in what is shown. -/
theorem masks_failing : ¬Masks "wss://h:1/ws?server-key=old&server-key=new" := by
  intro h
  have hold : blanked (Url.parse "wss://h:1/ws?server-key=old&server-key=new".toList) =
      ⟨"wss://h:1/ws".toList, some [marker, marker], []⟩ := by decide +kernel
  have hnew : blanked (Url.parse "wss://h:1/ws?server-key=old&server-key=".toList) =
      ⟨"wss://h:1/ws".toList, some [marker, marker], []⟩ := by decide +kernel
  have hshown : maskServerKey "wss://h:1/ws?server-key=old&server-key=new" ≠
      maskServerKey "wss://h:1/ws?server-key=old&server-key=" := by decide +kernel
  exact hshown (h.hides _ (hold.trans hnew.symm))

end Keys

end FleetOrchestrator.Transport
