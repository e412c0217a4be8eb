import FleetOrchestrator.Transport.ServerKey

/-! The endpoint of a worker without its secret, as it is dialed. -/

namespace FleetOrchestrator.Transport

open Encoding

/-- What is left around a parameter that goes with one of the marks beside it. -/
def joined (front behind : List Char) (sep : Char) : List Char :=
  if sep = '&' then front.dropLast ++ behind
  else match behind with
    | '&' :: rest => front ++ rest
    | _ => front.dropLast ++ behind

theorem joined_cases (l behind : List Char) (sep : Char) :
    joined (l ++ [sep]) behind sep = l ++ behind ∨
      ∃ rest, behind = '&' :: rest ∧ joined (l ++ [sep]) behind sep = l ++ sep :: rest := by
  by_cases hsep : sep = '&'
  · exact Or.inl (by simp [joined, hsep])
  · cases behind with
    | nil => exact Or.inl (by simp [joined])
    | cons c rest =>
      by_cases hc : c = '&'
      · exact Or.inr ⟨rest, by rw [hc], by simp [joined, hsep, hc]⟩
      · exact Or.inl (by simp [joined, hc])

def splitText (t : List Char) : List Char × Option (List Char) :=
  match splitFirst marker t with
  | none => (t, none)
  | some (front, rest) =>
    match front.getLast? with
    | none => (t, none)
    | some sep =>
      if sep = '?' ∨ sep = '&' then
        let secret := rest.takeWhile fun c => !endsValue c
        if secret.isEmpty then (t, none)
        else (joined front (rest.dropWhile fun c => !endsValue c) sep, some secret)
      else (t, none)

def splitServerKey (endpoint : String) : String × Option String :=
  (String.ofList (splitText endpoint.toList).1,
    (splitText endpoint.toList).2.map String.ofList)

section Parameters

/-- A server key with a value. -/
def isKeyed (p : List Char) : Bool := marker.isPrefixOf p && p != marker

def firstKey (u : Url) : Option (List Char) :=
  ((u.query.getD []).find? isKeyed).map (List.drop marker.length)

/-- A query without parameters is none. -/
def queryOf (params : List (List Char)) : Option (List (List Char)) :=
  if params = [] then none else some params

def withoutKeys (u : Url) : Url :=
  { u with query := u.query.bind fun params => queryOf (params.filter fun p => !isKeyed p) }

end Parameters

section Places

/-- A place in the text that looks like a server key with a value. -/
structure Candidate (t l : List Char) (d : Char) (v rest : List Char) : Prop where
  text : t = (l ++ [d]) ++ (marker ++ (v ++ rest))
  mark : d = '?' ∨ d = '&'
  value : v ≠ [] ∧ Inside v
  ended : Ended rest

/-- What looks like a server key is the first of the markers, and is a parameter. -/
def Unmistakable (endpoint : String) : Prop :=
  ∀ l d v rest, Candidate endpoint.toList l d v rest →
    splitFirst marker endpoint.toList = some (l ++ [d], v ++ rest) ∧
      ∃ ps qs, (Url.parse endpoint.toList).query = some (ps ++ (marker ++ v) :: qs) ∧
        l ++ [d] = Url.lead (Url.parse endpoint.toList).front ps

variable {t l v rest front : List Char} {d : Char}

theorem splitText_plain (h : ∀ l d v rest, splitFirst marker t = some (l ++ [d], v ++ rest) →
    ¬Candidate t l d v rest) : splitText t = (t, none) := by
  cases hfirst : splitFirst marker t with
  | none => simp only [splitText, hfirst]
  | some p =>
    obtain ⟨front, tail⟩ := p
    obtain rfl | ⟨l, d, rfl⟩ := front.eq_nil_or_concat
    · simp [splitText, hfirst]
    · have hvalue := List.takeWhile_append_dropWhile (p := fun c => !endsValue c) (l := tail)
      simp only [splitText, hfirst, List.concat_eq_append, List.getLast?_append, List.getLast?_singleton,
        Option.some_or]
      by_cases hd : d = '?' ∨ d = '&'
      · rw [if_pos hd]
        by_cases hv : (tail.takeWhile fun c => !endsValue c).isEmpty
        · rw [if_pos hv]
        · exfalso
          apply h l d (tail.takeWhile fun c => !endsValue c) (tail.dropWhile fun c => !endsValue c)
          · rw [hvalue, hfirst, List.concat_eq_append]
          · refine ⟨?_, hd, ⟨by simpa using hv, inside_takeWhile tail⟩, ended_dropWhile tail⟩
            rw [hvalue, ← List.concat_eq_append]
            exact eq_of_splitFirst hfirst
      · rw [if_neg hd]

theorem splitText_candidate (h : Candidate t l d v rest)
    (hfirst : splitFirst marker t = some (l ++ [d], v ++ rest)) :
    splitText t = (joined (l ++ [d]) rest d, some v) := by
  have hv : v.isEmpty = false := by simpa using h.value.1
  simp only [splitText, hfirst, List.getLast?_append, List.getLast?_singleton, Option.some_or,
    if_pos h.mark, takeWhile_value h.value.2 h.ended, dropWhile_value h.value.2 h.ended, hv]
  rfl

end Places

section Keys

variable {u : Url} {ps qs : List (List Char)} {p v l rest : List Char} {d : Char} {endpoint : String}

theorem isKeyed_iff : isKeyed p = true ↔ ∃ v, v ≠ [] ∧ p = marker ++ v := by
  rw [isKeyed, Bool.and_eq_true, List.isPrefixOf_iff_prefix, bne_iff_ne]
  constructor
  · rintro ⟨⟨v, rfl⟩, hne⟩
    exact ⟨v, fun h => hne (by rw [h, List.append_nil]), rfl⟩
  · rintro ⟨v, hv, rfl⟩
    exact ⟨List.prefix_append marker v, by simpa using hv⟩

/-- A server key with a value looks like one. -/
theorem key_candidate (hq : (Url.parse endpoint.toList).query = some (ps ++ (marker ++ v) :: qs))
    (hv : v ≠ []) : ∃ l d, Url.lead (Url.parse endpoint.toList).front ps = l ++ [d] ∧
      Candidate endpoint.toList l d v (Url.tail qs (Url.parse endpoint.toList).fragment) := by
  obtain ⟨l, d, hlead, hd⟩ := lead_ends (Url.parse endpoint.toList).front ps
  have hwell := Url.wellFormed_parse endpoint.toList
  refine ⟨l, d, hlead, ?_, hd, ⟨hv, inside_of_wellFormed hwell hq⟩, ended_tail hwell.fragment qs⟩
  rw [← hlead, ← List.append_assoc marker]
  exact text_split hq

theorem length_lead_lt (front p : List Char) (ps qs : List (List Char)) :
    (Url.lead front ps).length < (Url.lead front (ps ++ p :: qs)).length := by
  simp only [Url.lead, List.flatMap_append, List.flatMap_cons, List.length_append, List.length_cons]
  omega

/-- Two keys with values are not both the first. -/
theorem key_once (h : Unmistakable endpoint) {p : List Char} {mid : List (List Char)}
    (hq : (Url.parse endpoint.toList).query = some (ps ++ (marker ++ v) :: (mid ++ p :: qs)))
    (hv : v ≠ []) : isKeyed p = false := by
  by_contra hp
  obtain ⟨v', hv', rfl⟩ := isKeyed_iff.mp (by simpa using hp)
  obtain ⟨l, d, hlead, hl⟩ := key_candidate hq hv
  have hq' : (Url.parse endpoint.toList).query =
      some ((ps ++ (marker ++ v) :: mid) ++ (marker ++ v') :: qs) := by simpa using hq
  obtain ⟨l', d', hlead', hl'⟩ := key_candidate hq' hv'
  have hfirst := (h _ _ _ _ hl).1.symm.trans (h _ _ _ _ hl').1
  have hsame : l ++ [d] = l' ++ [d'] := congrArg Prod.fst (Option.some.inj hfirst)
  have hlonger := length_lead_lt (Url.parse endpoint.toList).front (marker ++ v) ps mid
  rw [hlead, hlead', hsame] at hlonger
  exact absurd hlonger (Nat.lt_irrefl _)

theorem others_unkeyed (h : Unmistakable endpoint)
    (hq : (Url.parse endpoint.toList).query = some (ps ++ (marker ++ v) :: qs)) (hv : v ≠ []) :
    (∀ p ∈ ps, isKeyed p = false) ∧ ∀ p ∈ qs, isKeyed p = false := by
  constructor
  · intro p hmem
    by_contra hp
    obtain ⟨v', hv', rfl⟩ := isKeyed_iff.mp (by simpa using hp)
    obtain ⟨a, b, rfl⟩ := List.append_of_mem hmem
    rw [List.append_assoc, List.cons_append] at hq
    have hnot := key_once h hq hv'
    rw [isKeyed_iff.mpr ⟨v, hv, rfl⟩] at hnot
    exact absurd hnot (by decide)
  · intro p hmem
    obtain ⟨a, b, rfl⟩ := List.append_of_mem hmem
    exact key_once h hq hv

theorem unkeyed (h : ∀ l d v rest, ¬Candidate endpoint.toList l d v rest) :
    ∀ p ∈ (Url.parse endpoint.toList).query.getD [], isKeyed p = false := by
  intro p hmem
  cases hq : (Url.parse endpoint.toList).query with
  | none => simp [hq] at hmem
  | some params =>
    rw [hq, Option.getD_some] at hmem
    by_contra hp
    obtain ⟨v, hv, rfl⟩ := isKeyed_iff.mp (by simpa using hp)
    obtain ⟨ps, qs, rfl⟩ := List.append_of_mem hmem
    obtain ⟨l, d, -, hl⟩ := key_candidate hq hv
    exact h _ _ _ _ hl

theorem firstKey_unkeyed (h : ∀ p ∈ u.query.getD [], isKeyed p = false) : firstKey u = none := by
  rw [firstKey, List.find?_eq_none.mpr (by simpa using h), Option.map_none]

theorem withoutKeys_unkeyed (hu : u.WellFormed) (h : ∀ p ∈ u.query.getD [], isKeyed p = false) :
    withoutKeys u = u := by
  obtain ⟨front, query, fragment⟩ := u
  cases query with
  | none => rfl
  | some params =>
    have hfilter : (params.filter fun p => !isKeyed p) = params := by
      apply List.filter_eq_self.mpr
      intro p hp
      rw [h p hp]
      rfl
    rw [withoutKeys, Option.bind_some, hfilter, queryOf, if_neg (hu.query params rfl).1]

theorem firstKey_single (hq : u.query = some (ps ++ (marker ++ v) :: qs)) (hv : v ≠ [])
    (hps : ∀ p ∈ ps, isKeyed p = false) : firstKey u = some v := by
  have hfind : (ps ++ (marker ++ v) :: qs).find? isKeyed = some (marker ++ v) := by
    rw [List.find?_append, List.find?_eq_none.mpr (by simpa using hps), Option.none_or,
      List.find?_cons_of_pos (isKeyed_iff.mpr ⟨v, hv, rfl⟩)]
  rw [firstKey, hq, Option.getD_some, hfind, Option.map_some, List.drop_left]

theorem withoutKeys_single (hq : u.query = some (ps ++ (marker ++ v) :: qs)) (hv : v ≠ [])
    (hps : ∀ p ∈ ps, isKeyed p = false) (hqs : ∀ p ∈ qs, isKeyed p = false) :
    withoutKeys u = { u with query := queryOf (ps ++ qs) } := by
  have hkeep (rs : List (List Char)) (h : ∀ p ∈ rs, isKeyed p = false) :
      (rs.filter fun p => !isKeyed p) = rs := by
    apply List.filter_eq_self.mpr
    intro p hp
    rw [h p hp]
    rfl
  have hkey : isKeyed (marker ++ v) = true := isKeyed_iff.mpr ⟨v, hv, rfl⟩
  rw [withoutKeys, hq, Option.bind_some, List.filter_append, List.filter_cons_of_neg (by simp [hkey]),
    hkeep ps hps, hkeep qs hqs]

theorem wellFormed_without (hu : u.WellFormed) (hq : u.query = some (ps ++ p :: qs)) :
    Url.WellFormed { u with query := queryOf (ps ++ qs) } := by
  refine ⟨hu.front, ?_, hu.fragment⟩
  intro params hparams
  simp only [queryOf] at hparams
  split at hparams
  · simp at hparams
  · rename_i hne
    cases hparams
    refine ⟨hne, ?_⟩
    intro q hmem
    apply (hu.query _ hq).2 q
    simp only [List.mem_append, List.mem_cons] at hmem ⊢
    tauto

/-- What is left around the parameter is the URL without it. -/
theorem joined_eq (hu : u.WellFormed) (hlead : Url.lead u.front ps = l ++ [d]) :
    joined (l ++ [d]) (Url.tail qs u.fragment) d =
      Url.render { u with query := queryOf (ps ++ qs) } := by
  obtain rfl | ⟨ps₀, q, rfl⟩ := ps.eq_nil_or_concat
  · obtain ⟨rfl, rfl⟩ : u.front = l ∧ '?' = d := by
      have hends := List.append_inj' hlead rfl
      simpa using hends
    cases qs with
    | nil =>
      obtain hnone | ⟨rest, hrest⟩ := hu.fragment
      · simp [joined, Url.tail, Url.render, Url.renderQuery, queryOf, hnone]
      · simp [joined, Url.tail, Url.render, Url.renderQuery, queryOf, hrest]
    | cons q qs =>
      have hsplit := Url.render_split u.front q u.fragment [] qs
      simp only [List.nil_append] at hsplit
      rw [List.nil_append, queryOf, if_neg (List.cons_ne_nil q qs), hsplit]
      simp [joined, Url.tail, Url.lead]
  · have hlong : Url.lead u.front (ps₀.concat q) = Url.lead u.front ps₀ ++ q ++ ['&'] := by
      simp [Url.lead]
    rw [hlong] at hlead
    obtain ⟨rfl, hd⟩ := List.append_inj' hlead rfl
    obtain rfl : '&' = d := by simpa using hd
    have hsplit := Url.render_split u.front q u.fragment ps₀ qs
    have happend : ps₀.concat q ++ qs = ps₀ ++ q :: qs := by simp
    rw [happend, queryOf, if_neg (by simp), hsplit]
    simp [joined]

end Keys

section Again

variable {t t' l l' v v' r r' R g : List Char} {c c₀ d d' : Char} {endpoint : String}

/-- What looks like a key behind the first one looked like one before. -/
theorem candidate_behind (h : Candidate t l d v (c₀ :: R)) (hc : c₀ = c ∨ c₀ = '&')
    (hR : splitFirst marker R = some (g, v' ++ r')) (hg : l ++ c :: g = l' ++ [d'])
    (h' : Candidate t' l' d' v' r') :
    ∃ k e, Candidate t k e v' r' ∧ (l ++ [d]).length < (k ++ [e]).length := by
  have htext : t = (l ++ [d]) ++ (marker ++ (v ++ c₀ :: (g ++ (marker ++ (v' ++ r'))))) := by
    rw [h.text, eq_of_splitFirst hR]
  obtain rfl | ⟨g₀, e, rfl⟩ := g.eq_nil_or_concat
  · refine ⟨(l ++ [d]) ++ (marker ++ v), c₀, ⟨?_, ?_, h'.value, h'.ended⟩, ?_⟩
    · rw [htext]
      simp
    · obtain rfl | rfl := hc
      · obtain ⟨-, hd⟩ := List.append_inj' hg rfl
        obtain rfl : c₀ = d' := by simpa using hd
        exact h'.mark
      · exact Or.inr rfl
    · simp only [List.length_append, List.length_cons]
      omega
  · refine ⟨(l ++ [d]) ++ (marker ++ (v ++ c₀ :: g₀)), e, ⟨?_, ?_, h'.value, h'.ended⟩, ?_⟩
    · rw [htext]
      simp
    · have hlast : (l ++ c :: g₀) ++ [e] = l' ++ [d'] := by rw [← hg]; simp
      obtain ⟨-, hd⟩ := List.append_inj' hlast rfl
      obtain rfl : e = d' := by simpa using hd
      exact h'.mark
    · simp only [List.length_append, List.length_cons]
      omega

theorem splitText_joined (h : Unmistakable endpoint) (hc : Candidate endpoint.toList l d v r) :
    splitText (joined (l ++ [d]) r d) = (joined (l ++ [d]) r d, none) := by
  have hfront := splitFirst_front marker_ne_nil (h l d v r hc).1
  have hl : splitFirst marker l = none := by
    rw [splitFirst_separated (mark_notMem hc.mark) marker_ne_nil] at hfront
    cases hfirst : splitFirst marker l with
    | none => rfl
    | some p => simp [hfirst] at hfront
  -- behind the place of the parameter nothing looks like one
  have hbehind (c c₀ : Char) (R : List Char) (hr : r = c₀ :: R) (hc₀ : c₀ = c ∨ c₀ = '&')
      (hcm : c ∉ marker) : splitText (l ++ c :: R) = (l ++ c :: R, none) := by
    apply splitText_plain
    intro l' d' v' r' hfirst hcand
    obtain ⟨g, hR, hg⟩ := splitFirst_behind hcm marker_ne_nil hl hfirst
    rw [hr] at hc
    obtain ⟨k, e, hke, hlonger⟩ := candidate_behind hc hc₀ hR hg.symm hcand
    have hfirsts := (h _ _ _ _ hc).1.symm.trans (h _ _ _ _ hke).1
    have hsame : l ++ [d] = k ++ [e] := congrArg Prod.fst (Option.some.inj hfirsts)
    rw [hsame] at hlonger
    exact absurd hlonger (Nat.lt_irrefl _)
  have halone (hr : Ended r) : splitText (l ++ r) = (l ++ r, none) := by
    cases hr' : r with
    | nil => simp [splitText, hl]
    | cons c R =>
      apply hbehind c c R hr' (Or.inl rfl)
      have hend : endsValue c = true := hr c (by simp [hr'])
      rw [endsValue, Bool.or_eq_true, beq_iff_eq, beq_iff_eq] at hend
      obtain rfl | rfl := hend <;> decide
  obtain hjoined | ⟨R, hR, hjoined⟩ := joined_cases l r d
  · rw [hjoined]
    exact halone hc.ended
  · rw [hjoined]
    exact hbehind d '&' R hR (Or.inr rfl) (mark_notMem hc.mark)

/-- A marker that is there once, as a parameter, is not mistaken. -/
theorem unmistakable_of_once {ps qs : List (List Char)}
    (hq : (Url.parse endpoint.toList).query = some (ps ++ (marker ++ v) :: qs))
    (honce : ∀ k s, endpoint.toList = k ++ (marker ++ s) →
      k = Url.lead (Url.parse endpoint.toList).front ps) : Unmistakable endpoint := by
  intro l d v' r' hc
  have hlead := honce _ _ hc.text
  obtain ⟨p, hp, -⟩ := splitFirst_prefix hc.text
  have hplace := honce _ _ (eq_of_splitFirst hp)
  have htext := (eq_of_splitFirst hp).symm.trans hc.text
  rw [hplace, ← hlead] at htext
  have hrest := List.append_cancel_left (List.append_cancel_left htext)
  have hwell := Url.wellFormed_parse endpoint.toList
  have hvalues := (text_split hq).symm.trans hc.text
  rw [← hlead, List.append_assoc marker] at hvalues
  have hvalue := List.append_cancel_left (List.append_cancel_left hvalues)
  have hv : v = v' := by
    rw [← takeWhile_value (inside_of_wellFormed hwell hq) (ended_tail hwell.fragment qs), hvalue,
      takeWhile_value hc.value.2 hc.ended]
  refine ⟨?_, ps, qs, hv ▸ hq, hlead⟩
  rw [hp, ← hrest, hlead, ← hplace]

/-- An empty key is no key. Where nothing but the first marker of the text, a parameter, looks like
a key with a value, the key comes off, all else stays as it is, and no key is left. -/
theorem splitServerKey_exact (endpoint : String) (h : Unmistakable endpoint) :
    (splitServerKey endpoint).2 = (firstKey (Url.parse endpoint.toList)).map String.ofList ∧
      Url.parse (splitServerKey endpoint).1.toList = withoutKeys (Url.parse endpoint.toList) ∧
      splitServerKey (splitServerKey endpoint).1 = ((splitServerKey endpoint).1, none) := by
  have hwell := Url.wellFormed_parse endpoint.toList
  simp only [splitServerKey, String.toList_ofList]
  by_cases hc : ∃ l d v rest, Candidate endpoint.toList l d v rest
  · obtain ⟨l, d, v, rest, hc⟩ := hc
    obtain ⟨hfirst, ps, qs, hq, hlead⟩ := h l d v rest hc
    obtain ⟨hps, hqs⟩ := others_unkeyed h hq hc.value.1
    have hrest : rest = Url.tail qs (Url.parse endpoint.toList).fragment := by
      have htext := (text_split hq).symm.trans hc.text
      rw [← hlead, List.append_assoc marker] at htext
      have hvalue := List.append_cancel_left (List.append_cancel_left htext)
      exact (List.append_cancel_left hvalue).symm
    rw [splitText_candidate hc hfirst, splitText_joined h hc, firstKey_single hq hc.value.1 hps,
      withoutKeys_single hq hc.value.1 hps hqs]
    refine ⟨rfl, ?_, rfl⟩
    rw [hrest, joined_eq hwell hlead.symm]
    exact Url.parse_render (wellFormed_without hwell hq)
  · have hnone : ∀ l d v rest, ¬Candidate endpoint.toList l d v rest :=
      fun l d v rest hcand => hc ⟨l, d, v, rest, hcand⟩
    have hplain : splitText endpoint.toList = (endpoint.toList, none) :=
      splitText_plain fun l d v rest _ => hnone l d v rest
    rw [hplain, firstKey_unkeyed (unkeyed hnone), withoutKeys_unkeyed hwell (unkeyed hnone)]
    refine ⟨rfl, rfl, ?_⟩
    simp only [hplain]
    rfl

theorem splitServerKey_exact_first :
    splitServerKey (splitServerKey "w?server-key=k#f").1 =
      ((splitServerKey "w?server-key=k#f").1, none) := by
  have hquery : (Url.parse "w?server-key=k#f".toList).query = some ([] ++ (marker ++ ['k']) :: []) := by
    decide +kernel
  have hplaces : ∀ n < 16, marker <+: "w?server-key=k#f".toList.drop n → n = 2 := by decide +kernel
  have honce : ∀ l r, "w?server-key=k#f".toList = l ++ (marker ++ r) → l = ['w', '?'] := by
    intro l r htext
    have hlength : l.length < 16 := by
      have hlengths := congrArg List.length htext
      have hmarker : marker.length = 11 := by decide
      have hwhole : "w?server-key=k#f".toList.length = 16 := by decide
      simp only [List.length_append] at hlengths
      omega
    have htwo := hplaces l.length hlength (by rw [htext, List.drop_left]; exact List.prefix_append _ _)
    have htake := congrArg (List.take 2) htext
    rw [← htwo, List.take_left, htwo] at htake
    exact htake.symm
  have hlead : Url.lead (Url.parse "w?server-key=k#f".toList).front [] = ['w', '?'] := by
    decide +kernel
  exact (splitServerKey_exact _ (unmistakable_of_once hquery (hlead.symm ▸ honce))).2.2

/-- A key without a value is left where it is. -/
theorem splitServerKey_empty : ∃ p ∈ (Url.parse
    (splitServerKey "wss://h:2420/ws?server-key=").1.toList).query.getD [], marker <+: p := by
  decide +kernel

end Again

end FleetOrchestrator.Transport
