import FleetOrchestrator.Templates.Revisions

/-! A retirement goes through on exactly the dependents that its caller has confirmed, and what the
store calls keep in order while any number of them are under way. -/

namespace FleetOrchestrator.Templates

open Core Tables Store Interleaving Machine

/-- The step retires the template. -/
def Op.retires (id : ℕ) : (op : Op) → op.Resp → Prop
  | .retireLocked i _, .ok found => i = id ∧ found = true
  | .retireRow i, _ => i = id
  | _, _ => False

/-- Two texts with one hash. -/
def Collide (sha256 : List UInt8 → String) (s t : List UInt8) : Prop := s ≠ t ∧ sha256 s = sha256 t

/-- What the caller has confirmed is the set of the template's dependents. -/
structure Confirms (sha256 : List UInt8 → String) (a : Activity) (w : World) (id : ℕ) : Prop where
  hash : a.confirmed id = some (dependentSetHash sha256 (w.dependents id))
  agents : ∀ agents, a.confirmed id = some (dependentSetHash sha256 agents) →
    agents.Perm (w.dependents id) ∨
      Collide sha256 (dependentSet agents) (dependentSet (w.dependents id))

section Steps

variable {sha256 : List UInt8 → String} {ch : Choice} {op : Op} {w w' : World} {id : ℕ}
  {a : Activity}

theorem confirms_of_hash (h : a.confirmed id = some (dependentSetHash sha256 (w.dependents id))) :
    Confirms sha256 a w id := by
  refine ⟨h, fun agents hagents => ?_⟩
  by_cases htext : dependentSet agents = dependentSet (w.dependents id)
  · exact .inl (dependentSet_perm htext)
  · rw [h, Option.some.injEq] at hagents
    exact .inr ⟨htext, hagents.symm⟩

/-- A retirement under the locks of the maps has compared the hashes. -/
theorem retireLocked_hash {expected : String}
    (h : (Op.retireLocked id expected).retires id
      ((Op.retireLocked id expected).effect sha256 ch w).1) :
    expected = dependentSetHash sha256 (w.dependents id) := by
  simp only [Op.effect] at h
  by_cases hc : w.templates.contains id = true
  · by_cases he : dependentSetHash sha256 (w.dependents id) = expected
    · exact he.symm
    · simp [hc, he, Op.retires] at h
  · simp [hc, Op.retires] at h

/-- Only a retirement makes a template retired. -/
theorem retires_of_retired {b : Backend} {h : Past} (hg : Grounds sha256 b a h op)
    (hbefore : w.status id ≠ some .retired)
    (hafter : (op.effect sha256 ch w).2.status id = some .retired) :
    op.retires id (op.effect sha256 ch w).1 := by
  rcases @effect_status sha256 ch op w id with
    hsame | ⟨s, hw, hs⟩
  · rw [hsame] at hafter
    exact absurd hafter hbefore
  · have hfound : ∃ t, w.templates.get id = some t := by
      rw [hs] at hafter
      cases ht : w.templates.get id with
      | none => simp [World.status, ht] at hafter
      | some t => exact ⟨t, rfl⟩
    obtain ⟨t, ht⟩ := hfound
    have hretired : s = .retired := by
      rw [hs] at hafter
      simpa [World.status, ht] using hafter
    subst hretired
    cases op with
    | updateStatus i s' =>
      cases hw
      exact absurd rfl hg
    | retireRow i =>
      cases hw
      rfl
    | retireLocked i expected =>
      have htarget := target_written hw
      cases htarget
      simp only [Op.written, Option.ite_none_right_eq_some] at hw
      have hc : w.templates.contains id = true := by rw [Keyed.contains_eq, ht]; rfl
      simp [Op.effect, Op.retires, hc, hw.1]
    | _ => cases hw

end Steps

section Programs

variable {sha256 : List UInt8 → String} {b : Backend} {h : Past} {id : ℕ}

/-- The call has made a step that retires the template. -/
def Retired (id : ℕ) (h : Past) : Prop := ∃ e ∈ h, e.op.retires id e.resp

theorem retire_retires {expected : String} :
    Obeys (fun _ _ => True) (fun r h' => r = .ok true → Retired id h')
      (retireAgentTemplate sha256 b id expected) h := by
  cases b with
  | mem =>
    refine obeys_call trivial fun r => ?_
    refine obeys_ret fun hr => ⟨_, List.mem_cons_self, ?_⟩
    subst hr
    exact ⟨rfl, rfl⟩
  | pg =>
    refine obeys_call trivial fun found => ?_
    cases found with
    | none => exact obeys_ret nofun
    | some s =>
      refine obeys_call trivial fun ids => ?_
      change Obeys _ _ (if dependentSetHash sha256 ids ≠ expected then _ else _) _
      split
      · exact obeys_call trivial fun _ => obeys_ret nofun
      · exact obeys_call trivial fun _ => obeys_ret fun _ => ⟨_, List.mem_cons_self, rfl⟩

/-- A call that only retires, and says that it did, has done so. -/
def RetiresFirst (a : Activity) (out : Outcome) (h : Past) : Prop :=
  ∀ id expected, a = .retire id expected → out = .retired (.ok true) → Retired id h

theorem program_retires (a : Activity) :
    Obeys (fun _ _ => True) (RetiresFirst a) (program sha256 b a) [] := by
  cases a with
  | retire id expected =>
    apply obeys_map
    apply obeys_conseq retire_retires
    intro r h' hr i e ha hout
    cases ha
    cases hout
    exact hr rfl
  | _ => exact obeys_any (fun _ _ => trivial) fun _ _ _ _ ha => nomatch ha

theorem retires_disciplined :
    (callers sha256 b).Disciplined (fun _ _ _ _ => True) fun _ => RetiresFirst :=
  fun _ a => program_retires a

end Programs

section Runs

variable {sha256 : List UInt8 → String} {b : Backend} {c₀ c c' : TemplateConfig} {i : ℕ}
  {ch : Choice} {op : Op} {id : ℕ}

theorem ran_confirms (h₀ : Start c₀) (hr : (callers sha256 b).Reaches always c₀ c)
    (r : (callers sha256 b).Ran c c' i ch op) (h : op.retires id r.resp) :
    Confirms sha256 r.act c.state id := by
  have hg := (r.licensed callers_disciplined h₀.fresh hr).2.2
  obtain ⟨-, -, -, -, hresp, -⟩ := ran_state r
  obtain ⟨hlost, -⟩ := exec_some r.done
  cases op with
  | retireLocked t expected =>
    have ht : t = id := by
      revert h
      cases r.resp with
      | error e => exact False.elim
      | ok found => exact And.left
    subst ht
    rw [hresp] at h
    apply confirms_of_hash
    rw [← retireLocked_hash h]
    exact hg
  | retireRow t =>
    obtain rfl : t = id := h
    obtain ⟨ids, rest, hh, hc⟩ := hg
    rw [(reached_known h₀ hr).dependents i _ t ids rest r.was hlost hh] at hc
    exact confirms_of_hash hc
  | _ => exact h.elim

theorem ran_retires (h₀ : Start c₀) (hr : (callers sha256 b).Reaches always c₀ c)
    (r : (callers sha256 b).Ran c c' i ch op) (hbefore : c.state.status id ≠ some .retired)
    (hafter : c'.state.status id = some .retired) : op.retires id r.resp := by
  obtain ⟨-, htemplates, -, -, hresp, -⟩ := ran_state r
  rw [hresp]
  apply retires_of_retired (r.licensed callers_disciplined h₀.fresh hr).2.2 hbefore
  rw [← hafter, World.status, World.status, htemplates]

/-- A finished retirement was made at a moment when its caller had confirmed the dependents. -/
theorem finished_confirms (h₀ : Start c₀) (hr : (callers sha256 b).Reaches always c₀ c) {p : ℕ}
    {expected : String}
    (ht : c.threads[i]? = some ⟨p, .retire id expected, .ret (.retired (.ok true))⟩) :
    ∃ c₁, (callers sha256 b).Reaches always c₀ c₁ ∧ (callers sha256 b).Reaches always c₁ c ∧
      Confirms sha256 (.retire id expected) c₁.state id := by
  obtain ⟨e, he, hretires⟩ := returned retires_disciplined h₀.fresh hr ht id expected rfl rfl
  obtain ⟨rest, hsuffix⟩ := placed he
  obtain ⟨c₁, c₂, ch, r, hresp, -, h₁, h₁₂, h₂⟩ := hr.at_history h₀.fresh hsuffix
  obtain ⟨t, ht', -, hact⟩ := (h₁₂.trans h₂).thread r.was
  rw [ht] at ht'
  cases ht'
  rw [← hresp] at hretires
  have hcall : r.act = .retire id expected := hact.symm
  have hconfirms := ran_confirms h₀ h₁ r hretires
  rw [hcall] at hconfirms
  exact ⟨c₁, h₁, h₁₂.trans h₂, hconfirms⟩

/-- The row of a new agent may be pinned as it is. -/
theorem ran_agents (h₀ : Start c₀) (hr : (callers sha256 b).Reaches always c₀ c)
    (r : (callers sha256 b).Ran c c' i ch op) {row : Agent} (hrow : row ∈ c'.state.store.agents.rows)
    (hnew : row ∉ c.state.store.agents.rows) {pin : AgentTemplatePin}
    (hpin : row.templatePin = some pin) : Pinnable c.state pin := by
  obtain ⟨hstore, -⟩ := ran_state r
  obtain ⟨hlost, -⟩ := exec_some r.done
  obtain ⟨-, hheld, hg⟩ := r.licensed callers_disciplined h₀.fresh hr
  rw [hstore] at hrow
  apply effect_agents hg ?_ row hrow hnew pin hpin
  intro pin' hu hl
  exact (reached_known h₀ hr).pinned i _ pin' r.was hlost (hheld hu _ hl)

/-- The new revision's number is the largest of its template's. -/
theorem ran_largest (h₀ : Start c₀) (hw : InOrder sha256 c₀.state)
    (hr : (callers sha256 b).Reaches always c₀ c) (r : (callers sha256 b).Ran c c' i ch op)
    {rev : AgentTemplateRevision} (hrev : rev ∈ c'.state.revisions.rows)
    (hnew : c.state.revisions.contains rev.id = false) :
    rev.contentRevision = (c.state.numbers rev.templateId).length + 1 ∧
      ∀ n ∈ c'.state.numbers rev.templateId, n ≤ rev.contentRevision := by
  have hbefore := reached_inOrder h₀ hw hr
  rcases ran_revisions h₀ hr r with hsame | ⟨t, body, createdBy, hfresh, hput⟩
  · have hcontent : rev.content ∈ c.state.revisions.rows.map AgentTemplateRevision.content :=
      hsame ▸ List.mem_map_of_mem hrev
    obtain ⟨old, hold, he⟩ := List.mem_map.mp hcontent
    simp only [AgentTemplateRevision.content, Prod.mk.injEq] at he
    have hget := Keyed.get_of_mem hold
    rw [he.1] at hget
    rw [Keyed.contains_eq, hget] at hnew
    cases hnew
  · have hnext := next_of_numbered (hbefore.numbered t)
    have hrow : rev = newRevision sha256 c.state ch.revisionId (c.state.nextRevision t) t body
        createdBy := by
      rw [hput, Keyed.rows_put_new hfresh] at hrev
      rcases List.mem_append.mp hrev with hrev | hrev
      · rw [Keyed.contains_eq, Keyed.get_of_mem hrev] at hnew
        cases hnew
      · exact List.mem_singleton.mp hrev
    subst hrow
    refine ⟨hnext, fun n hn => ?_⟩
    rw [numbers_put hfresh hput] at hn
    simp only [newRevision, if_true, List.mem_append, List.mem_singleton] at hn ⊢
    rw [hnext] at hn ⊢
    rcases hn with hn | hn
    · rw [(hbefore.numbered t).mem_iff, List.mem_range'_1] at hn
      omega
    · omega

/-- While calls of any kind and number are under way, the revisions of a template are numbered from
1 on and keep their contents, a retirement takes exactly the confirmed dependents along, and a new
agent is pinned to what may be pinned. -/
theorem revisions_and_pins (h₀ : Start c₀) (hw : InOrder sha256 c₀.state)
    (hr : (callers sha256 b).Reaches always c₀ c) :
    InOrder sha256 c.state ∧
    (∀ c₁, (callers sha256 b).Reaches always c c₁ → ∀ rev ∈ c.state.revisions.rows,
      ∃ rev' ∈ c₁.state.revisions.rows, rev'.content = rev.content) ∧
    (∀ c₁ i ch op (r : (callers sha256 b).Ran c c₁ i ch op),
      (∀ rev ∈ c₁.state.revisions.rows, c.state.revisions.contains rev.id = false →
        rev.contentRevision = (c.state.numbers rev.templateId).length + 1 ∧
          ∀ n ∈ c₁.state.numbers rev.templateId, n ≤ rev.contentRevision) ∧
      (∀ id, c.state.status id ≠ some .retired → c₁.state.status id = some .retired →
        Confirms sha256 r.act c.state id) ∧
      ∀ row ∈ c₁.state.store.agents.rows, row ∉ c.state.store.agents.rows →
        ∀ pin, row.templatePin = some pin → Pinnable c.state pin) ∧
    ∀ (i p : ℕ) id expected,
      c.threads[i]? = some ⟨p, .retire id expected, .ret (.retired (.ok true))⟩ →
        ∃ c₁, (callers sha256 b).Reaches always c₀ c₁ ∧ (callers sha256 b).Reaches always c₁ c ∧
          Confirms sha256 (.retire id expected) c₁.state id := by
  refine ⟨reached_inOrder h₀ hw hr, fun c₁ h₁ rev hrev => content_kept h₀ hr h₁ hrev,
    fun c₁ i ch op r => ⟨fun rev hrev hnew => ran_largest h₀ hw hr r hrev hnew, ?_, ?_⟩, ?_⟩
  · intro id hbefore hafter
    exact ran_confirms h₀ hr r (ran_retires h₀ hr r hbefore hafter)
  · intro row hrow hnew pin hpin
    exact ran_agents h₀ hr r hrow hnew hpin
  · intro i p id expected ht
    exact finished_confirms h₀ hr ht

end Runs

section Examples

def retiredAlone : TemplateConfig :=
  (callers emptySetHash .pg).after oneTemplate ([.start 0 (.retire 1 noDependents)] ++ runs 0 3)

theorem retired_as_confirmed :
    retiredAlone.state.status 1 = some .retired ∧
      ∃ c₁, (callers emptySetHash .pg).Reaches always oneTemplate c₁ ∧
        (callers emptySetHash .pg).Reaches always c₁ retiredAlone ∧
        Confirms emptySetHash (.retire 1 noDependents) c₁.state 1 := by
  have hempty : InOrder emptySetHash oneTemplate.state := ⟨fun _ => .refl _, nofun⟩
  have hreach : (callers emptySetHash .pg).Reaches always oneTemplate retiredAlone :=
    after_reaches _
  exact ⟨rfl, (revisions_and_pins ⟨⟨rfl, rfl⟩, rfl⟩ hempty hreach).2.2.2 0 0 1 noDependents rfl⟩

end Examples

end FleetOrchestrator.Templates
