import FleetOrchestrator.Templates.Lifecycle
import FleetOrchestrator.Templates.RowLocks

/-! The revisions of a template, the pins on them, and the retirement of the template: what holds
whoever else is at work. -/

namespace FleetOrchestrator.Templates

open Core Tables Store Interleaving Machine

/-- The tables let an agent be pinned so. -/
def Pinnable (w : World) (pin : AgentTemplatePin) : Prop :=
  ∃ r s, w.revisions.get pin.revisionId = some r ∧ r.templateId = pin.templateId ∧
    r.revokedAt = none ∧ w.status pin.templateId = some s ∧ s.acceptsNewPins = true

/-- A revision's body, with what is said of it. -/
def AgentTemplateRevision.content (r : AgentTemplateRevision) :
    ℕ × ℕ × ℕ × String × AgentTemplateBody :=
  (r.id, r.templateId, r.contentRevision, r.contentHash, r.body)

structure InOrder (sha256 : List UInt8 → String) (w : World) : Prop where
  numbered : ∀ id, (w.numbers id).Perm (List.range' 1 (w.numbers id).length)
  hashed : ∀ r ∈ w.revisions.rows, r.contentHash = r.body.contentHash sha256

section Tables

variable {sha256 : List UInt8 → String} {ch : Choice} {op : Op} {w w' : World} {id : ℕ}

theorem contents_revoke : (w.revoke id).2.revisions.rows.map AgentTemplateRevision.content =
    w.revisions.rows.map AgentTemplateRevision.content := by
  simp only [World.revoke, Keyed.updateWhere, List.map_map]
  apply List.map_congr_left
  intro r _
  simp only [Function.comp_apply]
  split <;> rfl

/-- The numbers of a template are part of its revisions' contents. -/
theorem numbers_eq : w.numbers id =
    ((w.revisions.rows.map AgentTemplateRevision.content).filter fun x => x.2.1 = id).map
      fun x => x.2.2.1 := by
  rw [World.numbers, List.filter_map, List.map_map]
  rfl

theorem numbers_of_contents (h : w'.revisions.rows.map AgentTemplateRevision.content =
    w.revisions.rows.map AgentTemplateRevision.content) : w'.numbers id = w.numbers id := by
  rw [numbers_eq, numbers_eq, h]

theorem numbers_put {r : AgentTemplateRevision} (hnew : w.revisions.contains r.id = false)
    (h : w'.revisions = w.revisions.put r) :
    w'.numbers id = w.numbers id ++ if r.templateId = id then [r.contentRevision] else [] := by
  rw [World.numbers, h, Keyed.rows_put_new hnew, List.filter_append, List.map_append]
  congr 1
  by_cases hid : r.templateId = id
  · simp [hid]
  · simp [hid]

/-- After 1 to n comes n + 1. -/
theorem next_of_numbered (h : (w.numbers id).Perm (List.range' 1 (w.numbers id).length)) :
    w.nextRevision id = (w.numbers id).length + 1 := by
  rw [World.nextRevision]
  cases hn : (w.numbers id).length with
  | zero =>
    rw [List.eq_nil_of_length_eq_zero hn]
    rfl
  | succ n =>
    rw [hn] at h
    have hmax : (w.numbers id).max? = some (n + 1) := by
      rw [List.max?_eq_some_iff]
      constructor
      · rw [h.mem_iff, List.mem_range'_1]
        omega
      · intro k hk
        rw [h.mem_iff, List.mem_range'_1] at hk
        omega
    rw [hmax]
    rfl

theorem numbered_snoc {l : List ℕ} (h : l.Perm (List.range' 1 l.length)) :
    (l ++ [l.length + 1]).Perm (List.range' 1 (l ++ [l.length + 1]).length) := by
  rw [List.length_append, List.length_singleton, List.range'_concat]
  have hlast : 1 + 1 * l.length = l.length + 1 := by omega
  rw [hlast]
  exact h.append_right _

/-- What a step does to the revisions. -/
theorem effect_revisions :
    (op.effect sha256 ch w).2.revisions.rows.map AgentTemplateRevision.content =
      w.revisions.rows.map AgentTemplateRevision.content ∨
    ∃ t n body createdBy, op.addsRevision = true ∧ op.actsUnder = some (.template t) ∧
      (n = w.nextRevision t ∨ op = .insertRevision t n body createdBy) ∧
      (op.effect sha256 ch w).2.revisions =
        w.revisions.put (newRevision sha256 w ch.revisionId n t body createdBy) := by
  cases op with
  | reviseLocked t body createdBy => exact .inr ⟨t, _, body, createdBy, rfl, rfl, .inl rfl, rfl⟩
  | insertRevision t n body createdBy =>
    simp only [Op.effect]
    by_cases ht : (w.numbers t).contains n = true
    · rw [if_pos ht]
      exact .inl rfl
    · rw [if_neg ht]
      exact .inr ⟨t, n, body, createdBy, rfl, rfl, .inr rfl, rfl⟩
  | revoke t => exact .inl contents_revoke
  | retireLocked t expected =>
    left
    simp only [Op.effect]
    split
    · rfl
    · split <;> rfl
  | _ => exact .inl rfl

/-- Only under the template's lock its numbers change. -/
theorem effect_numbers (hnew : op.addsRevision = true → w.revisions.contains ch.revisionId = false)
    (h : op.actsUnder ≠ some (.template id)) :
    (op.effect sha256 ch w).2.numbers id = w.numbers id := by
  rcases @effect_revisions sha256 ch op w with
    hsame | ⟨t, n, body, createdBy, hadd, hact, -, hput⟩
  · exact numbers_of_contents hsame
  · rw [numbers_put (hnew hadd) hput]
    have ht : t ≠ id := by
      rintro rfl
      exact h hact
    simp [newRevision, ht]

/-- Only under a lock that excludes the pin's it stops being possible. -/
theorem effect_pinnable {pin : AgentTemplatePin}
    (hnew : op.addsRevision = true → w.revisions.contains ch.revisionId = false)
    (h : ∀ l, op.actsUnder = some l → l.conflicts (.pin pin) = false) (hp : Pinnable w pin) :
    Pinnable (op.effect sha256 ch w).2 pin := by
  obtain ⟨r, s, hr, ht, ho, hs, ha⟩ := hp
  have hstatus : (op.effect sha256 ch w).2.status pin.templateId = some s := by
    rcases @effect_status sha256 ch op w pin.templateId with
      hsame | ⟨s', hw, -⟩
    · rw [hsame, hs]
    · have hact : op.actsUnder = some (.template pin.templateId) := by
        have htarget := target_written hw
        cases op with
        | updateStatus i s'' => cases htarget; rfl
        | retireLocked i expected => cases htarget; rfl
        | retireRow i => cases htarget; rfl
        | _ => cases htarget
      have hno := h _ hact
      simp [RowLock.conflicts] at hno
  refine ⟨r, s, ?_, ht, ho, hstatus, ha⟩
  cases op with
  | revoke i =>
    have hi : i ≠ pin.revisionId := by
      rintro rfl
      have hno := h _ rfl
      simp [RowLock.conflicts] at hno
    simp only [Op.effect, World.revoke]
    rw [Keyed.get_updateWhere, hr]
    have hri : r.id ≠ i := fun he => hi (he.symm.trans (Keyed.get_key hr))
    simp [hri]
  | reviseLocked t body createdBy =>
    have hfresh := hnew rfl
    simp only [Op.effect]
    rw [Keyed.get_put_ne ?_, hr]
    intro he
    rw [Keyed.contains_eq, show ch.revisionId = pin.revisionId from he.symm, hr] at hfresh
    cases hfresh
  | insertRevision t n body createdBy =>
    have hfresh := hnew rfl
    simp only [Op.effect]
    split
    · exact hr
    · rw [Keyed.get_put_ne ?_, hr]
      intro he
      rw [Keyed.contains_eq, show ch.revisionId = pin.revisionId from he.symm, hr] at hfresh
      cases hfresh
  | retireLocked t expected =>
    simp only [Op.effect]
    split
    · exact hr
    · split <;> exact hr
  | _ => exact hr

end Tables

section Pins

variable {sha256 : List UInt8 → String} {ch : Choice} {op : Op} {w w' : World} {id : ℕ}
  {pin : AgentTemplatePin} {s : StoreState} {agent : Agent}

theorem lookup_status : w.referenced.agentTemplates.lookup id = w.status id := by
  change (w.templates.rows.map fun t => (t.id, t.status)).lookup id =
    (w.templates.rows.find? fun t => t.id = id).map AgentTemplate.status
  induction w.templates.rows with
  | nil => rfl
  | cons t ts ih =>
    by_cases ht : t.id = id
    · simp [ht]
    · have hne : (id == t.id) = false := by simpa using fun he : id = t.id => ht he.symm
      simp only [List.map_cons, List.lookup_cons, hne, List.find?_cons, ht, decide_false, ih]

theorem pinnable_of_found {revision : Core.AgentTemplateRevision} {status : AgentTemplateStatus}
    (hf : Agents.findRevision w.referenced pin = some revision) (ho : revision.isRevoked = false)
    (hs : w.referenced.agentTemplates.lookup pin.templateId = some status)
    (ha : status.acceptsNewPins = true) : Pinnable w pin := by
  have hmem := List.mem_of_find?_eq_some hf
  have hids := List.find?_some hf
  simp only [Bool.and_eq_true, decide_eq_true_eq] at hids
  obtain ⟨r, hr, rfl⟩ := List.mem_map.mp hmem
  refine ⟨r, status, Keyed.get_eq_some.mpr ⟨hr, hids.1⟩, hids.2, ?_, lookup_status ▸ hs, ha⟩
  simpa [AgentTemplateRevision.referenced] using ho

theorem checkPin_pinnable {u : Unit}
    (h : Agents.MemStore.checkPin w.referenced (some pin) = .ok u) : Pinnable w pin := by
  simp only [Agents.MemStore.checkPin] at h
  cases hf : Agents.findRevision w.referenced pin with
  | none => simp [hf] at h
  | some revision =>
    simp only [hf] at h
    cases ho : revision.isRevoked with
    | true => simp [ho] at h
    | false =>
      cases hs : w.referenced.agentTemplates.lookup pin.templateId with
      | none => simp [ho, hs] at h
      | some status =>
        cases ha : status.acceptsNewPins with
        | false => simp [ho, hs, ha] at h
        | true => exact pinnable_of_found hf ho hs ha

theorem selectPin_pinnable {status : AgentTemplateStatus}
    (h : Agents.PgStore.selectPin w.referenced pin = some (false, status))
    (ha : status.acceptsNewPins = true) : Pinnable w pin := by
  simp only [Agents.PgStore.selectPin] at h
  cases hf : Agents.findRevision w.referenced pin with
  | none => simp [hf] at h
  | some revision =>
    cases hs : w.referenced.agentTemplates.lookup pin.templateId with
    | none => simp [hf, hs] at h
    | some status' =>
      simp only [hf, hs, Option.some.injEq, Prod.mk.injEq] at h
      obtain ⟨ho, rfl⟩ := h
      exact pinnable_of_found hf ho hs ha

/-- A creation adds the agent with its pin, if anything. -/
theorem createLocked_adds (cap : Option (Option ℕ)) :
    (Agents.MemStore.createLocked s agent cap).2.agents = s.agents ∨
      ∃ row u, row.templatePin = agent.templatePin ∧
        Agents.MemStore.checkPin s agent.templatePin = .ok u ∧
        (Agents.MemStore.createLocked s agent cap).2.agents = s.agents.put row := by
  unfold Agents.MemStore.createLocked
  split
  · exact .inl rfl
  · cases hpin : Agents.MemStore.checkPin s agent.templatePin with
    | error e => exact .inl rfl
    | ok u =>
      right
      dsimp only
      split
      · split
        · exact ⟨agent.withoutPlacement, u, rfl, rfl, rfl⟩
        · exact ⟨agent, u, rfl, rfl, rfl⟩
      · exact ⟨agent.withoutPlacement, u, rfl, rfl, rfl⟩

theorem insertAgent_adds (claimed : Option WorkerId) :
    (Agents.PgStore.insertAgent s agent claimed).2.agents = s.agents ∨
      ∃ row, row.templatePin = agent.templatePin ∧ s.agents.contains row.id = false ∧
        (Agents.PgStore.insertAgent s agent claimed).2.agents = s.agents.put row := by
  unfold Agents.PgStore.insertAgent
  dsimp only
  split_ifs with hplace hack hid hname hproject
  · exact .inl rfl
  · exact .inl rfl
  · exact .inl rfl
  · exact .inl rfl
  · exact .inl rfl
  · refine .inr ⟨_, ?_, Bool.eq_false_of_not_eq_true hid, rfl⟩
    rfl

theorem effect_reads {rank : AgentId → ℕ} {q : Agents.Statement} (hr : q.reads = true) :
    (q.effect rank s).2 = s := by
  cases q <;> first | rfl | cases hr

theorem dependents_of_agents (h : w'.store.agents = w.store.agents) :
    w'.dependents id = w.dependents id := by
  rw [World.dependents, World.dependents, h]

theorem dependents_put {row : Agent} (hnew : w.store.agents.contains row.id = false)
    (hrow : dependsOn id row = false) (h : w'.store.agents = w.store.agents.put row) :
    w'.dependents id = w.dependents id := by
  rw [World.dependents, h, Keyed.rows_put_new hnew, List.filter_append]
  simp [hrow, World.dependents]

/-- With SQL, only under a lock that excludes the template's its dependents change. -/
theorem effect_dependents {a : Activity} {h : Past} (hg : Grounds sha256 .pg a h op)
    (hl : ∀ l, op.actsUnder = some l → l.conflicts (.template id) = false) :
    (op.effect sha256 ch w).2.dependents id = w.dependents id := by
  cases op with
  | agent q =>
    rcases hg with hr | ⟨agent, cap, -, hb⟩ | ⟨agent, claimed, rfl, -⟩
    · apply dependents_of_agents
      simp only [Op.effect]
      rw [effect_reads hr]
      rfl
    · cases hb
    · rcases @insertAgent_adds w.referenced agent claimed with
        hsame | ⟨row, hpin, hnew, hput⟩
      · exact dependents_of_agents hsame
      · apply dependents_put hnew ?_ hput
        cases hp : agent.templatePin with
        | none => simp [dependsOn, hpin, hp]
        | some pin =>
          have hno := hl (.pin pin) (by simp [Op.actsUnder, hp])
          simp only [RowLock.conflicts, decide_eq_false_iff_not] at hno
          simp [dependsOn, hpin, hp, hno]
  | retireLocked t expected =>
    apply dependents_of_agents
    simp only [Op.effect]
    split
    · rfl
    · split <;> rfl
  | insertRevision t n body createdBy =>
    apply dependents_of_agents
    simp only [Op.effect]
    split <;> rfl
  | _ => rfl

/-- Whatever agent a step writes, it can be pinned as it is. -/
theorem effect_agents {a : Activity} {b : Backend} {h : Past} (hg : Grounds sha256 b a h op)
    (hl : ∀ pin, op.underOwn = true → op.actsUnder = some (.pin pin) → Pinnable w pin) :
    ∀ row ∈ (op.effect sha256 ch w).2.store.agents.rows, row ∉ w.store.agents.rows →
      ∀ pin, row.templatePin = some pin → Pinnable w pin := by
  have put {row new : Agent} (hm : row ∈ (w.store.agents.put new).rows)
      (hn : row ∉ w.store.agents.rows) : row = new := by
    rcases List.mem_append.mp hm with hm | hm
    · exact absurd (List.mem_filter.mp hm).1 hn
    · exact List.mem_singleton.mp hm
  intro row hm hn pin hpin
  cases op with
  | agent q =>
    rcases hg with hr | ⟨agent, cap, rfl, -⟩ | ⟨agent, claimed, rfl, -⟩
    · simp only [Op.effect] at hm
      rw [effect_reads hr] at hm
      exact absurd hm hn
    · rcases @createLocked_adds w.referenced agent cap with
        hsame | ⟨new, u, hp, hcheck, hput⟩
      · exact absurd (hsame ▸ hm) hn
      · obtain rfl := put (hput ▸ hm) hn
        rw [← hp, hpin] at hcheck
        exact checkPin_pinnable hcheck
    · rcases @insertAgent_adds w.referenced agent claimed with
        hsame | ⟨new, hp, -, hput⟩
      · exact absurd (hsame ▸ hm) hn
      · obtain rfl := put (hput ▸ hm) hn
        apply hl pin rfl
        simp [Op.actsUnder, ← hp, hpin]
  | retireLocked t expected =>
    simp only [Op.effect] at hm
    split at hm
    · exact absurd hm hn
    · split at hm <;> exact absurd hm hn
  | insertRevision t n body createdBy =>
    simp only [Op.effect] at hm
    split at hm <;> exact absurd hm hn
  | _ => exact absurd hm hn

end Pins

/-- What a transaction has read under its lock is still so. -/
structure Known (c : TemplateConfig) : Prop where
  next : ∀ (i : ℕ) (t : TemplateThread) id n rest, c.threads[i]? = some t →
    t.party ∉ c.state.lost → history c.log i = ⟨.selectNext id, n⟩ :: rest →
    n = c.state.nextRevision id
  dependents : ∀ (i : ℕ) (t : TemplateThread) id ids rest, c.threads[i]? = some t →
    t.party ∉ c.state.lost → history c.log i = ⟨.selectDependents id, ids⟩ :: rest →
    ids = c.state.dependents id
  pinned : ∀ (i : ℕ) (t : TemplateThread) pin, c.threads[i]? = some t →
    t.party ∉ c.state.lost → holding (history c.log i) = some (.pin pin) → Pinnable c.state pin

section Runs

variable {sha256 : List UInt8 → String} {b : Backend} {c₀ c c' : TemplateConfig} {i : ℕ}
  {ch : Choice} {op : Op} {x : TemplateAction}

theorem ran_state (r : (callers sha256 b).Ran c c' i ch op) :
    c'.state.store = (op.effect sha256 ch c.state).2.store ∧
      c'.state.templates = (op.effect sha256 ch c.state).2.templates ∧
      c'.state.revisions = (op.effect sha256 ch c.state).2.revisions ∧
      c'.state.lost = c.state.lost ∧ r.resp = (op.effect sha256 ch c.state).1 ∧
      (op.addsRevision = true → c.state.revisions.contains ch.revisionId = false) := by
  obtain ⟨-, -, hnew, hresp, hstate⟩ := exec_some r.done
  obtain ⟨hstore, htemplates, hrevisions, hlost, -⟩ :=
    settle_rest r.party r.resp (op.effect sha256 ch c.state).2
  rw [hstate]
  exact ⟨hstore, htemplates, hrevisions, hlost.trans (effect_rest _).2.1, hresp, hnew⟩

theorem numbers_congr {w w' : World} {id : ℕ} (h : w'.revisions = w.revisions) :
    w'.numbers id = w.numbers id := by
  rw [World.numbers, h, World.numbers]

theorem nextRevision_congr {w w' : World} {id : ℕ} (h : w'.numbers id = w.numbers id) :
    w'.nextRevision id = w.nextRevision id := by
  rw [World.nextRevision, h, World.nextRevision]

theorem pinnable_congr {w w' : World} {pin : AgentTemplatePin} (ht : w'.templates = w.templates)
    (hr : w'.revisions = w.revisions) (h : Pinnable w pin) : Pinnable w' pin := by
  rw [Pinnable, World.status, hr, ht]
  exact h

/-- What a history says was read was read with the licence to do so. -/
theorem history_licensed (h₀ : Fresh c₀) (hr : (callers sha256 b).Reaches always c₀ c)
    {e : Entry Op Op.Resp} {rest : Past} (hh : history c.log i = e :: rest) :
    ∃ a, Licensed sha256 b a rest e.op := by
  have hsuffix : e :: rest <:+ history c.log i := hh ▸ List.suffix_rfl
  obtain ⟨c₁, c₂, ch, r, -, rfl, h₁, -, -⟩ := hr.at_history h₀ hsuffix
  exact ⟨r.act, r.licensed callers_disciplined h₀ h₁⟩

theorem holding_next (h₀ : Fresh c₀) (hr : (callers sha256 b).Reaches always c₀ c) {id n : ℕ}
    {rest : Past} (hh : history c.log i = ⟨.selectNext id, n⟩ :: rest) :
    holding (history c.log i) = some (.template id) := by
  obtain ⟨a, -, -, hg⟩ := history_licensed h₀ hr hh
  rw [hh, holding_plain ⟨rfl, fun _ => rfl, rfl⟩]
  exact hg

theorem holding_dependents (h₀ : Fresh c₀) (hr : (callers sha256 b).Reaches always c₀ c) {id : ℕ}
    {ids : List AgentId} {rest : Past}
    (hh : history c.log i = ⟨.selectDependents id, ids⟩ :: rest) :
    b = .pg ∧ holding (history c.log i) = some (.template id) := by
  obtain ⟨a, -, -, hb, hg⟩ := history_licensed h₀ hr hh
  rw [hh, holding_plain ⟨rfl, fun _ => rfl, rfl⟩]
  exact ⟨hb, hg⟩

theorem known_run (h₀ : Start c₀) (hr : (callers sha256 b).Reaches always c₀ c)
    (hs : (callers sha256 b).step c (.run i ch) = some c') (h : Known c) : Known c' := by
  obtain ⟨op, ⟨r⟩⟩ := step_run hs
  obtain ⟨hstore, htemplates, hrevisions, hlost, hresp, hnew⟩ := ran_state r
  obtain ⟨hafter, hhist⟩ := r.after
  have hlicence := r.licensed callers_disciplined h₀.fresh hr
  -- the step acts under no lock that excludes one that another thread holds
  have apart {j : ℕ} {t : TemplateThread} {m : RowLock} (ht : c.threads[j]? = some t) (hij : j ≠ i)
      (hlive : t.party ∉ c.state.lost) (hh : holding (history c.log j) = some m) :
      ∀ l, op.actsUnder = some l → l.conflicts m = false :=
    fun l hl => undisturbed h₀ hr r hl ht hij hlive hh
  have apart_template {j : ℕ} {t : TemplateThread} {id : ℕ} (ht : c.threads[j]? = some t)
      (hij : j ≠ i) (hlive : t.party ∉ c.state.lost)
      (hh : holding (history c.log j) = some (.template id)) : op.actsUnder ≠ some (.template id) := by
    intro hl
    have hno := apart ht hij hlive hh _ hl
    simp [RowLock.conflicts] at hno
  constructor
  · intro j t id n rest ht hlive hh
    rw [hlost] at hlive
    have hnext : c'.state.nextRevision id = (op.effect sha256 ch c.state).2.nextRevision id :=
      nextRevision_congr (numbers_congr hrevisions)
    rw [hnext]
    by_cases hij : j = i
    · subst hij
      rw [hhist] at hh
      obtain ⟨he, -⟩ := List.cons.inj hh
      cases he
      exact hresp
    · obtain ⟨ht₀, hlog⟩ := other_thread hs hij ht
      rw [hlog] at hh
      rw [nextRevision_congr (effect_numbers hnew
        (apart_template ht₀ hij hlive (holding_next h₀.fresh hr hh)))]
      exact h.next j t id n rest ht₀ hlive hh
  · intro j t id ids rest ht hlive hh
    rw [hlost] at hlive
    rw [dependents_of_agents (w := (op.effect sha256 ch c.state).2) (by rw [hstore])]
    by_cases hij : j = i
    · subst hij
      rw [hhist] at hh
      obtain ⟨he, -⟩ := List.cons.inj hh
      cases he
      exact hresp
    · obtain ⟨ht₀, hlog⟩ := other_thread hs hij ht
      rw [hlog] at hh
      obtain ⟨rfl, hhold⟩ := holding_dependents h₀.fresh hr hh
      rw [effect_dependents hlicence.2.2 (apart ht₀ hij hlive hhold)]
      exact h.dependents j t id ids rest ht₀ hlive hh
  · intro j t pin ht hlive hh
    rw [hlost] at hlive
    apply pinnable_congr htemplates hrevisions
    by_cases hij : j = i
    · subst hij
      rw [hafter] at ht
      cases ht
      rw [hhist] at hh
      rcases @holding_step op (history c.log j) r.resp with ⟨-, hnone⟩ | ⟨-, m, hm, hsome⟩ |
        ⟨hends, hleaves, hsame⟩
      · rw [hnone] at hh
        cases hh
      · rw [hsome] at hh
        cases hh
        have hpin : op = .agent (.selectPin pin) := by
          have hwants := wants_of_leaves hm
          cases op with
          | agent q =>
            cases q with
            | selectPin pin' => cases hwants; rfl
            | _ => cases hm
          | lockTemplate t => cases hwants
          | _ => cases hm
        subst hpin
        have hok : ∃ status, r.resp = some (false, status) ∧ status.acceptsNewPins = true := by
          revert hm
          generalize r.resp = resp
          intro hm
          rcases resp with _ | ⟨isRevoked, status⟩
          · cases hm
          · cases isRevoked with
            | true => cases hm
            | false =>
              simp only [Op.leaves, Option.ite_none_right_eq_some] at hm
              exact ⟨status, rfl, hm.1⟩
        obtain ⟨status, hok, ha⟩ := hok
        exact selectPin_pinnable (hresp.symm.trans hok) ha
      · rw [hsame] at hh
        have hold := h.pinned j _ pin r.was hlive hh
        apply effect_pinnable hnew ?_ hold
        intro l hl
        by_cases hu : op.underOwn = true
        · have hmine := hlicence.2.1 hu l hl
          rw [hh] at hmine
          cases hmine
          rfl
        · have hwants : op.wants ≠ none := by
            rw [wants_of_actsUnder (Bool.eq_false_of_not_eq_true hu), hl]
            simp
          rw [hlicence.1 hwants] at hh
          cases hh
    · obtain ⟨ht₀, hlog⟩ := other_thread hs hij ht
      rw [hlog] at hh
      exact effect_pinnable hnew (apart ht₀ hij hlive hh) (h.pinned j t pin ht₀ hlive hh)

theorem dependents_eq (w : World) (id : ℕ) : w.dependents id =
    (((w.store.agents.rows.map fun a => (a.id, a.templatePin)).filter fun x =>
      x.2.map AgentTemplatePin.templateId = some id).map Prod.fst).insertionSort fun a b =>
        a.uuid ≤ b.uuid := by
  rw [World.dependents, List.filter_map, List.map_map]
  rfl

/-- What else happens changes neither the numbers nor the dependents, nor can it hurt a pin. -/
theorem disturb_known {e : Disturbance} {w w' : World} (h : disturb e w = some w') :
    w'.revisions = w.revisions ∧ (∀ id, w'.dependents id = w.dependents id) ∧
      (∀ pin, Pinnable w pin → Pinnable w' pin) ∧ (∀ p, p ∉ w'.lost → p ∉ w.lost) := by
  cases e with
  | others store =>
    simp only [disturb, Option.ite_none_right_eq_some, Option.some.injEq, keepsPins,
      decide_eq_true_eq] at h
    obtain ⟨hpins, rfl⟩ := h
    refine ⟨rfl, fun id => ?_, fun pin hp => hp, fun p hp => hp⟩
    rw [dependents_eq, dependents_eq, hpins]
  | createTemplate t =>
    have hstatus {id : ℕ} {s : AgentTemplateStatus} (hs : w.status id = some s) :
        w'.status id = some s := disturb_status h hs
    simp only [disturb, Option.ite_none_right_eq_some, Option.some.injEq] at h
    obtain ⟨-, rfl⟩ := h
    refine ⟨rfl, fun id => rfl, fun pin hp => ?_, fun p hp => hp⟩
    obtain ⟨r, s, hr, ht, ho, hs, ha⟩ := hp
    exact ⟨r, s, hr, ht, ho, hstatus hs, ha⟩
  | disconnect q =>
    simp only [disturb, Option.some.injEq] at h
    subst h
    exact ⟨rfl, fun id => rfl, fun pin hp => hp, fun p hp hl => hp (List.mem_cons_of_mem _ hl)⟩

theorem known_env {e : Disturbance} (hs : (callers sha256 b).step c (.env e) = some c')
    (h : Known c) : Known c' := by
  obtain ⟨hd, hts, hlog⟩ := step_env hs
  obtain ⟨hrev, hdep, hpin, hlost⟩ := disturb_known hd
  constructor
  · intro i t id n rest ht hlive hh
    rw [hts] at ht
    rw [hlog] at hh
    rw [nextRevision_congr (numbers_congr hrev)]
    exact h.next i t id n rest ht (hlost _ hlive) hh
  · intro i t id ids rest ht hlive hh
    rw [hts] at ht
    rw [hlog] at hh
    rw [hdep]
    exact h.dependents i t id ids rest ht (hlost _ hlive) hh
  · intro i t pin ht hlive hh
    rw [hts] at ht
    rw [hlog] at hh
    exact hpin pin (h.pinned i t pin ht (hlost _ hlive) hh)

theorem known_start {p : ℕ} {a : Activity} (hw : LogWithin c)
    (hs : (callers sha256 b).step c (.start p a) = some c') (h : Known c) : Known c' := by
  have hstate := start_state hs
  obtain ⟨-, hts, hlog⟩ := step_start hs
  -- a thread that has done something was there before
  have old {i : ℕ} {t : TemplateThread} (ht : c'.threads[i]? = some t)
      (hh : history c'.log i ≠ []) : c.threads[i]? = some t := by
    rw [hlog] at hh
    have hi : i < c.threads.length :=
      Nat.lt_of_not_le fun hi => hh (history_of_within hw hi)
    rwa [hts, List.getElem?_append_left hi] at ht
  constructor
  · intro i t id n rest ht hlive hh
    have ht₀ := old ht (by rw [hh]; simp)
    rw [hlog] at hh
    rw [hstate] at hlive ⊢
    exact h.next i t id n rest ht₀ hlive hh
  · intro i t id ids rest ht hlive hh
    have ht₀ := old ht (by rw [hh]; simp)
    rw [hlog] at hh
    rw [hstate] at hlive ⊢
    exact h.dependents i t id ids rest ht₀ hlive hh
  · intro i t pin ht hlive hh
    have hne : history c'.log i ≠ [] := by
      intro hnil
      rw [hnil] at hh
      cases hh
    have ht₀ := old ht hne
    rw [hlog] at hh
    rw [hstate] at hlive ⊢
    exact h.pinned i t pin ht₀ hlive hh

theorem reached_known (h₀ : Start c₀) (h : (callers sha256 b).Reaches always c₀ c) : Known c := by
  apply h.invariant (P := Known)
  · have none {i : ℕ} {t : TemplateThread} (ht : c₀.threads[i]? = some t) : False := by
      rw [h₀.fresh.threads] at ht
      cases ht
    exact ⟨fun i t id n rest ht => (none ht).elim, fun i t id ids rest ht => (none ht).elim,
      fun i t pin ht => (none ht).elim⟩
  · intro c x c' hr _ hs hc
    cases x with
    | start p a => exact known_start (within_of_reaches h₀.fresh hr) hs hc
    | env e => exact known_env hs hc
    | run i ch => exact known_run h₀ hr hs hc

/-- A step adds at most the next revision of one template. -/
theorem ran_revisions (h₀ : Start c₀) (hr : (callers sha256 b).Reaches always c₀ c)
    (r : (callers sha256 b).Ran c c' i ch op) :
    c'.state.revisions.rows.map AgentTemplateRevision.content =
      c.state.revisions.rows.map AgentTemplateRevision.content ∨
    ∃ id body createdBy, c.state.revisions.contains ch.revisionId = false ∧
      c'.state.revisions = c.state.revisions.put (newRevision sha256 c.state ch.revisionId
        (c.state.nextRevision id) id body createdBy) := by
  obtain ⟨-, -, hrevisions, -, -, hnew⟩ := ran_state r
  obtain ⟨hlost, -⟩ := exec_some r.done
  rw [hrevisions]
  rcases @effect_revisions sha256 ch op c.state with
    hsame | ⟨id, n, body, createdBy, hadd, -, hn, hput⟩
  · exact .inl hsame
  · refine .inr ⟨id, body, createdBy, hnew hadd, ?_⟩
    have hnext : n = c.state.nextRevision id := by
      rcases hn with hn | rfl
      · exact hn
      · obtain ⟨rest, hh⟩ := (r.licensed callers_disciplined h₀.fresh hr).2.2
        exact (reached_known h₀ hr).next i _ id n rest r.was hlost hh
    rw [hput, hnext]

theorem inOrder_run (h₀ : Start c₀) (hr : (callers sha256 b).Reaches always c₀ c)
    (r : (callers sha256 b).Ran c c' i ch op) (h : InOrder sha256 c.state) :
    InOrder sha256 c'.state := by
  rcases ran_revisions h₀ hr r with hsame | ⟨id, body, createdBy, hnew, hput⟩
  · constructor
    · intro id
      rw [numbers_of_contents hsame]
      exact h.numbered id
    · intro rev hrev
      have hcontent : rev.content ∈ c.state.revisions.rows.map AgentTemplateRevision.content :=
        hsame ▸ List.mem_map_of_mem hrev
      obtain ⟨old, hold, he⟩ := List.mem_map.mp hcontent
      simp only [AgentTemplateRevision.content, Prod.mk.injEq] at he
      rw [← he.2.2.2.1, ← he.2.2.2.2]
      exact h.hashed old hold
  · constructor
    · intro t
      rw [numbers_put hnew hput]
      by_cases ht : id = t
      · subst ht
        simp only [newRevision, if_true]
        rw [next_of_numbered (h.numbered id)]
        exact numbered_snoc (h.numbered id)
      · simpa [newRevision, ht] using h.numbered t
    · intro rev hrev
      rw [hput, Keyed.rows_put_new hnew] at hrev
      rcases List.mem_append.mp hrev with hrev | hrev
      · exact h.hashed rev hrev
      · rw [List.mem_singleton.mp hrev]
        rfl

theorem reached_inOrder (h₀ : Start c₀) (hw : InOrder sha256 c₀.state)
    (h : (callers sha256 b).Reaches always c₀ c) : InOrder sha256 c.state := by
  apply h.invariant (P := fun c => InOrder sha256 c.state) hw
  intro c x c' hr _ hs hc
  cases x with
  | start p a =>
    rw [start_state hs]
    exact ⟨hc.numbered, hc.hashed⟩
  | env e =>
    have hrev := (disturb_known (step_env hs).1).1
    constructor
    · intro id
      rw [numbers_congr hrev]
      exact hc.numbered id
    · intro rev hm
      rw [hrev] at hm
      exact hc.hashed rev hm
  | run i ch =>
    obtain ⟨op, ⟨r⟩⟩ := step_run hs
    exact inOrder_run h₀ hr r hc

/-- A stored revision stays, with its number, its hash and its body. -/
theorem content_kept (h₀ : Start c₀) (hr : (callers sha256 b).Reaches always c₀ c)
    (h : (callers sha256 b).Reaches always c c') {rev : AgentTemplateRevision}
    (hrev : rev ∈ c.state.revisions.rows) :
    ∃ rev' ∈ c'.state.revisions.rows, rev'.content = rev.content := by
  induction h with
  | refl => exact ⟨rev, hrev, rfl⟩
  | @tail c₁ c₂ x h₁ _ hs ih =>
    obtain ⟨rev₁, hrev₁, he₁⟩ := ih
    rw [← he₁]
    cases x with
    | start p a =>
      rw [start_state hs]
      exact ⟨rev₁, hrev₁, rfl⟩
    | env e =>
      rw [(disturb_known (step_env hs).1).1]
      exact ⟨rev₁, hrev₁, rfl⟩
    | run i ch =>
      obtain ⟨op, ⟨r⟩⟩ := step_run hs
      rcases ran_revisions h₀ (hr.trans h₁) r with hsame | ⟨id, body, createdBy, hnew, hput⟩
      · apply List.mem_map.mp
        rw [hsame]
        exact List.mem_map_of_mem hrev₁
      · refine ⟨rev₁, ?_, rfl⟩
        rw [hput, Keyed.rows_put_new hnew]
        exact List.mem_append_left _ hrev₁

end Runs

end FleetOrchestrator.Templates
