import FleetOrchestrator.Agents.Runs
import FleetOrchestrator.Interleaving.Connections
import FleetOrchestrator.Templates.Calls

/-! The row locks of the transactions: each is held by the one thread that has taken it, and whoever
writes holds the lock that the write needs. -/

namespace FleetOrchestrator.Templates

open Core Tables Store Interleaving Machine

/-- The lock that a transaction with this history holds. -/
def holding : Past → Option RowLock
  | [] => none
  | e :: h =>
    if e.op.ends then none
    else
      match e.op.leaves e.resp with
      | some l => some l
      | none => holding h

/-- The lock that is known to be held, or free, while the step is made. -/
def Op.actsUnder : Op → Option RowLock
  | .retireRow id | .insertRevision id _ _ _ => some (.template id)
  | .agent (.insertAgent row _) => row.templatePin.map .pin
  | op => op.wants

/-- The step is one of a transaction that holds its lock already. -/
def Op.underOwn : Op → Bool
  | .retireRow _ | .insertRevision _ _ _ _ | .agent (.insertAgent _ _) => true
  | _ => false

/-- The step says nothing about locks. -/
def Op.plain (op : Op) : Prop := op.ends = false ∧ (∀ r, op.leaves r = none) ∧ op.actsUnder = none

def Activity.confirmed : Activity → ℕ → Option String
  | .changeStatus i _ confirmed, id => if i = id then confirmed else none
  | .retire i expected, id => if i = id then some expected else none
  | _, _ => none

variable (sha256 : List UInt8 → String)

/-- What the step itself rests on, beyond its lock. -/
def Grounds (b : Backend) (a : Activity) (h : Past) : Op → Prop
  | .updateStatus _ s => s ≠ .retired
  | .retireLocked id expected => a.confirmed id = some expected
  | .selectDependents id => b = .pg ∧ holding h = some (.template id)
  | .retireRow id => ∃ ids rest, h = ⟨.selectDependents id, ids⟩ :: rest ∧
      a.confirmed id = some (dependentSetHash sha256 ids)
  | .selectNext id => holding h = some (.template id)
  | .insertRevision id next _ _ => ∃ rest, h = ⟨.selectNext id, next⟩ :: rest
  | .agent op => op.reads = true ∨ (∃ agent cap, op = .createLocked agent cap ∧ b = .mem) ∨
      ∃ agent claimed, op = .insertAgent agent claimed ∧ b = .pg
  | _ => True

/-- The step is made under its lock. -/
def Licensed (b : Backend) (a : Activity) (h : Past) (op : Op) : Prop :=
  (op.wants ≠ none → holding h = none) ∧
    (op.underOwn = true → ∀ l, op.actsUnder = some l → holding h = some l) ∧
    Grounds sha256 b a h op

section Histories

variable {sha256} {b : Backend} {a : Activity} {h h' : Past} {op : Op}

theorem holding_plain {e : Entry Op Op.Resp} (he : e.op.plain) : holding (e :: h) = holding h := by
  obtain ⟨hends, hleaves, -⟩ := he
  simp [holding, hends, hleaves]

theorem holding_grew (hg : Grew Op.plain h h') : holding h' = holding h := by
  obtain ⟨new, rfl, hn⟩ := hg
  induction new with
  | nil => rfl
  | cons e new ih =>
    rw [List.cons_append, holding_plain (hn e List.mem_cons_self)]
    exact ih fun e' he' => hn e' (List.mem_cons_of_mem _ he')

theorem licensed_free (hh : holding h = none) (ho : op.underOwn = false)
    (hg : Grounds sha256 b a h op) : Licensed sha256 b a h op := by
  refine ⟨fun _ => hh, fun hu => ?_, hg⟩
  rw [ho] at hu
  cases hu

theorem licensed_plain (hp : op.plain) (hw : op.wants = none) (hg : Grounds sha256 b a h op) :
    Licensed sha256 b a h op := by
  refine ⟨fun hn => absurd hw hn, fun _ l hl => ?_, hg⟩
  rw [hp.2.2] at hl
  cases hl

end Histories

section Programs

variable {sha256} {b : Backend} {a : Activity} {h : Past} {id : ℕ}

theorem pg_retire_licensed {expected : String} (hh : holding h = none)
    (hc : a.confirmed id = some expected) :
    Obeys (Licensed sha256 .pg a) (fun _ _ => True)
      (PgStore.retireAgentTemplate sha256 id expected) h := by
  refine obeys_call (licensed_free hh rfl trivial) fun found => ?_
  cases found with
  | none => exact obeys_ret trivial
  | some s =>
    refine obeys_call ⟨fun hn => absurd rfl hn, nofun, rfl, rfl⟩ fun ids => ?_
    change Obeys _ _ (if dependentSetHash sha256 ids ≠ expected then _ else _) _
    by_cases he : dependentSetHash sha256 ids = expected
    · rw [if_neg (not_not.mpr he)]
      have hground : a.confirmed id = some (dependentSetHash sha256 ids) := by rw [he, hc]
      refine obeys_call ⟨fun hn => absurd rfl hn, fun _ l hl => ?_, ids, _, rfl, hground⟩ fun _ =>
        obeys_ret trivial
      cases hl
      rfl
    · rw [if_pos he]
      exact obeys_call ⟨fun hn => absurd rfl hn, nofun, trivial⟩ fun _ => obeys_ret trivial

theorem retire_licensed {expected : String} (hh : holding h = none)
    (hc : a.confirmed id = some expected) :
    Obeys (Licensed sha256 b a) (fun _ _ => True) (retireAgentTemplate sha256 b id expected) h := by
  cases b with
  | mem => exact obeys_perform (licensed_free hh rfl hc) fun _ => trivial
  | pg => exact pg_retire_licensed hh hc

theorem read_licensed : Licensed sha256 b a h (.getTemplate id) :=
  ⟨fun hn => absurd rfl hn, nofun, trivial⟩

theorem load_licensed :
    Obeys (Licensed sha256 b a) (fun _ _ => True) (loadAgentTemplate id) h := by
  refine obeys_call read_licensed fun found => ?_
  cases found with
  | none => exact obeys_ret trivial
  | some t => exact obeys_ret trivial

theorem write_licensed {next : AgentTemplateStatus} {confirmed : Option String}
    (hh : holding h = none) (hc : a.confirmed id = confirmed) :
    Obeys (Licensed sha256 b a) (fun _ _ => True) (writeStatus sha256 b id next confirmed) h := by
  unfold writeStatus
  split
  · cases confirmed with
    | none => exact obeys_ret trivial
    | some expected =>
      apply obeys_bind (retire_licensed hh hc)
      intro r h' _
      cases r with
      | error e => exact obeys_ret trivial
      | ok changed => exact obeys_ret trivial
  · next hn => exact obeys_call (licensed_free hh rfl hn) fun _ => obeys_ret trivial

theorem change_licensed {status : String} {confirmed : Option String}
    (hc : a.confirmed id = confirmed) :
    Obeys (Licensed sha256 b a) (fun _ _ => True)
      (changeAgentTemplateStatus sha256 b id status confirmed) [] := by
  refine obeys_call read_licensed fun found => ?_
  cases found with
  | none => exact obeys_ret trivial
  | some t =>
    cases hparse : AgentTemplateStatus.parseStr status with
    | none => exact obeys_ret trivial
    | some next =>
      change Obeys _ _ (if next = t.status then _
        else if (!t.status.canTransitionTo next) = true then _ else _) _
      split_ifs with hsame hcan
      · exact obeys_ret trivial
      · exact obeys_ret trivial
      · apply obeys_bind (write_licensed rfl hc)
        intro r h' _
        cases r with
        | error e => exact obeys_ret trivial
        | ok changed =>
          dsimp only
          split
          · exact obeys_ret trivial
          · exact load_licensed

theorem mem_revise_licensed {body : AgentTemplateBody} {createdBy : Option String} :
    Obeys (Licensed sha256 b a) (fun _ _ => True)
      (MemStore.createAgentTemplateRevision id body createdBy) [] := by
  refine obeys_call ⟨fun hn => absurd rfl hn, nofun, trivial⟩ fun found => ?_
  cases found with
  | none => exact obeys_ret trivial
  | some status =>
    change Obeys _ _ (if (!status.acceptsNewRevisions) = true then _ else _) _
    split
    · exact obeys_ret trivial
    · exact obeys_call (licensed_free rfl rfl trivial) fun _ => obeys_ret trivial

theorem pg_revise_licensed {body : AgentTemplateBody} {createdBy : Option String} :
    Obeys (Licensed sha256 b a) (fun _ _ => True)
      (PgStore.createAgentTemplateRevision id body createdBy) [] := by
  refine obeys_call (licensed_free rfl rfl trivial) fun found => ?_
  cases found with
  | none => exact obeys_ret trivial
  | some status =>
    change Obeys _ _ (if (!status.acceptsNewRevisions) = true then _ else _) _
    split
    · exact obeys_call ⟨fun hn => absurd rfl hn, nofun, trivial⟩ fun _ => obeys_ret trivial
    · refine obeys_call ⟨fun hn => absurd rfl hn, nofun, rfl⟩ fun next => ?_
      refine obeys_perform ⟨fun hn => absurd rfl hn, fun _ l hl => ?_, _, rfl⟩ fun _ => trivial
      cases hl
      rfl

theorem mem_create_licensed {agent : Agent} :
    Obeys (Licensed sha256 .mem a) (fun _ _ => True)
      ((Agents.MemStore.createAgent agent).embed Op.agent fun _ r => r : Call _) [] := by
  unfold Agents.MemStore.createAgent
  cases agent.workerId with
  | none =>
    exact obeys_perform (licensed_free rfl rfl (.inr (.inl ⟨_, _, rfl, rfl⟩))) fun _ => trivial
  | some w =>
    have hplain : (Op.agent (.readCap w)).plain := ⟨rfl, fun _ => rfl, rfl⟩
    refine obeys_call (licensed_plain hplain rfl (.inl rfl)) fun cap => ?_
    exact obeys_perform (licensed_free rfl rfl (.inr (.inl ⟨_, _, rfl, rfl⟩))) fun _ => trivial

/-- A pin that passes the check is held. -/
theorem checkPin_licensed (pin : Option AgentTemplatePin) :
    Obeys (Licensed sha256 b a)
      (fun r h' => ∀ u, r = .ok u → holding h' = pin.map .pin)
      ((Agents.PgStore.checkPin pin).embed Op.agent fun _ r => r : Call _) [] := by
  cases pin with
  | none => exact obeys_ret fun _ _ => rfl
  | some pin =>
    refine obeys_call (licensed_free rfl rfl (.inl rfl)) fun found => ?_
    rcases found with _ | ⟨isRevoked, status⟩
    · refine obeys_ret fun u hu => ?_
      cases hu
    · cases isRevoked with
      | true =>
        refine obeys_ret fun u hu => ?_
        cases hu
      | false =>
        by_cases hs : status.acceptsNewPins = true
        · change Obeys _ _ (Prog.embed _ _ (if (!status.acceptsNewPins) = true then _ else _)) _
          rw [if_neg (by simp [hs])]
          refine obeys_ret fun _ _ => ?_
          simp [holding, Op.ends, Op.leaves, hs]
        · change Obeys _ _ (Prog.embed _ _ (if (!status.acceptsNewPins) = true then _ else _)) _
          rw [if_pos (by simpa using hs)]
          refine obeys_ret fun u hu => ?_
          cases hu

theorem claimSlot_plain (placement : Option WorkerId) :
    Uses (fun op => op.plain ∧ op.wants = none ∧ ∃ s, op = Op.agent s ∧ s.reads = true)
      ((Agents.PgStore.claimSlot placement).embed Op.agent fun _ r => r : Call _) := by
  apply uses_embed
  cases placement with
  | none => exact uses_ret _
  | some w =>
    refine uses_call ⟨⟨rfl, fun _ => rfl, rfl⟩, rfl, _, rfl, rfl⟩ fun cap => ?_
    rcases cap with _ | _ | cap
    · exact uses_ret _
    · exact uses_ret _
    · refine uses_call ⟨⟨rfl, fun _ => rfl, rfl⟩, rfl, _, rfl, rfl⟩ fun n => ?_
      change Uses _ (if Agents.full (some cap) n = true then _ else _)
      split
      · exact uses_ret _
      · exact uses_ret _

theorem pg_create_licensed {agent : Agent} :
    Obeys (Licensed sha256 .pg a) (fun _ _ => True)
      ((Agents.PgStore.createAgent agent).embed Op.agent fun _ r => r : Call _) [] := by
  unfold Agents.PgStore.createAgent
  rw [embed_bind]
  apply obeys_bind (checkPin_licensed agent.templatePin)
  intro pinned h₁ hpin
  cases pinned with
  | error e => exact obeys_ret trivial
  | ok u =>
    dsimp only
    rw [embed_bind]
    have hslot : Obeys (Licensed sha256 .pg a) (fun _ h' => Grew Op.plain h₁ h')
        ((Agents.PgStore.claimSlot agent.workerId).embed Op.agent fun _ r => r : Call _)
        h₁ := by
      apply obeys_conseq (obeys_of_uses (claimSlot_plain agent.workerId) ?_)
      · exact fun _ _ hg => hg.mono fun _ ho => ho.1
      · rintro h' op ⟨hplain, hwants, s, rfl, hs⟩
        exact licensed_plain hplain hwants (.inl hs)
    apply obeys_bind hslot
    intro placed h₂ hg
    refine obeys_call ⟨fun hn => absurd rfl hn, fun _ l hl => ?_, .inr (.inr ⟨_, _, rfl, rfl⟩)⟩
      fun r => ?_
    · rw [holding_grew hg, hpin u rfl]
      exact hl
    · cases r with
      | error e => exact obeys_ret trivial
      | ok u => exact obeys_ret trivial

theorem program_licensed (a : Activity) :
    Obeys (Licensed sha256 b a) (fun _ _ => True) (program sha256 b a) [] := by
  cases a with
  | changeStatus id status confirmed => exact obeys_map (change_licensed (if_pos rfl))
  | retire id expected => exact obeys_map (retire_licensed rfl (if_pos rfl))
  | createRevision id body createdBy =>
    cases b with
    | mem => exact obeys_map mem_revise_licensed
    | pg => exact obeys_map pg_revise_licensed
  | revoke id => exact obeys_map (obeys_perform (licensed_free rfl rfl trivial) fun _ => trivial)
  | createAgent agent =>
    cases b with
    | mem => exact obeys_map mem_create_licensed
    | pg => exact obeys_map pg_create_licensed

theorem callers_disciplined :
    (callers sha256 b).Disciplined (fun _ => Licensed sha256 b) fun _ _ _ _ => True :=
  fun _ a => program_licensed a

end Programs

/-- The locks that are held are those of the transactions that are under way. -/
structure Owned (c : TemplateConfig) : Prop where
  owner : ∀ l p, (l, p) ∈ c.state.locks.held → ∃ (i : ℕ) (t : TemplateThread),
    c.threads[i]? = some t ∧ t.party = p ∧ holding (history c.log i) = some l
  held : ∀ (i : ℕ) (t : TemplateThread) l, c.threads[i]? = some t →
    holding (history c.log i) = some l → (l, t.party) ∈ c.state.locks.held ∨
      t.party ∈ c.state.lost

section Runs

variable {sha256} {b : Backend} {c₀ c c' : TemplateConfig} {i : ℕ} {ch : Choice} {op : Op}
  {x : TemplateAction}

/-- What a step finds and leaves of the locks. -/
theorem exec_some {p : ℕ} {w w' : World} {r : op.Resp} (h : op.exec sha256 ch p w = some (r, w')) :
    p ∉ w.lost ∧ (∀ l, op.wants = some l → w.locks.blocked l p = false) ∧
      (op.addsRevision = true → w.revisions.contains ch.revisionId = false) ∧
      r = (op.effect sha256 ch w).1 ∧ w' = op.settle p r (op.effect sha256 ch w).2 := by
  simp only [Op.exec, Option.ite_none_left_eq_some, Option.some.injEq, Prod.mk.injEq, Op.waits,
    Bool.or_eq_true, not_or, Bool.and_eq_true, not_and, Bool.not_eq_true] at h
  obtain ⟨⟨⟨hlost, hblocked⟩, hnew⟩, rfl, rfl⟩ := h
  refine ⟨by simpa using hlost, fun l hl => ?_, hnew, rfl, rfl⟩
  simpa [hl] using hblocked

theorem effect_rest (w : World) :
    (op.effect sha256 ch w).2.locks = w.locks ∧ (op.effect sha256 ch w).2.lost = w.lost ∧
      (op.effect sha256 ch w).2.connections = w.connections := by
  cases op with
  | retireLocked id expected =>
    simp only [Op.effect]
    split
    · exact ⟨rfl, rfl, rfl⟩
    · split <;> exact ⟨rfl, rfl, rfl⟩
  | insertRevision id next body createdBy =>
    simp only [Op.effect]
    split <;> exact ⟨rfl, rfl, rfl⟩
  | _ => exact ⟨rfl, rfl, rfl⟩

theorem settle_rest (p : ℕ) (r : op.Resp) (w : World) :
    (op.settle p r w).store = w.store ∧ (op.settle p r w).templates = w.templates ∧
      (op.settle p r w).revisions = w.revisions ∧ (op.settle p r w).lost = w.lost ∧
      (op.settle p r w).connections = w.connections := by
  unfold Op.settle
  split
  · exact ⟨rfl, rfl, rfl, rfl, rfl⟩
  · split <;> exact ⟨rfl, rfl, rfl, rfl, rfl⟩

/-- Only a lock that was asked for is taken. -/
theorem wants_of_leaves {r : op.Resp} {l : RowLock} (h : op.leaves r = some l) :
    op.wants = some l := by
  cases op with
  | lockTemplate id =>
    cases r with
    | none => cases h
    | some s => exact h
  | agent op =>
    cases op with
    | selectPin pin =>
      rcases r with _ | ⟨isRevoked, status⟩
      · cases h
      · cases isRevoked with
        | true => cases h
        | false =>
          simp only [Op.leaves, Option.ite_none_right_eq_some] at h
          exact h.2
    | _ => cases h
  | _ => cases h

theorem connects : (callers sha256 b).Connects World.connections where
  accept p a s s' h := by
    simp only [callers, Option.ite_none_left_eq_some, Option.some.injEq] at h
    rw [← h.2]
    exact ⟨by simpa using h.1, rfl⟩
  exec ch p op s r s' h := by
    obtain ⟨-, -, -, -, rfl⟩ := exec_some h
    exact (settle_rest p r _).2.2.2.2.trans (effect_rest s).2.2
  disturb e s s' h := by
    cases e with
    | others store =>
      simp only [callers, disturb, Option.ite_none_right_eq_some, Option.some.injEq] at h
      rw [← h.2]
    | createTemplate t =>
      simp only [callers, disturb, Option.ite_none_right_eq_some, Option.some.injEq] at h
      rw [← h.2]
    | disconnect p =>
      simp only [callers, disturb, Option.some.injEq] at h
      rw [← h]
  spawned _ _ := rfl

/-- The locks after a step: its own is let go or taken, and those of the others stay. -/
theorem settle_held {p : ℕ} {r : op.Resp} {w : World} (hfree : ∀ l, op.wants = some l →
    w.locks.blocked l p = false) :
    (op.ends = true ∧ ∀ l q, (l, q) ∈ (op.settle p r w).locks.held ↔
      (l, q) ∈ w.locks.held ∧ q ≠ p) ∨
    (op.ends = false ∧ ∃ m, op.leaves r = some m ∧
      (op.settle p r w).locks.held = (m, p) :: w.locks.held) ∨
    (op.ends = false ∧ op.leaves r = none ∧ (op.settle p r w).locks = w.locks) := by
  unfold Op.settle
  by_cases hends : op.ends = true
  · rw [if_pos hends]
    exact .inl ⟨hends, fun l q => LockTable.mem_release⟩
  · rw [if_neg hends]
    have hno : op.ends = false := by simpa using hends
    cases hl : op.leaves r with
    | none => exact .inr (.inr ⟨hno, rfl, rfl⟩)
    | some m =>
      exact .inr (.inl ⟨hno, m, rfl, LockTable.held_grant (hfree m (wants_of_leaves hl))⟩)

/-- The lock of a thread after its step. -/
theorem holding_step {h : Past} {r : op.Resp} :
    (op.ends = true ∧ holding (⟨op, r⟩ :: h) = none) ∨
    (op.ends = false ∧ ∃ m, op.leaves r = some m ∧ holding (⟨op, r⟩ :: h) = some m) ∨
    (op.ends = false ∧ op.leaves r = none ∧ holding (⟨op, r⟩ :: h) = holding h) := by
  by_cases hends : op.ends = true
  · exact .inl ⟨hends, by simp [holding, hends]⟩
  · have hno : op.ends = false := by simpa using hends
    cases hl : op.leaves r with
    | none => exact .inr (.inr ⟨hno, rfl, by simp [holding, hno, hl]⟩)
    | some m => exact .inr (.inl ⟨hno, m, rfl, by simp [holding, hno, hl]⟩)

theorem other_thread (hs : (callers sha256 b).step c (.run i ch) = some c') {j : ℕ}
    {t : TemplateThread} (hij : j ≠ i) (ht : c'.threads[j]? = some t) :
    c.threads[j]? = some t ∧ history c'.log j = history c.log j := by
  rcases started_or_old connects hs ht with ⟨t₀, h₀, -⟩ | ⟨a, hx, -⟩
  · obtain ⟨h₁, hlog⟩ := step_idle hs h₀ fun ch' he => by cases he; exact hij rfl
    rw [ht] at h₁
    cases h₁
    exact ⟨h₀, hlog⟩
  · cases hx

theorem owned_run (h₀ : Fresh c₀) (hr : (callers sha256 b).Reaches always c₀ c)
    (hs : (callers sha256 b).step c (.run i ch) = some c') (h : Owned c) : Owned c' := by
  obtain ⟨op, ⟨r⟩⟩ := step_run hs
  obtain ⟨hlost, hfree, -, -, hstate⟩ := exec_some r.done
  have hparty := connected connects h₀ hr
  have hconn := connected connects h₀ (hr.trans (.single trivial hs))
  obtain ⟨hafter, hhist⟩ := r.after
  have hlicence := r.licensed callers_disciplined h₀ hr
  have hlost' : c'.state.lost = c.state.lost := by
    rw [hstate, (settle_rest _ _ _).2.2.2.1, (effect_rest _).2.1]
  have hlocks := @settle_held op r.party r.resp (op.effect sha256 ch c.state).2 (by
    rw [(effect_rest _).1]
    exact hfree)
  rw [← hstate, (effect_rest _).1] at hlocks
  have hholding := @holding_step op (history c.log i) r.resp
  rw [← hhist] at hholding
  -- what another thread holds is not touched
  have old {l : RowLock} {p : ℕ} (hl : (l, p) ∈ c.state.locks.held) (hp : p ≠ r.party) :
      ∃ (j : ℕ) (t : TemplateThread), c'.threads[j]? = some t ∧ t.party = p ∧
        holding (history c'.log j) = some l := by
    obtain ⟨j, t, ht, rfl, hh⟩ := h.owner l p hl
    have hij : j ≠ i := by
      rintro rfl
      rw [r.was] at ht
      cases ht
      exact hp rfl
    obtain ⟨ht', hlog⟩ := step_idle hs ht fun ch' he => by cases he; exact hij rfl
    exact ⟨j, t, ht', rfl, by rw [hlog]; exact hh⟩
  have own {l : RowLock} (hl : (l, r.party) ∈ c.state.locks.held) :
      holding (history c.log i) = some l := by
    obtain ⟨j, t, ht, hp, hh⟩ := h.owner l _ hl
    obtain rfl := hparty.single j i t _ ht r.was hp
    exact hh
  constructor
  · intro l p hl
    by_cases hp : p = r.party
    · subst hp
      refine ⟨i, _, hafter, rfl, ?_⟩
      rcases hlocks with ⟨-, hrel⟩ | ⟨hno, m, hm, hcons⟩ | ⟨hno, hm, hsame⟩
      · exact absurd rfl ((hrel l _).mp hl).2
      · rcases hholding with ⟨hends, -⟩ | ⟨-, m', hm', hh⟩ | ⟨-, hm', -⟩
        · rw [hno] at hends
          cases hends
        · rw [hm] at hm'
          cases hm'
          rw [hcons] at hl
          rcases List.mem_cons.mp hl with he | hl
          · cases he
            exact hh
          · have hfreed := hlicence.1 (by rw [wants_of_leaves hm]; simp)
            rw [own hl] at hfreed
            cases hfreed
        · rw [hm] at hm'
          cases hm'
      · rcases hholding with ⟨hends, -⟩ | ⟨-, m', hm', -⟩ | ⟨-, -, hh⟩
        · rw [hno] at hends
          cases hends
        · rw [hm] at hm'
          cases hm'
        · rw [hsame] at hl
          rw [hh]
          exact own hl
    · apply old ?_ hp
      rcases hlocks with ⟨-, hrel⟩ | ⟨-, m, -, hcons⟩ | ⟨-, -, hsame⟩
      · exact ((hrel l p).mp hl).1
      · rw [hcons] at hl
        rcases List.mem_cons.mp hl with he | hl
        · cases he
          exact absurd rfl hp
        · exact hl
      · rwa [hsame] at hl
  · intro j t l ht hh
    by_cases hij : j = i
    · subst hij
      rw [hafter] at ht
      cases ht
      dsimp only
      rcases hholding with ⟨-, hnone⟩ | ⟨hno, m, hm, hsome⟩ | ⟨hno, hm, hsame⟩
      · rw [hnone] at hh
        cases hh
      · rw [hsome] at hh
        cases hh
        rcases hlocks with ⟨hends, -⟩ | ⟨-, m', hm', hcons⟩ | ⟨-, hm', -⟩
        · rw [hno] at hends
          cases hends
        · rw [hm] at hm'
          cases hm'
          rw [hcons]
          exact .inl List.mem_cons_self
        · rw [hm] at hm'
          cases hm'
      · rw [hsame] at hh
        rcases hlocks with ⟨hends, -⟩ | ⟨-, m', hm', -⟩ | ⟨-, -, hlock⟩
        · rw [hno] at hends
          cases hends
        · rw [hm] at hm'
          cases hm'
        · rw [hlock, hlost']
          exact h.held j _ l r.was hh
    · obtain ⟨ht₀, hlog⟩ := other_thread hs hij ht
      rw [hlog] at hh
      rw [hlost']
      rcases h.held j t l ht₀ hh with hl | hl
      · have hp : t.party ≠ r.party := fun he => hij (hparty.single j i t _ ht₀ r.was he)
        left
        rcases hlocks with ⟨-, hrel⟩ | ⟨-, m, -, hcons⟩ | ⟨-, -, hsame⟩
        · exact (hrel l _).mpr ⟨hl, hp⟩
        · rw [hcons]
          exact List.mem_cons_of_mem _ hl
        · rwa [hsame]
      · exact .inr hl

theorem wants_of_actsUnder (hu : op.underOwn = false) : op.wants = op.actsUnder := by
  cases op with
  | agent q => cases q <;> first | rfl | cases hu
  | retireRow id => cases hu
  | insertRevision id next body createdBy => cases hu
  | _ => rfl

theorem start_state {p : ℕ} {a : Activity}
    (hs : (callers sha256 b).step c (.start p a) = some c') :
    c'.state = { c.state with connections := p :: c.state.connections } := by
  have ha := (step_start hs).1
  simp only [callers, Option.ite_none_left_eq_some, Option.some.injEq] at ha
  exact ha.2.symm

/-- Locks and lost connections after something else has happened. -/
theorem disturb_locks {e : Disturbance} {w w' : World} (h : disturb e w = some w') :
    (w'.locks = w.locks ∧ w'.lost = w.lost) ∨
      ∃ p, w'.locks = w.locks.release p ∧ w'.lost = p :: w.lost := by
  cases e with
  | others store =>
    simp only [disturb, Option.ite_none_right_eq_some, Option.some.injEq] at h
    rw [← h.2]
    exact .inl ⟨rfl, rfl⟩
  | createTemplate t =>
    simp only [disturb, Option.ite_none_right_eq_some, Option.some.injEq] at h
    rw [← h.2]
    exact .inl ⟨rfl, rfl⟩
  | disconnect p =>
    simp only [disturb, Option.some.injEq] at h
    rw [← h]
    exact .inr ⟨p, rfl, rfl⟩

theorem owned_start {p : ℕ} {a : Activity} (hw : LogWithin c)
    (hs : (callers sha256 b).step c (.start p a) = some c') (h : Owned c) : Owned c' := by
  have hstate := start_state hs
  obtain ⟨-, hts, hlog⟩ := step_start hs
  constructor
  · intro l q hl
    rw [hstate] at hl
    obtain ⟨i, t, ht, hp, hh⟩ := h.owner l q hl
    obtain ⟨ht', hl'⟩ := step_idle hs ht nofun
    exact ⟨i, t, ht', hp, by rw [hl']; exact hh⟩
  · intro i t l ht hh
    rw [hlog] at hh
    rw [hstate]
    rcases Nat.lt_or_ge i c.threads.length with hi | hi
    · rw [hts, List.getElem?_append_left hi] at ht
      exact h.held i t l ht hh
    · rw [history_of_within hw hi] at hh
      cases hh

theorem owned_env {e : Disturbance} (hs : (callers sha256 b).step c (.env e) = some c')
    (h : Owned c) : Owned c' := by
  obtain ⟨hd, hts, hlog⟩ := step_env hs
  rcases disturb_locks hd with ⟨hlocks, hlost⟩ | ⟨p, hlocks, hlost⟩
  · constructor
    · intro l q hl
      rw [hts, hlog]
      exact h.owner l q (hlocks ▸ hl)
    · intro i t l ht hh
      rw [hlocks, hlost]
      rw [hts] at ht
      rw [hlog] at hh
      exact h.held i t l ht hh
  · constructor
    · intro l q hl
      rw [hlocks] at hl
      rw [hts, hlog]
      exact h.owner l q (LockTable.mem_release.mp hl).1
    · intro i t l ht hh
      rw [hts] at ht
      rw [hlog] at hh
      rw [hlocks, hlost]
      by_cases hp : t.party = p
      · exact .inr (hp ▸ List.mem_cons_self)
      · rcases h.held i t l ht hh with hl | hl
        · exact .inl (LockTable.mem_release.mpr ⟨hl, hp⟩)
        · exact .inr (List.mem_cons_of_mem _ hl)

/-- Nothing runs yet, and no row is locked. -/
structure Start (c : TemplateConfig) : Prop where
  fresh : Fresh c
  locks : c.state.locks.held = []

theorem reached_owned (h₀ : Start c₀) (h : (callers sha256 b).Reaches always c₀ c) : Owned c := by
  apply h.invariant (P := Owned)
  · constructor
    · intro l p hl
      rw [h₀.locks] at hl
      cases hl
    · intro i t l ht
      rw [h₀.fresh.threads] at ht
      cases ht
  · intro c x c' hr _ hs hc
    cases x with
    | start p a => exact owned_start (within_of_reaches h₀.fresh hr) hs hc
    | env e => exact owned_env hs hc
    | run i ch => exact owned_run h₀.fresh hr hs hc

/-- A step is made with no conflicting lock in anybody else's hands. -/
theorem acts_alone (h₀ : Start c₀) (hr : (callers sha256 b).Reaches always c₀ c)
    (r : (callers sha256 b).Ran c c' i ch op) {l m : RowLock} {q : ℕ} (hl : op.actsUnder = some l)
    (hm : (m, q) ∈ c.state.locks.held) (hc : l.conflicts m = true) :
    q = r.party ∧ op.underOwn = true ∧ m = l := by
  have howned := reached_owned h₀ hr
  have hparty := connected connects h₀.fresh hr
  obtain ⟨hlost, hfree, -⟩ := exec_some r.done
  obtain ⟨hunheld, hheld, -⟩ := r.licensed callers_disciplined h₀.fresh hr
  have own {k : RowLock} (hk : (k, r.party) ∈ c.state.locks.held) :
      holding (history c.log i) = some k := by
    obtain ⟨j, t, ht, hp, hh⟩ := howned.owner k _ hk
    obtain rfl := hparty.single j i t _ ht r.was hp
    exact hh
  by_cases hu : op.underOwn = true
  · have hmine := hheld hu l hl
    have hin : (l, r.party) ∈ c.state.locks.held :=
      (howned.held i _ l r.was hmine).resolve_right hlost
    obtain rfl : r.party = q := c.state.locks.compatible _ hin _ hm hc
    have hsame := own hm
    rw [hmine] at hsame
    cases hsame
    exact ⟨rfl, hu, rfl⟩
  · have hwants : op.wants = some l := by
      rw [wants_of_actsUnder (Bool.eq_false_of_not_eq_true hu), hl]
    obtain rfl := LockTable.not_blocked (hfree l hwants) hm (.inl hc)
    have hnone := hunheld (by rw [hwants]; simp)
    rw [own hm] at hnone
    cases hnone

/-- A thread that still has its connection has its lock, and no other thread acts against it. -/
theorem undisturbed (h₀ : Start c₀) (hr : (callers sha256 b).Reaches always c₀ c)
    (r : (callers sha256 b).Ran c c' i ch op) {l m : RowLock} {j : ℕ} {t : TemplateThread}
    (hl : op.actsUnder = some l) (ht : c.threads[j]? = some t) (hij : j ≠ i)
    (hlive : t.party ∉ c.state.lost) (hh : holding (history c.log j) = some m) :
    l.conflicts m = false := by
  have howned := reached_owned h₀ hr
  have hin := (howned.held j t m ht hh).resolve_right hlive
  by_contra hc
  obtain ⟨hp, -⟩ := acts_alone h₀ hr r hl hin (by simpa using hc)
  exact hij ((connected connects h₀.fresh hr).single j i t _ ht r.was hp)

end Runs

end FleetOrchestrator.Templates
