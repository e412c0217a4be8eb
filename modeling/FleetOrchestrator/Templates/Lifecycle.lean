import FleetOrchestrator.Templates.Calls

/-! The status of a template moves along the table of transitions, as long as nobody writes after
the status has changed from the one that was read. -/

namespace FleetOrchestrator.Templates

open Core Tables Store Interleaving Machine

section Steps

variable {sha256 : List UInt8 → String} {ch : Choice} {p : ℕ} {op : Op} {w w' : World}

/-- The status that the step writes for a template. -/
def Op.written (sha256 : List UInt8 → String) (w : World) : Op → Option (ℕ × AgentTemplateStatus)
  | .updateStatus id status => some (id, status)
  | .retireLocked id expected =>
    if dependentSetHash sha256 (w.dependents id) = expected then some (id, .retired) else none
  | .retireRow id => some (id, .retired)
  | _ => none

theorem status_setStatus (w : World) (id t : ℕ) (s : AgentTemplateStatus) :
    (w.setStatus id s).2.status t = if t = id then (w.status id).map fun _ => s else w.status t := by
  unfold World.status World.setStatus
  split_ifs with h
  · subst h
    rw [Keyed.get_modify_self, Option.map_map, Option.map_map]
    rfl
  · rw [Keyed.get_modify_ne h]

theorem settle_status (r : op.Resp) (t : ℕ) : (op.settle p r w).status t = w.status t := by
  unfold Op.settle
  split
  · rfl
  · split <;> rfl

theorem effect_status (t : ℕ) :
    (op.effect sha256 ch w).2.status t = w.status t ∨
      ∃ s, op.written sha256 w = some (t, s) ∧
        (op.effect sha256 ch w).2.status t = (w.status t).map fun _ => s := by
  have written {id : ℕ} {s : AgentTemplateStatus} (hw : op.written sha256 w = some (id, s)) :
      (w.setStatus id s).2.status t = w.status t ∨
        ∃ s', op.written sha256 w = some (t, s') ∧
          (w.setStatus id s).2.status t = (w.status t).map fun _ => s' := by
    rw [status_setStatus]
    by_cases ht : t = id
    · subst ht
      rw [if_pos rfl]
      exact .inr ⟨s, hw, rfl⟩
    · rw [if_neg ht]
      exact .inl rfl
  cases op with
  | updateStatus id s => exact written rfl
  | retireRow id => exact written rfl
  | retireLocked id expected =>
    simp only [Op.effect]
    by_cases hc : w.templates.contains id = true
    · by_cases he : dependentSetHash sha256 (w.dependents id) = expected
      · simp only [hc, Bool.not_true, Bool.false_eq_true, if_false, he, ne_eq, not_true_eq_false]
        exact written (if_pos he)
      · simp [hc, he]
    · simp [hc]
  | insertRevision id next body createdBy =>
    left
    simp only [Op.effect]
    split <;> rfl
  | _ => exact .inl rfl

theorem exec_status {r : op.Resp} (h : op.exec sha256 ch p w = some (r, w')) (t : ℕ) :
    w'.status t = w.status t ∨
      ∃ s, op.written sha256 w = some (t, s) ∧ w'.status t = (w.status t).map fun _ => s := by
  simp only [Op.exec, Option.ite_none_left_eq_some, Option.some.injEq, Prod.mk.injEq] at h
  obtain ⟨-, -, rfl⟩ := h
  rw [settle_status]
  exact effect_status t

end Steps

section Programs

/-- The status that the call has read last. -/
def lastRead (id : ℕ) : Past → Option AgentTemplateStatus
  | [] => none
  | ⟨.getTemplate i, r⟩ :: h => if i = id then r.map AgentTemplate.status else lastRead id h
  | _ :: h => lastRead id h

/-- The status that the step is there to write. -/
def Op.target : Op → Option (ℕ × AgentTemplateStatus)
  | .updateStatus id status => some (id, status)
  | .retireLocked id _ => some (id, .retired)
  | .retireRow id => some (id, .retired)
  | _ => none

/-- What is written may follow what was read. -/
def Follows (h : Past) (op : Op) : Prop :=
  ∀ id s, op.target = some (id, s) → ∀ s₀, lastRead id h = some s₀ → s₀.canTransitionTo s = true

theorem target_written {sha256 : List UInt8 → String} {op : Op} {w : World} {id : ℕ}
    {s : AgentTemplateStatus} (h : op.written sha256 w = some (id, s)) : op.target = some (id, s) := by
  cases op with
  | retireLocked i expected =>
    simp only [Op.written, Option.ite_none_right_eq_some] at h
    exact h.2
  | updateStatus i s' => exact h
  | retireRow i => exact h
  | _ => cases h

theorem follows_of_none {h : Past} {op : Op} (ht : op.target = none) : Follows h op := by
  intro id s hs
  rw [ht] at hs
  cases hs

variable {sha256 : List UInt8 → String} {b : Backend} {h : Past} {id : ℕ}

theorem retire_follows {expected : String}
    (hr : ∀ s₀, lastRead id h = some s₀ → s₀.canTransitionTo .retired = true) :
    Obeys Follows (fun _ _ => True) (retireAgentTemplate sha256 b id expected) h := by
  have next {op : Op} {h' : Past} (ht : op.target = some (id, .retired))
      (hl : lastRead id h' = lastRead id h) : Follows h' op := by
    intro i s hs s₀ hs₀
    rw [ht] at hs
    cases hs
    rw [hl] at hs₀
    exact hr s₀ hs₀
  cases b with
  | mem => exact obeys_perform (next rfl rfl) fun _ => trivial
  | pg =>
    refine obeys_call (follows_of_none rfl) fun found => ?_
    cases found with
    | none => exact obeys_ret trivial
    | some s =>
      refine obeys_call (follows_of_none rfl) fun dependents => ?_
      change Obeys _ _ (if dependentSetHash sha256 dependents ≠ expected then _ else _) _
      split
      · exact obeys_call (follows_of_none rfl) fun _ => obeys_ret trivial
      · exact obeys_call (next rfl rfl) fun _ => obeys_ret trivial

theorem write_follows {next : AgentTemplateStatus} {confirmed : Option String}
    (hr : ∀ s₀, lastRead id h = some s₀ → s₀.canTransitionTo next = true) :
    Obeys Follows (fun _ _ => True) (writeStatus sha256 b id next confirmed) h := by
  unfold writeStatus
  split
  · next hn =>
    subst hn
    cases confirmed with
    | none => exact obeys_ret trivial
    | some expected =>
      apply obeys_bind (retire_follows hr)
      intro r h' _
      cases r with
      | error e => exact obeys_ret trivial
      | ok changed => exact obeys_ret trivial
  · refine obeys_call ?_ fun _ => obeys_ret trivial
    intro i s hs s₀ hs₀
    cases hs
    exact hr s₀ hs₀

theorem load_follows : Obeys Follows (fun _ _ => True) (loadAgentTemplate id) h := by
  refine obeys_call (follows_of_none rfl) fun found => ?_
  cases found with
  | none => exact obeys_ret trivial
  | some t => exact obeys_ret trivial

theorem change_follows {status : String} {confirmed : Option String} :
    Obeys Follows (fun _ _ => True) (changeAgentTemplateStatus sha256 b id status confirmed) [] := by
  refine obeys_call (follows_of_none rfl) fun found => ?_
  cases found with
  | none => exact obeys_ret trivial
  | some t =>
    cases hparse : AgentTemplateStatus.parseStr status with
    | none => exact obeys_ret trivial
    | some next =>
      change Obeys _ _ (if next = t.status then _
        else if (!t.status.canTransitionTo next) = true then _ else _) _
      split_ifs with hsame hcan
      · exact obeys_ret trivial
      · exact obeys_ret trivial
      · apply obeys_bind (write_follows ?_)
        · intro r h' _
          cases r with
          | error e => exact obeys_ret trivial
          | ok changed =>
            dsimp only
            split
            · exact obeys_ret trivial
            · exact load_follows
        · intro s₀ hs₀
          simp only [lastRead, if_true, Option.map_some, Option.some.injEq] at hs₀
          subst hs₀
          simpa using hcan

/-- The steps of the calls that are not about the status. -/
def Op.idle (op : Op) : Prop := op.target = none

theorem revise_idle {body : AgentTemplateBody} {createdBy : Option String} :
    Uses Op.idle (createAgentTemplateRevision b id body createdBy) := by
  cases b with
  | mem =>
    refine uses_call (by rfl) fun found => ?_
    cases found with
    | none => exact uses_ret _
    | some status =>
      change Uses _ (if (!status.acceptsNewRevisions) = true then _ else _)
      split
      · exact uses_ret _
      · exact uses_call (by rfl) fun _ => uses_ret _
  | pg =>
    refine uses_call (by rfl) fun found => ?_
    cases found with
    | none => exact uses_ret _
    | some status =>
      change Uses _ (if (!status.acceptsNewRevisions) = true then _ else _)
      split
      · exact uses_call (by rfl) fun _ => uses_ret _
      · exact uses_call (by rfl) fun _ => uses_perform (by rfl)

theorem program_follows (a : Activity) :
    Obeys Follows (fun _ _ => True) (program sha256 b a) [] := by
  have idle {α : Type} {q : Call α} (hq : Uses Op.idle q) :
      Obeys Follows (fun _ _ => True) q [] :=
    obeys_conseq (obeys_of_uses hq fun _ _ => follows_of_none) fun _ _ _ => trivial
  cases a with
  | changeStatus id status confirmed => exact obeys_map change_follows
  | retire id expected =>
    apply obeys_map
    apply retire_follows
    intro s₀ hs₀
    cases hs₀
  | createRevision id body createdBy => exact obeys_map (idle revise_idle)
  | revoke id => exact obeys_map (idle (uses_perform (by rfl)))
  | createAgent agent => exact obeys_map (idle (uses_embed (uses_all fun _ => by rfl)))

theorem status_disciplined :
    (callers sha256 b).Disciplined (fun _ _ => Follows) fun _ _ _ _ => True :=
  fun _ a => program_follows a

end Programs

/-- Whoever is about to write a status has read the one that is stored. -/
def unmoved (sha256 : List UInt8 → String) (c : TemplateConfig) : TemplateAction → Bool
  | .run i _ =>
    (c.next i).all fun op => (op.written sha256 c.state).all fun t =>
      lastRead t.1 (history c.log i) = c.state.status t.1
  | _ => true

section Runs

variable {sha256 : List UInt8 → String} {b : Backend} {c₀ c c' : TemplateConfig}
  {x : TemplateAction} {id : ℕ} {s : AgentTemplateStatus}

def Moves (s s' : AgentTemplateStatus) : Prop := s' ∈ s.allowedTransitions

theorem disturb_status {e : Disturbance} {w w' : World} (h : disturb e w = some w')
    (hs : w.status id = some s) : w'.status id = some s := by
  cases e with
  | others store =>
    simp only [disturb, Option.ite_none_right_eq_some, Option.some.injEq] at h
    rw [← h.2]
    exact hs
  | createTemplate t =>
    simp only [disturb, Option.ite_none_right_eq_some, Option.some.injEq, Bool.and_eq_true,
      Bool.not_eq_true'] at h
    obtain ⟨⟨⟨-, hnew⟩, -⟩, rfl⟩ := h
    have hid : id ≠ t.id := by
      rintro rfl
      rw [Keyed.contains_eq, Option.isSome_eq_false_iff, Option.isNone_iff_eq_none] at hnew
      rw [World.status, hnew] at hs
      cases hs
    rw [World.status, Keyed.get_put_ne hid]
    exact hs
  | disconnect p =>
    simp only [disturb, Option.some.injEq] at h
    rw [← h]
    exact hs

/-- One step leaves the status of a template, or moves it along the table. -/
theorem step_moves (h₀ : Fresh c₀)
    (h : (callers sha256 b).Reaches (fun c x => unmoved sha256 c x = true) c₀ c)
    (hx : unmoved sha256 c x = true) (hs : (callers sha256 b).step c x = some c')
    (hid : c.state.status id = some s) :
    ∃ s', c'.state.status id = some s' ∧ (s' = s ∨ Moves s s') := by
  cases x with
  | start p a =>
    have ha := (step_start hs).1
    simp only [callers, Option.ite_none_left_eq_some, Option.some.injEq] at ha
    refine ⟨s, ?_, .inl rfl⟩
    rw [← ha.2]
    exact hid
  | env e => exact ⟨s, disturb_status (step_env hs).1 hid, .inl rfl⟩
  | run i ch =>
    obtain ⟨op, ⟨r⟩⟩ := step_run hs
    rcases exec_status r.done id with hsame | ⟨s', hw, hnew⟩
    · exact ⟨s, hsame.trans hid, .inl rfl⟩
    · refine ⟨s', by rw [hnew, hid]; rfl, .inr ?_⟩
      have hread : lastRead id (history c.log i) = some s := by
        simp only [unmoved, r.next, Option.all_some, hw, decide_eq_true_eq] at hx
        exact hx.trans hid
      have hcan := r.licensed status_disciplined h₀ h id s' (target_written hw) s hread
      exact AgentTemplateStatus.canTransitionTo_iff.mp hcan

theorem run_moves (h₀ : Fresh c₀)
    (h : (callers sha256 b).Reaches (fun c x => unmoved sha256 c x = true) c₀ c)
    (h' : (callers sha256 b).Reaches (fun c x => unmoved sha256 c x = true) c c')
    (hid : c.state.status id = some s) :
    ∃ s', c'.state.status id = some s' ∧ Relation.ReflTransGen Moves s s' := by
  induction h' with
  | refl => exact ⟨s, hid, .refl⟩
  | tail x hr hx hs ih =>
    obtain ⟨s₁, h₁, hpath⟩ := ih
    obtain ⟨s₂, h₂, hmove⟩ := step_moves h₀ (h.trans hr) hx hs h₁
    rcases hmove with rfl | hmove
    · exact ⟨s₂, h₂, hpath⟩
    · exact ⟨s₂, h₂, hpath.tail hmove⟩

/-- Nothing follows an end. -/
theorem moves_from_end {s' : AgentTemplateStatus} (hend : s.allowedTransitions = [])
    (h : Relation.ReflTransGen Moves s s') : s' = s := by
  rcases Relation.ReflTransGen.cases_head h with rfl | ⟨s₁, hmove, -⟩
  · rfl
  · rw [Moves, hend] at hmove
    cases hmove

/-- In every run in which callers write a status only while the stored one is the one they read,
the stored status moves along the table, and retired and discarded templates stay what they are. -/
theorem template_status_moves (h₀ : Fresh c₀)
    (h : (callers sha256 b).Reaches (fun c x => unmoved sha256 c x = true) c₀ c)
    (hid : c.state.status id = some s) :
    (∀ x c₁, unmoved sha256 c x = true → (callers sha256 b).step c x = some c₁ →
      ∃ s₁, c₁.state.status id = some s₁ ∧ (s₁ = s ∨ s₁ ∈ s.allowedTransitions)) ∧
    (∀ c₁, (callers sha256 b).Reaches (fun c x => unmoved sha256 c x = true) c c₁ →
      s = .retired ∨ s = .discarded → c₁.state.status id = some s) := by
  refine ⟨fun x c₁ hx hs => step_moves h₀ h hx hs hid, fun c₁ h₁ hend => ?_⟩
  obtain ⟨s₁, hs₁, hpath⟩ := run_moves h₀ h h₁ hid
  have hlast : s.allowedTransitions = [] := by
    rcases hend with rfl | rfl <;> rfl
  rw [moves_from_end hlast hpath] at hs₁
  exact hs₁

end Runs

section Examples

/-- The hash of the set without agents. -/
def noDependents : String := 
  "081bb1cd0bae9e84521b20e13fda408c6cfbbf50a950bf194e5f8415d3c48dde"

/-- What it is on the only text that is hashed here. -/
def emptySetHash : List UInt8 → String := fun _ => noDependents

def published : AgentTemplate :=
  { id := 1, name := "reviewer", status := .published, createdAt := 0, updatedAt := 0 }

def oneTemplate : TemplateConfig :=
  ⟨{ store := StoreState.empty, templates := Keyed.empty.put published, revisions := .empty }, [], []⟩

def runs (i n : ℕ) : List TemplateAction := List.replicate n (.run i {})

/-- The second caller comes when the first has returned. -/
def deprecatedThenRetired : List TemplateAction :=
  [.start 0 (.changeStatus 1 "deprecated" none)] ++ runs 0 3 ++
    [.start 1 (.changeStatus 1 "retired" (some noDependents))] ++ runs 1 4

theorem retired_template_stays :
    ((callers emptySetHash .pg).after oneTemplate deprecatedThenRetired).state.status 1 =
        some .retired ∧
      ∀ c₁, (callers emptySetHash .pg).Reaches (fun c x => unmoved emptySetHash c x = true)
        ((callers emptySetHash .pg).after oneTemplate deprecatedThenRetired) c₁ →
          c₁.state.status 1 = some .retired := by
  have hreach : (callers emptySetHash .pg).replayWhile (unmoved emptySetHash) oneTemplate
      deprecatedThenRetired =
        some ((callers emptySetHash .pg).after oneTemplate deprecatedThenRetired) := rfl
  refine ⟨rfl, fun c₁ h₁ => ?_⟩
  exact (template_status_moves ⟨rfl, rfl⟩ (replayWhile_reaches hreach) rfl).2 c₁ h₁ (.inl rfl)

/-- Both callers have read the template while it was published, and one has retired it. -/
def bothRead : List TemplateAction :=
  [.start 0 (.changeStatus 1 "deprecated" none),
    .start 1 (.changeStatus 1 "retired" (some noDependents))] ++ runs 0 1 ++ runs 1 4

/-- The other one makes the retired template accept pins again. -/
theorem retired_template_revived : ∃ c c' : TemplateConfig,
    (callers emptySetHash .pg).Reaches always oneTemplate c ∧
      (callers emptySetHash .pg).step c (.run 0 {}) = some c' ∧
      c.state.status 1 = some .retired ∧ c'.state.status 1 = some .deprecated ∧
      AgentTemplateStatus.deprecated.acceptsNewPins = true ∧
      AgentTemplateStatus.retired.canTransitionTo .deprecated = false :=
  ⟨(callers emptySetHash .pg).after oneTemplate bothRead,
    (callers emptySetHash .pg).after oneTemplate (bothRead ++ runs 0 1), after_reaches _,
    rfl, rfl, rfl, rfl, rfl⟩

end Examples

end FleetOrchestrator.Templates
