import FleetOrchestrator.Submissions.Request
import FleetOrchestrator.Templates.Hashes

/-! What two requests with one payload hash have in common. -/

namespace FleetOrchestrator.Submissions

open Core Encoding Templates

section Lists

variable {items xs ys : List String} {us vs : List UInt8}

/-- The number of texts and the length of each are machine numbers. -/
def Countable (items : List String) : Prop :=
  items.length < 2 ^ 64 ∧ ∀ s ∈ items, (bytes s).length < 2 ^ 64

instance (items : List String) : Decidable (Countable items) :=
  inferInstanceAs (Decidable (_ ∧ _))

theorem Countable.framable (h : Countable items) :
    ∀ x ∈ items.map bytes, x.length < 256 ^ 8 := by
  intro x hx
  obtain ⟨s, hs, rfl⟩ := List.mem_map.mp hx
  have hlength := h.2 s hs
  omega

theorem Countable.distinct (h : Countable items) : Countable (distinct items) := by
  constructor
  · exact (length_canonical_le items).trans_lt h.1
  · intro s hs
    exact h.2 s (mem_canonical.mp hs)

theorem distinct_eq_iff : distinct xs = distinct ys ↔ ∀ s, s ∈ xs ↔ s ∈ ys := canonical_eq_iff

/-- Nothing of a list can be taken for what follows it. -/
theorem listParts_append (hx : Countable xs) (hy : Countable ys)
    (h : (listParts xs).flatMap (framed 8) ++ us = (listParts ys).flatMap (framed 8) ++ vs) :
    xs = ys ∧ us = vs := by
  have hword (n : ℕ) : (littleEndian 8 n).length < 256 ^ 8 := by
    rw [length_littleEndian]
    omega
  simp only [listParts, List.flatMap_cons, List.append_assoc] at h
  obtain ⟨hcount, hitems⟩ := framed_append (hword xs.length) (hword ys.length) h
  have hlength : xs.length = ys.length := littleEndian_injective hx.1 hy.1 hcount
  obtain ⟨htexts, hrest⟩ := framed_flatMap hx.framable hy.framable (by simpa) hitems
  exact ⟨List.map_injective_iff.mpr bytes_injective htexts, hrest⟩

end Lists

section Requests

variable {req other : TaskRequest}

/-- The lengths of the texts and the lists of a request that is held in memory. -/
structure TaskRequest.InMemory (req : TaskRequest) : Prop where
  scalars : req.Fits
  requiredLabels : Countable req.requiredLabels
  dependencyIds : Countable (req.dependencyIds.map toString)
  skillsRequired : Countable req.skillsRequired

/-- One task is asked for twice: an absent text is the empty one, a list is the set of its members. -/
structure SameTask (req other : TaskRequest) : Prop where
  projectId : req.projectId = other.projectId
  prompt : req.prompt = other.prompt
  cwd : req.cwd.getD "" = other.cwd.getD ""
  model : req.model.getD "" = other.model.getD ""
  serverHint : req.serverHint.getD "" = other.serverHint.getD ""
  agentId : req.agentId = other.agentId
  maxTurns : req.maxTurns = other.maxTurns
  timeoutSecs : req.timeoutSecs = other.timeoutSecs
  priority : req.priority = other.priority
  parentTaskId : req.parentTaskId = other.parentTaskId
  routingProfile : req.routingProfile.getD "" = other.routingProfile.getD ""
  requiredLabels : ∀ l, l ∈ req.requiredLabels ↔ l ∈ other.requiredLabels
  dependencyIds : ∀ d, d ∈ req.dependencyIds ↔ d ∈ other.dependencyIds
  skillsRequired : ∀ s, s ∈ req.skillsRequired ↔ s ∈ other.skillsRequired

theorem projectId_toString_injective : Function.Injective (toString : ProjectId → String) := by
  intro x y h
  cases x
  cases y
  exact congrArg ProjectId.mk (toString_injective h)

theorem taskId_toString_injective : Function.Injective (toString : TaskId → String) := by
  intro x y h
  cases x
  cases y
  exact congrArg TaskId.mk (toString_injective h)

theorem scalars_eq_iff : req.scalars = other.scalars ↔
    req.projectId = other.projectId ∧ req.prompt = other.prompt ∧
      req.cwd.getD "" = other.cwd.getD "" ∧ req.model.getD "" = other.model.getD "" ∧
      req.serverHint.getD "" = other.serverHint.getD "" ∧ req.agentId = other.agentId ∧
      req.maxTurns = other.maxTurns ∧ req.timeoutSecs = other.timeoutSecs ∧
      req.priority = other.priority ∧ req.parentTaskId = other.parentTaskId ∧
      req.routingProfile.getD "" = other.routingProfile.getD "" := by
  have hproject := optionText_injective projectId_toString_injective
    fun p => toString_ne_empty p.uuid
  have hagent := optionText_injective agentId_toString_injective fun a => toString_ne_empty a.uuid
  have hparent := optionText_injective taskId_toString_injective fun t => toString_ne_empty t.uuid
  have hnumber := optionText_injective toString_injective toString_ne_empty
  simp only [TaskRequest.scalars, List.cons.injEq, and_true, true_and, hproject.eq_iff,
    hagent.eq_iff, hparent.eq_iff, hnumber.eq_iff, priorityText_injective.eq_iff]

theorem payload_eq (req : TaskRequest) :
    req.payload = (req.scalars.map bytes).flatMap (framed 8) ++
      ((listParts (distinct req.requiredLabels)).flatMap (framed 8) ++
        ((listParts (distinct (req.dependencyIds.map toString))).flatMap (framed 8) ++
          ((listParts (distinct req.skillsRequired)).flatMap (framed 8) ++ []))) := by
  rw [TaskRequest.payload, TaskRequest.parts, List.flatMap_append, List.flatMap_append,
    List.flatMap_append, List.append_nil]

theorem parts_of_payload (hr : req.InMemory) (ho : other.InMemory)
    (h : req.payload = other.payload) :
    req.scalars = other.scalars ∧ distinct req.requiredLabels = distinct other.requiredLabels ∧
      distinct (req.dependencyIds.map toString) = distinct (other.dependencyIds.map toString) ∧
      distinct req.skillsRequired = distinct other.skillsRequired := by
  have hscalars := scalars_of_payload hr.scalars ho.scalars h
  rw [payload_eq, payload_eq, hscalars] at h
  obtain ⟨hlabels, h⟩ := listParts_append hr.requiredLabels.distinct ho.requiredLabels.distinct
    (List.append_cancel_left h)
  obtain ⟨hdeps, h⟩ := listParts_append hr.dependencyIds.distinct ho.dependencyIds.distinct h
  obtain ⟨hskills, -⟩ := listParts_append hr.skillsRequired.distinct ho.skillsRequired.distinct h
  exact ⟨hscalars, hlabels, hdeps, hskills⟩

theorem sameTask_of_payload (hr : req.InMemory) (ho : other.InMemory)
    (h : req.payload = other.payload) : SameTask req other := by
  obtain ⟨hscalars, hlabels, hdeps, hskills⟩ := parts_of_payload hr ho h
  obtain ⟨projectId, prompt, cwd, model, serverHint, agentId, maxTurns, timeoutSecs, priority,
    parentTaskId, routingProfile⟩ := scalars_eq_iff.mp hscalars
  refine { projectId, prompt, cwd, model, serverHint, agentId, maxTurns, timeoutSecs, priority,
           parentTaskId, routingProfile, requiredLabels := distinct_eq_iff.mp hlabels,
           dependencyIds := ?_, skillsRequired := distinct_eq_iff.mp hskills }
  intro d
  have hd := distinct_eq_iff.mp hdeps (toString d)
  rw [List.mem_map_of_injective taskId_toString_injective,
    List.mem_map_of_injective taskId_toString_injective] at hd
  exact hd

theorem payload_of_sameTask (h : SameTask req other) : req.payload = other.payload := by
  have hscalars : req.scalars = other.scalars :=
    scalars_eq_iff.mpr ⟨h.projectId, h.prompt, h.cwd, h.model, h.serverHint, h.agentId, h.maxTurns,
      h.timeoutSecs, h.priority, h.parentTaskId, h.routingProfile⟩
  have hdeps : distinct (req.dependencyIds.map toString) =
      distinct (other.dependencyIds.map toString) := by
    apply distinct_eq_iff.mpr
    intro s
    simp only [List.mem_map, h.dependencyIds]
  rw [payload_eq, payload_eq, hscalars, hdeps, distinct_eq_iff.mpr h.requiredLabels,
    distinct_eq_iff.mpr h.skillsRequired]

/-- The hash of a request says which task is asked for, no less and no more. -/
theorem payloadHash_exact {sha256 : List UInt8 → String} (hsha : Function.Injective sha256)
    (hr : req.InMemory) (ho : other.InMemory) :
    req.payloadHash sha256 = other.payloadHash sha256 ↔ SameTask req other := by
  rw [TaskRequest.payloadHash, TaskRequest.payloadHash, hsha.eq_iff]
  exact ⟨sameTask_of_payload hr ho, payload_of_sameTask⟩

/-- A label does not become a skill. -/
theorem payloadHash_exact_labelled :
    TaskRequest.payloadHash verbatim { prompt := "a", requiredLabels := ["x"] } ≠
      TaskRequest.payloadHash verbatim { prompt := "a", skillsRequired := ["x"] } := by
  intro h
  have hsame := (payloadHash_exact verbatim_injective
    ⟨by decide, by decide, by decide, by decide⟩ ⟨by decide, by decide, by decide, by decide⟩).mp h
  exact absurd ((hsame.requiredLabels "x").mp List.mem_cons_self) (by decide)

end Requests

end FleetOrchestrator.Submissions
