import FleetOrchestrator.Agents.Placement

/-! The slots of a worker: what each call has read of them before it claims one. -/

namespace FleetOrchestrator.Agents

open Core Tables Store Interleaving

abbrev Past := List (Entry Statement Statement.Resp)

/-- What a transaction knows of the worker's slots: the row is locked, and the agents on it that
`count` is about leave room, or the worker's size is unknown. -/
def RoomKnown (w : WorkerId) (count : Statement) (counted : ℕ → count.Resp) (h : Past) : Prop :=
  (∃ cap n rest, h = ⟨count, counted n⟩ :: ⟨.lockWorker w, some (some cap)⟩ :: rest ∧
    full (some cap) n = false) ∨
  ∃ rest, h = ⟨.lockWorker w, some none⟩ :: rest

/-- A slot is claimed only by what the backend's own way of counting has found free. -/
def SlotLicensed (b : Backend) (h : Past) : Statement → Prop
  | .createLocked agent cap =>
    b = .mem ∧ ∀ w, agent.workerId = some w → ∃ rest, h = ⟨.readCap w, cap⟩ :: rest
  | .assignLocked _ w cap _ => b = .mem ∧ ∃ rest, h = ⟨.readCap w, cap⟩ :: rest
  | .lockWorker _ => b = .pg
  | .countAgents w => b = .pg ∧ ∃ cap rest, h = ⟨.lockWorker w, some (some cap)⟩ :: rest
  | .countOthers w _ => b = .pg ∧ ∃ cap rest, h = ⟨.lockWorker w, some (some cap)⟩ :: rest
  | .insertAgent _ claimed =>
    b = .pg ∧ ∀ w, claimed = some w → RoomKnown w (.countAgents w) (fun n => n) h
  | .updatePlacement id w _ => b = .pg ∧ RoomKnown w (.countOthers w id) (fun n => n) h
  | _ => True

theorem slots_of_looks {b : Backend} {h : Past} {op : Statement} (hl : op.looks = true) :
    SlotLicensed b h op := by
  cases op <;> trivial

section Programs

variable {id : AgentId} {w : WorkerId} {fence : Option ControlFence} {agent : Agent} {h : Past}

theorem mem_create_slots :
    Obeys (SlotLicensed .mem) (fun _ _ => True) (MemStore.createAgent agent) [] := by
  unfold MemStore.createAgent
  cases hw : agent.workerId with
  | none =>
    refine obeys_perform ⟨rfl, ?_⟩ fun _ => trivial
    intro w he
    rw [hw] at he
    cases he
  | some w =>
    refine obeys_call trivial fun cap => obeys_perform ⟨rfl, ?_⟩ fun _ => trivial
    intro v he
    rw [hw] at he
    cases he
    exact ⟨_, rfl⟩

theorem mem_assign_slots :
    Obeys (SlotLicensed .mem) (fun _ _ => True) (MemStore.assignAgentWorker id w fence) [] := by
  refine obeys_call trivial fun ok => ?_
  cases ok with
  | false => exact obeys_ret trivial
  | true => exact obeys_call trivial fun cap => obeys_perform ⟨rfl, _, rfl⟩ fun _ => trivial

theorem claimSlot_slots (placement : Option WorkerId) :
    Obeys (SlotLicensed .pg)
      (fun claimed h => ∀ w, claimed = some w → RoomKnown w (.countAgents w) (fun n => n) h)
      (PgStore.claimSlot placement) h := by
  cases placement with
  | none => exact obeys_ret fun w he => by cases he
  | some w =>
    refine obeys_call rfl fun cap => ?_
    rcases cap with _ | _ | cap
    · exact obeys_ret fun w he => by cases he
    · refine obeys_ret fun v he => ?_
      cases he
      exact .inr ⟨_, rfl⟩
    · refine obeys_call ⟨rfl, _, _, rfl⟩ fun n => ?_
      change Obeys _ _ (if full (some cap) n = true then _ else _) _
      by_cases hfull : full (some cap) n = true
      · rw [if_pos hfull]
        exact obeys_ret fun w he => by cases he
      · rw [if_neg hfull]
        refine obeys_ret fun v he => ?_
        cases he
        exact .inl ⟨cap, n, _, rfl, by simpa using hfull⟩

theorem pg_create_slots :
    Obeys (SlotLicensed .pg) (fun _ _ => True) (PgStore.createAgent agent) [] := by
  apply obeys_bind (obeys_of_uses (checkPin_looks _) fun _ _ => slots_of_looks)
  intro pinned h₁ _
  cases pinned with
  | error e => exact obeys_ret trivial
  | ok u =>
    apply obeys_bind (claimSlot_slots agent.workerId)
    intro placed h₂ hroom
    refine obeys_call ⟨rfl, hroom⟩ fun r => ?_
    cases r with
    | error e => exact obeys_ret trivial
    | ok u => exact obeys_ret trivial

theorem assignUnlessFull_slots {cap : Option ℕ} {n : ℕ}
    (hroom : full cap n = false → RoomKnown w (.countOthers w id) (fun n => n) h) :
    Obeys (SlotLicensed .pg) (fun _ _ => True)
      (PgStore.assignUnlessFull id w fence cap n) h := by
  unfold PgStore.assignUnlessFull
  by_cases hfull : full cap n = true
  · rw [if_pos hfull]
    exact obeys_call trivial fun _ => obeys_ret trivial
  · rw [if_neg hfull]
    refine obeys_call ⟨rfl, hroom (by simpa using hfull)⟩ fun m => ?_
    change Obeys _ _ (if 0 < m then _ else _) _
    by_cases hm : 0 < m
    · rw [if_pos hm]
      exact obeys_ret trivial
    · rw [if_neg hm]
      exact obeys_conseq (obeys_of_uses diagnose_looks fun _ _ => slots_of_looks) fun _ _ _ => trivial

theorem pg_assign_slots :
    Obeys (SlotLicensed .pg) (fun _ _ => True) (PgStore.assignAgentWorker id w fence) [] := by
  refine obeys_call trivial fun ok => ?_
  cases ok with
  | false => exact obeys_ret trivial
  | true =>
    refine obeys_call trivial fun found => ?_
    cases found with
    | none => exact obeys_ret trivial
    | some found =>
      refine obeys_call rfl fun cap => ?_
      rcases cap with _ | _ | cap
      · exact obeys_ret trivial
      · exact assignUnlessFull_slots fun _ => .inr ⟨_, rfl⟩
      · refine obeys_call ⟨rfl, _, _, rfl⟩ fun n => ?_
        exact assignUnlessFull_slots fun hfull => .inl ⟨cap, n, _, rfl, hfull⟩

theorem slots_disciplined (b : Backend) :
    (fleetAgents b).Disciplined (fun _ _ => SlotLicensed b) fun _ _ _ _ => True := by
  intro p request
  by_cases hp : request.places = true
  · cases request with
    | createAgent agent =>
      cases b with
      | mem => exact obeys_map mem_create_slots
      | pg => exact obeys_map pg_create_slots
    | assignAgentWorker id w fence =>
      cases b with
      | mem => exact obeys_map mem_assign_slots
      | pg => exact obeys_map pg_assign_slots
    | _ => cases hp
  · have hn : ∀ agent, request ≠ .createAgent agent := by
      rintro agent rfl
      exact hp rfl
    refine obeys_conseq (obeys_of_uses (serve_uses hn) ?_) fun _ _ _ => trivial
    intro h op hs
    cases hs with
    | reads hr hslot =>
      apply slots_of_looks
      simp only [Statement.looks, hr, Bool.true_and, Bool.not_eq_true']
      exact Bool.eq_false_iff.mpr fun hsl => hp (hslot hsl)
    | createLocked agent cap => exact absurd rfl hp
    | insertAgent agent claimed => exact absurd rfl hp
    | assignLocked id w cap fence => exact absurd rfl hp
    | updatePlacement id w fence => exact absurd rfl hp
    | _ => trivial

end Programs

end FleetOrchestrator.Agents
