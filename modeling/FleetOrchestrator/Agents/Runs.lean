import FleetOrchestrator.Agents.Effects
import FleetOrchestrator.Interleaving.Log

/-! What the statements of a call are, and what a step of a run makes of one agent's row. -/

namespace FleetOrchestrator.Agents

open Core Tables Store Interleaving

def Statement.reads : Statement → Bool
  | .readFence _ | .readCap _ | .selectPin _ | .lockWorker _ | .countAgents _ | .countOthers _ _
  | .selectAgent _ | .finish | .readClock => true
  | _ => false

/-- It is about the slots of a worker. -/
def Statement.slots : Statement → Bool
  | .lockWorker _ | .countAgents _ | .countOthers _ _ => true
  | _ => false

/-- It reads, and nothing about slots. -/
def Statement.looks (op : Statement) : Bool := op.reads && !op.slots

def Request.places : Request → Bool
  | .createAgent _ | .assignAgentWorker _ _ _ => true
  | _ => false

/-- The statement is one that the call may issue. -/
inductive Serves : Request → Statement → Prop
  | reads {request : Request} {op : Statement} (hr : op.reads = true)
    (hp : op.slots = true → request.places = true) : Serves request op
  | createLocked (agent : Agent) (cap : Option (Option ℕ)) :
    Serves (.createAgent agent) (.createLocked agent cap)
  | insertAgent (agent : Agent) (claimed : Option WorkerId) :
    Serves (.createAgent agent) (.insertAgent agent claimed)
  | assignLocked (id : AgentId) (w : WorkerId) (cap : Option (Option ℕ))
    (fence : Option ControlFence) :
    Serves (.assignAgentWorker id w fence) (.assignLocked id w cap fence)
  | updatePlacement (id : AgentId) (w : WorkerId) (fence : Option ControlFence) :
    Serves (.assignAgentWorker id w fence) (.updatePlacement id w fence)
  | desireLocked (id : AgentId) (desired : AgentDesiredStatus) (fence : Option ControlFence) :
    Serves (.setAgentDesiredStatus id desired fence) (.desireLocked id desired fence)
  | updateDesired (id : AgentId) (desired : AgentDesiredStatus) (fence : Option ControlFence) :
    Serves (.setAgentDesiredStatus id desired fence) (.updateDesired id desired fence)
  | statusLocked (id : AgentId) (status : AgentStatus) :
    Serves (.updateAgentStatus id status) (.statusLocked id status)
  | updateStatus (id : AgentId) (status : AgentStatus) :
    Serves (.updateAgentStatus id status) (.updateStatus id status)
  | listCommands (w : WorkerId) : Serves (.listAgentCommands w) (.listCommands w)
  | ackLocked (w : WorkerId) (acks : List AgentAck) :
    Serves (.ackAgentCommands w acks) (.ackLocked w acks)
  | updateAcked (w : WorkerId) (acks : List AgentAck) (ack : AgentAck) (h : ack ∈ acks) :
    Serves (.ackAgentCommands w acks) (.updateAcked w ack)
  | observeLocked (w : WorkerId) (os : List AgentObservation) :
    Serves (.applyAgentObservations w os) (.observeLocked w os)
  | clearUnspoken (w : WorkerId) (os : List AgentObservation) :
    Serves (.applyAgentObservations w os)
      (.clearUnspoken w (os.map AgentObservation.agentId))
  | updateObserved (now : ℤ) (w : WorkerId) (os : List AgentObservation) (o : AgentObservation)
    (h : o ∈ os) : Serves (.applyAgentObservations w os) (.updateObserved now w o)

theorem reads_of_looks {op : Statement} (h : op.looks = true) : op.reads = true := by
  simp only [Statement.looks, Bool.and_eq_true] at h
  exact h.1

theorem serves_of_looks {request : Request} {op : Statement} (h : op.looks = true) :
    Serves request op := by
  simp only [Statement.looks, Bool.and_eq_true, Bool.not_eq_true'] at h
  refine .reads h.1 fun hs => ?_
  rw [h.2] at hs
  cases hs

section Programs

variable {id : AgentId} {w : WorkerId} {fence : Option ControlFence} {agent : Agent}

theorem mem_assign_uses : Uses (Serves (.assignAgentWorker id w fence))
    (MemStore.assignAgentWorker id w fence) := by
  refine uses_call (.reads rfl fun _ => rfl) fun ok => ?_
  cases ok with
  | false => exact uses_ret _
  | true => exact uses_call (.reads rfl fun _ => rfl) fun cap => uses_perform (.assignLocked id w cap fence)

theorem diagnose_looks :
    Uses (fun op => Statement.looks op = true) (PgStore.diagnose id w fence) := by
  refine uses_call rfl fun leftover => uses_call rfl fun _ => uses_call rfl fun ok => ?_
  cases ok with
  | false => exact uses_ret _
  | true =>
    rcases leftover with _ | ⟨placement, _ | _ | _⟩
    · exact uses_ret _
    · exact uses_ret _
    · change Uses _ (if placement ≠ some w then _ else _)
      split
      · exact uses_ret _
      · exact uses_ret _
    · exact uses_ret _

theorem assignUnlessFull_uses (cap : Option ℕ) (others : ℕ) :
    Uses (Serves (.assignAgentWorker id w fence))
      (PgStore.assignUnlessFull id w fence cap others) := by
  unfold PgStore.assignUnlessFull
  split
  · exact uses_call (.reads rfl fun _ => rfl) fun _ => uses_ret _
  · refine uses_call (.updatePlacement id w fence) fun n => ?_
    change Uses _ (if 0 < n then _ else _)
    split
    · exact uses_ret _
    · exact uses_mono diagnose_looks fun _ => serves_of_looks

theorem pg_assign_uses : Uses (Serves (.assignAgentWorker id w fence))
    (PgStore.assignAgentWorker id w fence) := by
  refine uses_call (.reads rfl fun _ => rfl) fun ok => ?_
  cases ok with
  | false => exact uses_ret _
  | true =>
    refine uses_call (.reads rfl fun _ => rfl) fun found => ?_
    cases found with
    | none => exact uses_ret _
    | some found =>
      refine uses_call (.reads rfl fun _ => rfl) fun cap => ?_
      rcases cap with _ | _ | cap
      · exact uses_ret _
      · exact assignUnlessFull_uses none 0
      · exact uses_call (.reads rfl fun _ => rfl) fun n => assignUnlessFull_uses (some cap) n

theorem mem_desire_uses (desired : AgentDesiredStatus) :
    Uses (Serves (.setAgentDesiredStatus id desired fence))
      (MemStore.setAgentDesiredStatus id desired fence) := by
  refine uses_call (.reads rfl nofun) fun ok => ?_
  cases ok with
  | false => exact uses_ret _
  | true => exact uses_perform (.desireLocked id desired fence)

theorem pg_desire_uses (desired : AgentDesiredStatus) :
    Uses (Serves (.setAgentDesiredStatus id desired fence))
      (PgStore.setAgentDesiredStatus id desired fence) := by
  refine uses_call (.reads rfl nofun) fun ok => ?_
  cases ok with
  | false => exact uses_ret _
  | true =>
    refine uses_call (.updateDesired id desired fence) fun n => ?_
    change Uses _ (if 0 < n then _ else _)
    split
    · exact uses_ret _
    · refine uses_call (.reads rfl nofun) fun held => ?_
      cases held
      · exact uses_ret _
      · exact uses_ret _

theorem acks_uses {all : List AgentAck} (acks : List AgentAck) (hall : acks ⊆ all) (n : ℕ) :
    Uses (Serves (.ackAgentCommands w all)) (PgStore.ackAgentCommands w acks n) := by
  induction acks generalizing n with
  | nil => exact uses_ret _
  | cons ack acks ih =>
    rw [List.cons_subset] at hall
    exact uses_call (.updateAcked w all ack hall.1) fun m => ih hall.2 (n + m)

theorem writes_uses {all : List AgentObservation} (os : List AgentObservation) (hall : os ⊆ all)
    (now : ℤ) (n : ℕ) :
    Uses (Serves (.applyAgentObservations w all)) (PgStore.writeObservations now w os n) := by
  induction os generalizing n with
  | nil => exact uses_ret _
  | cons o os ih =>
    rw [List.cons_subset] at hall
    exact uses_call (.updateObserved now w all o hall.1) fun m => ih hall.2 (n + m)

theorem serve_uses {b : Backend} {request : Request} (hc : ∀ agent, request ≠ .createAgent agent) :
    Uses (Serves request) (serve b request) := by
  cases request with
  | createAgent agent => exact absurd rfl (hc agent)
  | assignAgentWorker id w fence =>
    cases b with
    | mem => exact uses_map mem_assign_uses
    | pg => exact uses_map pg_assign_uses
  | setAgentDesiredStatus id desired fence =>
    cases b with
    | mem => exact uses_map (mem_desire_uses desired)
    | pg => exact uses_map (pg_desire_uses desired)
  | updateAgentStatus id status =>
    cases b with
    | mem => exact uses_map (uses_perform (.statusLocked id status))
    | pg => exact uses_map (uses_call (.updateStatus id status) fun _ => uses_ret _)
  | listAgentCommands w => cases b <;> exact uses_map (uses_perform (.listCommands w))
  | ackAgentCommands w acks =>
    cases b with
    | mem => exact uses_map (uses_perform (.ackLocked w acks))
    | pg => exact uses_map (acks_uses acks (List.Subset.refl _) 0)
  | applyAgentObservations w os =>
    cases b with
    | mem => exact uses_map (uses_perform (.observeLocked w os))
    | pg =>
      exact uses_map (uses_call (.clearUnspoken w os) fun n =>
        uses_call (.reads rfl nofun) fun now => writes_uses os (List.Subset.refl _) now n)

theorem checkPin_looks (pin : Option AgentTemplatePin) :
    Uses (fun op => Statement.looks op = true) (PgStore.checkPin pin) := by
  cases pin with
  | none => exact uses_ret _
  | some pin =>
    refine uses_call rfl fun found => ?_
    rcases found with _ | ⟨isRevoked, status⟩
    · exact uses_ret _
    · change Uses _ (if isRevoked = true then _ else _)
      split
      · exact uses_ret _
      · change Uses _ (if (!status.acceptsNewPins) = true then _ else _)
        split
        · exact uses_ret _
        · exact uses_ret _

theorem claimSlot_uses (placement : Option WorkerId) :
    Uses (fun op => Statement.reads op = true) (PgStore.claimSlot placement) := by
  cases placement with
  | none => exact uses_ret _
  | some w =>
    refine uses_call rfl fun cap => ?_
    rcases cap with _ | _ | cap
    · exact uses_ret _
    · exact uses_ret _
    · refine uses_call rfl fun n => ?_
      change Uses _ (if full (some cap) n = true then _ else _)
      split
      · exact uses_ret _
      · exact uses_ret _

end Programs

/-- A call's statement is its own, and a creation is its only one. -/
def Licensed (request : Request) (h : List (Entry Statement Statement.Resp)) (op : Statement) :
    Prop :=
  Serves request op ∧ (op.creates ≠ none → ∀ e ∈ h, e.op.creates = none)

section Creators

variable {agent : Agent} {h h' : List (Entry Statement Statement.Resp)} {op : Statement}

theorem creates_of_reads (hr : op.reads = true) : op.creates = none := by
  cases op <;> first | rfl | cases hr

theorem licensed_read (hr : op.reads = true) : Licensed (.createAgent agent) h op :=
  ⟨.reads hr fun _ => rfl, fun hc => absurd (creates_of_reads hr) hc⟩

theorem none_created (hg : Grew (fun op => Statement.reads op = true) [] h) :
    ∀ e ∈ h, e.op.creates = none := by
  obtain ⟨new, rfl, hn⟩ := hg
  intro e he
  apply creates_of_reads
  apply hn
  simpa using he

theorem creates_request {request : Request} (hs : Serves request op)
    (hc : op.creates = some agent) : request = .createAgent agent := by
  cases hs with
  | reads hr hp =>
    rw [creates_of_reads hr] at hc
    cases hc
  | createLocked a cap =>
    cases hc
    rfl
  | insertAgent a claimed =>
    cases hc
    rfl
  | _ => cases hc

theorem mem_create_obeys :
    Obeys (Licensed (.createAgent agent)) (fun _ _ => True) (MemStore.createAgent agent) [] := by
  unfold MemStore.createAgent
  cases agent.workerId with
  | none => exact obeys_perform ⟨.createLocked agent none, fun _ => none_created (.refl _)⟩ fun _ => trivial
  | some w =>
    refine obeys_call (licensed_read rfl) fun cap => ?_
    exact obeys_perform ⟨.createLocked agent cap, fun _ => none_created (.one rfl)⟩ fun _ => trivial

theorem pg_create_obeys :
    Obeys (Licensed (.createAgent agent)) (fun _ _ => True) (PgStore.createAgent agent) [] := by
  have hpin := uses_mono (checkPin_looks agent.templatePin) fun _ => reads_of_looks
  apply obeys_bind (obeys_of_uses hpin fun _ _ hr => licensed_read hr)
  intro pinned h₁ hg₁
  cases pinned with
  | error e => exact obeys_ret trivial
  | ok u =>
    apply obeys_bind (obeys_of_uses (claimSlot_uses _) fun _ _ hr => licensed_read hr)
    intro placed h₂ hg₂
    refine obeys_call ⟨.insertAgent agent placed, fun _ => none_created (hg₁.trans hg₂)⟩ fun r => ?_
    cases r with
    | error e => exact obeys_ret trivial
    | ok u => exact obeys_ret trivial

end Creators

theorem calls_disciplined (b : Backend) :
    (fleetAgents b).Disciplined (fun _ request => Licensed request) fun _ _ _ _ => True := by
  intro p request
  by_cases hc : ∃ agent, request = .createAgent agent
  · obtain ⟨agent, rfl⟩ := hc
    cases b with
    | mem => exact obeys_map mem_create_obeys
    | pg => exact obeys_map pg_create_obeys
  · have hn : ∀ agent, request ≠ .createAgent agent := fun agent he => hc ⟨agent, he⟩
    refine obeys_conseq (obeys_of_uses (serve_uses hn) ?_) fun _ _ _ => trivial
    intro h op hs
    refine ⟨hs, fun hcr => ?_⟩
    obtain ⟨agent, ha⟩ := Option.ne_none_iff_exists'.mp hcr
    exact absurd (creates_request hs ha) (hn agent)

end FleetOrchestrator.Agents
