import Mathlib.Algebra.Order.Sub.Basic
import Mathlib.Data.List.Induction
import FleetOrchestrator.Tables.Outbox
import FleetOrchestrator.Worker.Registration

/-! Orphan and fencing events on their way to the orchestrator. -/

namespace FleetOrchestrator.Worker

open Core Tables

inductive AgentEvent where
  | orphan (o : AgentOrphan)
  | fenced (f : AgentFenced)
  deriving DecidableEq, Repr

def events (orphans : List AgentOrphan) (fenced : List AgentFenced) : Multiset AgentEvent :=
  (orphans.map .orphan : List AgentEvent) + (fenced.map .fenced : List AgentEvent)

theorem events_orphans (xs ys : List AgentOrphan) (fs : List AgentFenced) :
    events (xs ++ ys) fs = events xs fs + events ys [] := by
  simp only [events, List.map_append, List.map_nil, ← Multiset.coe_add, Multiset.coe_nil]
  abel

theorem events_fenced (os : List AgentOrphan) (xs ys : List AgentFenced) :
    events os (xs ++ ys) = events os xs + events [] ys := by
  simp only [events, List.map_append, List.map_nil, ← Multiset.coe_add, Multiset.coe_nil]
  abel

@[simp] theorem events_nil : events [] [] = 0 := rfl

def HeartbeatRequest.events (r : HeartbeatRequest) : Multiset AgentEvent :=
  Worker.events r.agentOrphans r.agentFenced

def succeeded (reply : Option Reply) : Bool := reply.any fun r => r.isSuccess && r.json.isSome

theorem succeeded_iff {reply : Option Reply} :
    succeeded reply ↔ ∃ body, RegistrationClient.heartbeatResult reply = .ok body := by
  cases reply with
  | none => simp [succeeded, RegistrationClient.heartbeatResult]
  | some r =>
    cases hs : r.isSuccess <;> cases hj : r.json <;>
      simp [succeeded, RegistrationClient.heartbeatResult, hs, hj]

namespace HeartbeatLoop

def pending (s : HeartbeatLoop) : Multiset AgentEvent :=
  events s.client.pendingOrphans s.client.pendingFenced

/-- The events of the heartbeat whose outcome is still open. -/
def inFlight (s : HeartbeatLoop) : Multiset AgentEvent :=
  match s.point with
  | .sent request => request.events
  | _ => 0

/-- The events a step adds to the pending buffers. -/
def recordedAt (s : HeartbeatLoop) (x : LoopInput) : Multiset AgentEvent :=
  (s.step x).pending - s.pending

/-- The events of the heartbeat that a step sees answered successfully. -/
def answeredAt (s : HeartbeatLoop) (x : LoopInput) : Multiset AgentEvent :=
  match s.point, (s.step x).point with
  | .sent request, .answered _ => request.events
  | _, _ => 0

def recorded : HeartbeatLoop → List LoopInput → Multiset AgentEvent
  | _, [] => 0
  | s, x :: xs => s.recordedAt x + (s.step x).recorded xs

def answered : HeartbeatLoop → List LoopInput → Multiset AgentEvent
  | _, [] => 0
  | s, x :: xs => s.answeredAt x + (s.step x).answered xs

/-- Every event recorded along a run is still pending, or in a heartbeat that was answered
successfully or whose answer is awaited; each is counted as often as it was recorded. -/
def Accounted (s : HeartbeatLoop) (xs : List LoopInput) : Prop :=
  s.recorded xs ≤ (s.after xs).pending + (s.after xs).inFlight + s.answered xs

/-- A heartbeat without a readable answer of success carries no event. -/
def Spares (s : HeartbeatLoop) : LoopInput → Prop
  | .reply reply =>
    ∀ request, s.point = .sent request → ¬ succeeded reply →
      request.agentOrphans = [] ∧ request.agentFenced = []
  | _ => True

/-- A step as the outbox of events sees it. -/
def outboxMove (s : HeartbeatLoop) (x : LoopInput) : Outbox.Move AgentEvent :=
  match s.point, (s.step x).point with
  | .top, .sent _ => .send
  | .sent _, .answered _ => .deliver
  | .sent _, .failed _ => .lose
  | _, _ => .record (s.recordedAt x)

def outboxMoves : HeartbeatLoop → List LoopInput → List (Outbox.Move AgentEvent)
  | _, [] => []
  | s, x :: xs => s.outboxMove x :: (s.step x).outboxMoves xs

end HeartbeatLoop

section Steps

variable {s s' : HeartbeatLoop} {x : LoopInput} {ys : Multiset AgentEvent}

theorem recordedAt_grown (h : (s.step x).pending = s.pending + ys) : s.recordedAt x = ys := by
  rw [HeartbeatLoop.recordedAt, h, add_tsub_cancel_left]

theorem recordedAt_same (h : (s.step x).pending = s.pending) : s.recordedAt x = 0 := by
  apply recordedAt_grown
  rw [h, add_zero]

theorem sweep_pending (orphans : List AgentOrphan) :
    (s.sweep orphans).pending = s.pending + events orphans [] := by
  cases orphans with
  | nil => simp [HeartbeatLoop.pending, HeartbeatLoop.sweep]
  | cons o os => exact events_orphans _ _ _

theorem converge_pending (response : HeartbeatResponse) (now : Nanos) (outcome : ReconcileOutcome) :
    ∃ ys, (s.converge response now outcome).pending = s.pending + ys := by
  unfold HeartbeatLoop.converge
  cases reconcile response.agents outcome with
  | none => exact ⟨0, (add_zero _).symm⟩
  | some outcome => exact ⟨_, events_orphans _ _ _⟩

theorem fence_pending (now : Nanos) (agents : List AgentId) :
    ∃ ys, (s.fence now agents).pending = s.pending + ys := by
  unfold HeartbeatLoop.pending HeartbeatLoop.fence HeartbeatLoop.afterFencing
  by_cases h : s.config.fenceAfter ≤ now - s.lastContact ∧ agents ≠ []
  · rw [if_pos h]
    exact ⟨_, events_fenced _ _ _⟩
  · rw [if_neg h]
    exact ⟨0, (add_zero _).symm⟩

theorem receive_pending (reply : Option Reply) : (s.receive reply).pending = s.pending := by
  unfold HeartbeatLoop.receive
  cases RegistrationClient.heartbeatResult reply with
  | error e => rfl
  | ok body => simp [HeartbeatLoop.pending]

/-- What a step does with the events, for the outbox's move it is. -/
inductive Passes (s s' : HeartbeatLoop) : Outbox.Move AgentEvent → Prop
  | record (ys : Multiset AgentEvent) (hp : s'.pending = s.pending + ys)
      (hf : s'.inFlight = s.inFlight) : Passes s s' (.record ys)
  | send (hp : s'.pending = 0) (hf : s.inFlight = 0) (hf' : s'.inFlight = s.pending) :
      Passes s s' .send
  | deliver (hp : s'.pending = s.pending) (hf' : s'.inFlight = 0) : Passes s s' .deliver
  | lose (hp : s'.pending = s.pending) (hf' : s'.inFlight = 0) : Passes s s' .lose

theorem passes_record (hm : s.outboxMove x = .record (s.recordedAt x))
    (hp : ∃ ys, (s.step x).pending = s.pending + ys) (hf : (s.step x).inFlight = s.inFlight) :
    Passes s (s.step x) (s.outboxMove x) := by
  obtain ⟨ys, hp⟩ := hp
  rw [hm, recordedAt_grown hp]
  exact .record ys hp hf

theorem send_passes (agentHealthy : Bool) (hs : s.point = .top) :
    Passes s (s.step (.beat agentHealthy)) (s.outboxMove (.beat agentHealthy)) := by
  have he : s.step (.beat agentHealthy) = s.send agentHealthy := by simp [HeartbeatLoop.step, hs]
  cases hw : s.client.workerId with
  | none =>
    have hsend : s.send agentHealthy =
        { s with point := .failed (.orchestratorApi "not registered yet") } := by
      simp [HeartbeatLoop.send, RegistrationClient.heartbeatRequest, hw]
    have hf : (s.step (.beat agentHealthy)).inFlight = s.inFlight := by
      simp [he, hsend, HeartbeatLoop.inFlight, hs]
    refine passes_record ?_ ⟨0, ?_⟩ hf
    · simp [HeartbeatLoop.outboxMove, he, hsend, hs]
    · simp [he, hsend, HeartbeatLoop.pending]
  | some workerId =>
    have hm : s.outboxMove (.beat agentHealthy) = .send := by
      simp [HeartbeatLoop.outboxMove, he, HeartbeatLoop.send,
        RegistrationClient.heartbeatRequest, hw, hs]
    rw [hm]
    apply Passes.send
    · simp [he, HeartbeatLoop.send, HeartbeatLoop.pending, RegistrationClient.heartbeatRequest, hw]
    · simp [HeartbeatLoop.inFlight, hs]
    · simp [he, HeartbeatLoop.send, HeartbeatLoop.inFlight, RegistrationClient.heartbeatRequest,
        hw, HeartbeatRequest.events, HeartbeatLoop.pending]

theorem receive_move {request : HeartbeatRequest} (reply : Option Reply)
    (hs : s.point = .sent request) :
    s.outboxMove (.reply reply) =
      match RegistrationClient.heartbeatResult reply with
      | .error _ => .lose
      | .ok _ => .deliver := by
  have he : s.step (.reply reply) = s.receive reply := by simp [HeartbeatLoop.step, hs]
  cases hr : RegistrationClient.heartbeatResult reply with
  | error e => simp [HeartbeatLoop.outboxMove, he, HeartbeatLoop.receive, hr, hs]
  | ok body => simp [HeartbeatLoop.outboxMove, he, HeartbeatLoop.receive, hr, hs]

theorem receive_passes {request : HeartbeatRequest} (reply : Option Reply)
    (hs : s.point = .sent request) :
    Passes s (s.step (.reply reply)) (s.outboxMove (.reply reply)) := by
  have he : s.step (.reply reply) = s.receive reply := by simp [HeartbeatLoop.step, hs]
  have hp : (s.step (.reply reply)).pending = s.pending := by rw [he, receive_pending]
  rw [receive_move reply hs]
  cases hr : RegistrationClient.heartbeatResult reply with
  | error e =>
    apply Passes.lose hp
    simp [he, HeartbeatLoop.receive, hr, HeartbeatLoop.inFlight]
  | ok body =>
    apply Passes.deliver hp
    simp [he, HeartbeatLoop.receive, hr, HeartbeatLoop.inFlight]

theorem fence_passes {e : WorkerError} (now : Nanos) (agents : List AgentId)
    (hs : s.point = .failed e) :
    Passes s (s.step (.fenced now agents)) (s.outboxMove (.fenced now agents)) := by
  have he : s.step (.fenced now agents) = s.fence now agents := by
    simp [HeartbeatLoop.step, hs]
  have hpoint : (s.fence now agents).point = .top := by rw [HeartbeatLoop.fence]
  refine passes_record ?_ ?_ ?_
  · simp [HeartbeatLoop.outboxMove, hs]
  · rw [he]
    exact fence_pending now agents
  · simp [HeartbeatLoop.inFlight, he, hpoint, hs]

theorem passes (s : HeartbeatLoop) (x : LoopInput) :
    Passes s (s.step x) (s.outboxMove x) := by
  obtain ⟨config, client, lastContact, point⟩ := s
  cases x with
  | swept orphans =>
    cases point with
    | entered => exact passes_record rfl ⟨_, sweep_pending orphans⟩ rfl
    | _ => exact passes_record rfl ⟨0, (add_zero _).symm⟩ rfl
  | shutdown => cases point <;> exact passes_record rfl ⟨0, (add_zero _).symm⟩ rfl
  | beat agentHealthy =>
    cases point with
    | top => exact send_passes agentHealthy rfl
    | _ => exact passes_record rfl ⟨0, (add_zero _).symm⟩ rfl
  | reply reply =>
    cases point with
    | sent request => exact receive_passes reply rfl
    | _ => exact passes_record rfl ⟨0, (add_zero _).symm⟩ rfl
  | reconciled now outcome =>
    cases point with
    | answered response => exact passes_record rfl (converge_pending response now outcome) rfl
    | _ => exact passes_record rfl ⟨0, (add_zero _).symm⟩ rfl
  | fenced now agents =>
    cases point with
    | failed e => exact fence_passes now agents rfl
    | _ => exact passes_record rfl ⟨0, (add_zero _).symm⟩ rfl

theorem recorded_move (s : HeartbeatLoop) (x : LoopInput) :
    (s.outboxMove x).recorded = s.recordedAt x := by
  have h := passes s x
  generalize s.outboxMove x = m at h ⊢
  cases h with
  | record ys hp _ => exact (recordedAt_grown hp).symm
  | send hp _ _ =>
    rw [HeartbeatLoop.recordedAt, hp, zero_tsub]
    rfl
  | deliver hp _ => exact (recordedAt_same hp).symm
  | lose hp _ => exact (recordedAt_same hp).symm

theorem lose_reply (hm : s.outboxMove x = .lose) :
    ∃ reply request e, x = .reply reply ∧ s.point = .sent request ∧
      RegistrationClient.heartbeatResult reply = .error e := by
  cases hs : s.point with
  | sent request =>
    cases x with
    | reply reply =>
      rw [receive_move reply hs] at hm
      cases hr : RegistrationClient.heartbeatResult reply with
      | error e => exact ⟨reply, request, e, rfl, rfl, hr⟩
      | ok body => simp [hr] at hm
    | _ => simp [HeartbeatLoop.outboxMove, HeartbeatLoop.step, hs] at hm
  | top =>
    cases h' : (s.step x).point <;> simp [HeartbeatLoop.outboxMove, hs, h'] at hm
  | _ => simp [HeartbeatLoop.outboxMove, hs] at hm

end Steps

/-- An outbox that holds what the loop's buffers and its open heartbeat hold. -/
structure Holds (o : Outbox AgentEvent) (s : HeartbeatLoop) : Prop where
  pending : o.pending = s.pending
  inFlight : o.inFlight = s.inFlight

section Simulation

variable {o : Outbox AgentEvent} {s : HeartbeatLoop} {x : LoopInput}

theorem Holds.step (h : Holds o s) : Holds (o.move (s.outboxMove x)) (s.step x) := by
  have hpass := passes s x
  generalize s.outboxMove x = m at hpass ⊢
  cases hpass with
  | record ys hp hf =>
    have hrec : o.pending + ys = (s.step x).pending := by rw [hp, h.pending]
    exact ⟨hrec, h.inFlight.trans hf.symm⟩
  | send hp hf hf' =>
    have hsent : o.inFlight + o.pending = s.pending := by
      rw [h.inFlight, hf, zero_add, h.pending]
    exact ⟨hp.symm, hsent.trans hf'.symm⟩
  | deliver hp hf' => exact ⟨h.pending.trans hp.symm, hf'.symm⟩
  | lose hp hf' => exact ⟨h.pending.trans hp.symm, hf'.symm⟩

theorem Holds.delivered (h : Holds o s) :
    (o.move (s.outboxMove x)).delivered = o.delivered + s.answeredAt x := by
  cases hs : s.point with
  | sent request =>
    have hf : o.inFlight = request.events := by
      rw [h.inFlight]
      simp [HeartbeatLoop.inFlight, hs]
    cases hs' : (s.step x).point <;>
      simp [HeartbeatLoop.outboxMove, HeartbeatLoop.answeredAt, hs, hs', Outbox.move, hf]
  | top =>
    cases hs' : (s.step x).point <;>
      simp [HeartbeatLoop.outboxMove, HeartbeatLoop.answeredAt, hs, hs', Outbox.move]
  | _ => simp [HeartbeatLoop.outboxMove, HeartbeatLoop.answeredAt, hs, Outbox.move]

theorem Holds.spares (h : Holds o s) : s.Spares x ↔ o.Harmless (s.outboxMove x) := by
  by_cases hm : s.outboxMove x = .lose
  · obtain ⟨reply, request, e, rfl, hs, hr⟩ := lose_reply hm
    have hf : o.inFlight = request.events := by
      rw [h.inFlight]
      simp [HeartbeatLoop.inFlight, hs]
    have hn : ¬ succeeded reply := by simp [succeeded_iff, hr]
    rw [hm, Outbox.Harmless, hf]
    simp [HeartbeatLoop.Spares, hs, hn, HeartbeatRequest.events, events]
  · have hharmless : o.Harmless (s.outboxMove x) := by
      cases hx : s.outboxMove x with
      | lose => exact absurd hx hm
      | _ => trivial
    have hspares : s.Spares x := by
      cases x with
      | reply reply =>
        intro request hs hn
        rw [receive_move reply hs] at hm
        cases hr : RegistrationClient.heartbeatResult reply with
        | error e => simp [hr] at hm
        | ok body => exact absurd (succeeded_iff.mpr ⟨body, hr⟩) hn
      | _ => trivial
    exact iff_of_true hspares hharmless

end Simulation

section Run

variable {o : Outbox AgentEvent} {s : HeartbeatLoop} {xs : List LoopInput}

theorem Holds.run (h : Holds o s) : Holds (o.after (s.outboxMoves xs)) (s.after xs) := by
  induction xs generalizing o s with
  | nil => exact h
  | cons x xs ih => exact ih h.step

theorem Holds.run_delivered (h : Holds o s) :
    (o.after (s.outboxMoves xs)).delivered = o.delivered + s.answered xs := by
  induction xs generalizing o s with
  | nil => exact (add_zero _).symm
  | cons x xs ih =>
    have hrest := ih (h.step (x := x))
    rw [h.delivered, add_assoc] at hrest
    exact hrest

theorem run_recorded : Outbox.recorded (s.outboxMoves xs) = s.recorded xs := by
  induction xs generalizing s with
  | nil => rfl
  | cons x xs ih =>
    rw [HeartbeatLoop.outboxMoves, Outbox.recorded_cons, recorded_move, ih]
    rfl

theorem outboxMoves_append (ys : List LoopInput) (x : LoopInput) :
    s.outboxMoves (ys ++ [x]) = s.outboxMoves ys ++ [(s.after ys).outboxMove x] := by
  induction ys generalizing s with
  | nil => rfl
  | cons y ys ih =>
    rw [List.cons_append, HeartbeatLoop.outboxMoves, ih]
    rfl

/-- The outbox that has seen the loop's run so far. -/
theorem start_holds (config : LoopConfig) (workerId : String) (now : Nanos) :
    Holds {} (HeartbeatLoop.start config workerId now) := ⟨rfl, rfl⟩

theorem accounted_iff (h : Holds {} s) :
    s.Accounted xs ↔ (Outbox.after {} (s.outboxMoves xs)).lost = 0 := by
  have hd : (Outbox.after {} (s.outboxMoves xs)).delivered = s.answered xs :=
    h.run_delivered.trans (zero_add _)
  rw [← Outbox.kept_iff, run_recorded, h.run.pending, h.run.inFlight, hd]
  rfl

end Run

/-- At every moment of a run, from the start of the loop on, the events recorded so far are
accounted for, exactly if no heartbeat that is refused or lost carries any. -/
theorem events_kept_iff (config : LoopConfig) (workerId : String) (now : Nanos)
    (inputs : List LoopInput) :
    (∀ xs, xs <+: inputs → (HeartbeatLoop.start config workerId now).Accounted xs) ↔
      ∀ xs x, xs ++ [x] <+: inputs →
        ((HeartbeatLoop.start config workerId now).after xs).Spares x := by
  have hstart := start_holds config workerId now
  generalize HeartbeatLoop.start config workerId now = s at hstart ⊢
  constructor
  · intro h xs x hpre
    have hlost := (accounted_iff hstart).mp (h _ hpre)
    rw [outboxMoves_append, Outbox.after_append, Outbox.after_cons, Outbox.after_nil,
      Outbox.move_lost] at hlost
    exact hstart.run.spares.mpr hlost.2
  · intro h xs
    induction xs using List.reverseRecOn with
    | nil => exact fun _ => (accounted_iff hstart).mpr rfl
    | append_singleton xs x ih =>
      intro hpre
      have hlost := (accounted_iff hstart).mp (ih ((List.prefix_append xs [x]).trans hpre))
      apply (accounted_iff hstart).mpr
      rw [outboxMoves_append, Outbox.after_append, Outbox.after_cons, Outbox.after_nil,
        Outbox.move_lost]
      exact ⟨hlost, hstart.run.spares.mp (h xs x hpre)⟩

/-- The worker is cut off for ten seconds, fences its agent, and the next heartbeat is lost. -/
theorem fencing_lost :
    ¬ (HeartbeatLoop.start ⟨5, 6⟩ "w" 0).Accounted
      [.swept [], .beat true, .reply none, .fenced (Nanos.fromSecs 10) [⟨3⟩],
        .beat true, .reply none] := by
  unfold HeartbeatLoop.Accounted
  decide +kernel

end FleetOrchestrator.Worker
