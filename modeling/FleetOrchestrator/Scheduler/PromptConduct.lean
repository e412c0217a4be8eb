import FleetOrchestrator.Scheduler.ControlConduct

/-! The task that follows a prompt, and the supervisor's turn when a connection ends. -/

namespace FleetOrchestrator.Scheduler

open Core Store Transport Interleaving AcpTransport

section Prompting

variable {D : Deployment} {p : ℕ} {link connection : ℕ} {req : DispatchRequest} {cwd : String}
  {h h' : History}

/-- The end was reported once, or is left to whoever removed the session before. -/
def PromptEnds (h : History) : Prop :=
  reportedIn h = 1 ∨ (reportedIn h = 0 ∧ removedIn h = some false ∧
    ∃ sessionId reply, insertedIn h = some sessionId ∧ replyIn h = some reply ∧
      reply.isFinished = false)

/-- A session of this prompt, with as much of its course as the report depends on. -/
structure Prompted (sessionId : SessionId) (reply : Option PromptReply) (removed : Option Bool)
    (h : History) : Prop where
  inserted : insertedIn h = some sessionId
  reply : replyIn h = reply
  removed : removedIn h = removed
  unreported : reportedIn h = 0

theorem mayReport {sessionId : SessionId} {reply : PromptReply} {removed : Bool}
    (hp : Prompted sessionId (some reply) (some removed) h)
    (hr : reply.isFinished = true ∨ removed = true) : MayReport h :=
  ⟨hp.unreported, .inr ⟨reply, removed, hp.reply, hp.removed, hr⟩⟩

theorem reportPrompt_keeps {sessionId : SessionId} {removed : Bool} {reply : PromptReply}
    (durationSecs : ℕ) (output : String)
    (hp : Prompted sessionId (some reply) (some removed) h) :
    Keeps D p (.prompt link connection req cwd) (fun _ h' => PromptEnds h')
      (reportPrompt link connection req sessionId removed durationSecs output reply) h := by
  have left (hr : reply.isFinished = false) (hf : removed = false) : PromptEnds h := by
    subst hf
    exact .inr ⟨hp.unreported, hp.removed, sessionId, reply, hp.inserted, hp.reply, hr⟩
  cases reply with
  | finished usage =>
    refine keeps_step trivial fun finishedAt => ?_
    have hp' : Prompted sessionId (some (.finished usage)) (some removed)
        (⟨.process .utcNow, finishedAt⟩ :: h) :=
      ⟨hp.inserted, hp.reply, hp.removed, hp.unreported⟩
    have hm := mayReport hp' (.inl rfl)
    refine ⟨⟨link, connection, req, cwd, rfl, rfl, rfl, hm⟩, fun sent => .inl ?_⟩
    exact congrArg (· + 1) hp.unreported
  | refused message =>
    cases removed with
    | false => exact obeys_ret (left rfl rfl)
    | true =>
      refine ⟨⟨link, connection, req, cwd, rfl, rfl, mayReport hp (.inr rfl)⟩, fun sent => .inl ?_⟩
      exact congrArg (· + 1) hp.unreported
  | timedOut =>
    cases removed with
    | false => exact obeys_ret (left rfl rfl)
    | true =>
      refine keeps_step trivial fun sent => ?_
      have hp' : Prompted sessionId (some .timedOut) (some true)
          (⟨.acp (.sendCancel link connection sessionId), sent⟩ :: h) :=
        ⟨hp.inserted, hp.reply, hp.removed, hp.unreported⟩
      have hm := mayReport hp' (.inr rfl)
      refine ⟨⟨link, connection, req, cwd, rfl, rfl, hm⟩, fun sent => .inl ?_⟩
      exact congrArg (· + 1) hp.unreported

theorem flushSession_keeps {sessionId : SessionId} {reply : PromptReply} {a : Activity}
    (hp : Prompted sessionId (some reply) none h) :
    Keeps D p a (fun _ h' => Prompted sessionId (some reply) none h')
      (flushSession link sessionId) h := by
  refine keeps_step trivial fun queue => ?_
  cases queue with
  | none => exact obeys_ret ⟨hp.inserted, hp.reply, hp.removed, hp.unreported⟩
  | some q =>
    refine keeps_step trivial fun sent => ?_
    refine ⟨⟨_, rfl⟩, fun awaited => ?_⟩
    exact ⟨hp.inserted, hp.reply, hp.removed, hp.unreported⟩

theorem promptInSession_keeps {sessionId : SessionId} (started : ℤ)
    (ho : openedIn h = some sessionId) (hi : insertedIn h = none) (hm : removedIn h = none)
    (hr : reportedIn h = 0) :
    Keeps D p (.prompt link connection req cwd) (fun _ h' => PromptEnds h')
      (promptInSession link connection req started sessionId) h := by
  refine keeps_step ⟨connection, req, cwd, rfl, rfl, rfl, ho, hi⟩ fun queue => ?_
  refine keeps_step ⟨link, connection, req, cwd, rfl, rfl, rfl⟩ fun announced => ?_
  refine keeps_step trivial fun sent => ?_
  refine keeps_step trivial fun reply => ?_
  have hp₀ : Prompted sessionId (some reply) none
      (⟨.acp (.awaitPrompt connection sessionId), reply⟩ ::
        ⟨.acp (.sendPrompt req.workerId connection sessionId req.prompt), sent⟩ ::
          ⟨.acp (.broadcast (.sessionOpened req.taskId sessionId)), announced⟩ ::
            ⟨.acp (.insertSession link sessionId req.taskId req.workerId), queue⟩ :: h) :=
    ⟨rfl, rfl, hm, hr⟩
  apply obeys_bind (flushSession_keeps hp₀)
  intro flushed h₁ hp
  refine keeps_step ⟨connection, req, cwd, rfl, hp.inserted, hp.removed⟩ fun removed => ?_
  refine keeps_step trivial fun ended => ?_
  refine keeps_step trivial fun output => ?_
  exact reportPrompt_keeps _ _ ⟨hp.inserted, hp.reply, rfl, hp.unreported⟩

theorem followSession_keeps {reply : NewSessionReply} (started : ℤ)
    (ho : ∀ sessionId, reply = .opened sessionId → openedIn h = some sessionId)
    (hi : insertedIn h = none) (hm : removedIn h = none) (hr : reportedIn h = 0) :
    Keeps D p (.prompt link connection req cwd) (fun _ h' => PromptEnds h')
      (followSession link connection req started reply) h := by
  have failing (message : String) (observation : FailureObservation) :
      Keeps D p (.prompt link connection req cwd) (fun _ h' => PromptEnds h')
        (failed req message observation) h := by
    refine ⟨⟨link, connection, req, cwd, rfl, rfl, hr, .inl hi⟩, fun sent => .inl ?_⟩
    exact congrArg (· + 1) hr
  cases reply with
  | opened sessionId => exact promptInSession_keeps started (ho sessionId rfl) hi hm hr
  | refused message => exact failing _ _
  | timedOut => exact failing _ _

theorem promptTask_keeps (link connection : ℕ) (req : DispatchRequest) (cwd : String) :
    Keeps D p (.prompt link connection req cwd) (fun _ h' => PromptEnds h')
      (promptTask link connection req cwd) [] := by
  refine keeps_step trivial fun started => ?_
  refine keeps_step trivial fun newSession => ?_
  have ho : ∀ sessionId, newSession = .opened sessionId →
      openedIn [⟨.acp (.newSession req.workerId connection cwd), newSession⟩,
        ⟨.process .utcNow, started⟩] = some sessionId := by
    rintro sessionId rfl
    rfl
  have hnone : insertedIn [⟨.acp (.newSession req.workerId connection cwd), newSession⟩,
      ⟨.process .utcNow, started⟩] = none := rfl
  apply obeys_bind (followSession_keeps started ho hnone rfl rfl)
  intro followed h hp
  refine ⟨trivial, fun released => ?_⟩
  exact hp

end Prompting

section Disconnecting

variable {D : Deployment} {p : ℕ} {h : History}

theorem failAll_keeps (link : ℕ) (reason : String) :
    Proceeds D p (.connectionEnded link) (failAll link reason) h := by
  refine proceeds_step trivial fun drained => ?_
  cases drained with
  | nil => exact proceeds_ret _
  | cons d ds => exact ⟨⟨rfl, h, rfl⟩, fun failed => List.suffix_cons _ _⟩

theorem connectionEnded_keeps (link : ℕ) :
    Proceeds D p (.connectionEnded link) (connectionEnded link) h := by
  refine proceeds_step trivial fun dropped => ?_
  refine proceeds_step trivial fun disconnected => ?_
  apply proceeds_bind (failAll_keeps link _)
  intro failed h₁ _
  exact proceeds_quiet (uses_call rfl fun _ => uses_ret _)

end Disconnecting

end FleetOrchestrator.Scheduler
