import FleetOrchestrator.Agents.Commands
import FleetOrchestrator.Agents.StartStop

/-! Whether an agent that was stopped stays stopped. -/

namespace FleetOrchestrator.Agents

open Api Core Tables Store Interleaving

def Withdrawn (a : Agent) : Prop := a.status = .stopped ∧ a.desiredStatus = .stopped

/-- Every stopped agent is told to be stopped. -/
def Settled (s : StoreState) : Prop :=
  ∀ id a, s.agents.get id = some a → a.status = .stopped → a.desiredStatus = .stopped

/-- What was stopped before is stopped after. -/
structure Upholds (s s' : StoreState) : Prop where
  settled : Settled s → Settled s'
  revoked : ∀ id a, s.agents.get id = some a → Withdrawn a →
    ∃ a', s'.agents.get id = some a' ∧ Withdrawn a'

theorem Upholds.refl (s : StoreState) : Upholds s s :=
  ⟨fun h => h, fun _ a ha hr => ⟨a, ha, hr⟩⟩

theorem Upholds.trans {s t u : StoreState} (h : Upholds s t) (h' : Upholds t u) : Upholds s u := by
  constructor
  · intro hs
    exact h'.settled (h.settled hs)
  · intro id a ha hr
    obtain ⟨a', ha', hr'⟩ := h.revoked id a ha hr
    exact h'.revoked id a' ha' hr'

theorem upholds_of_agents {s s' : StoreState} (h : s'.agents = s.agents) : Upholds s s' := by
  constructor
  · intro hs id a ha
    rw [h] at ha
    exact hs id a ha
  · intro id a ha hr
    rw [← h] at ha
    exact ⟨a, ha, hr⟩

/-- A change of each row by itself that takes none back. -/
theorem upholds_of_rows {s s' : StoreState} {f : Agent → Agent}
    (h : ∀ id, s'.agents.get id = (s.agents.get id).map f)
    (hf : ∀ id a, s.agents.get id = some a → (a.status = .stopped → a.desiredStatus = .stopped) →
      ((f a).status = .stopped → (f a).desiredStatus = .stopped) ∧
        (a.status = .stopped → (f a).status = .stopped)) : Upholds s s' := by
  constructor
  · intro hs id a' ha'
    rw [h, Option.map_eq_some_iff] at ha'
    obtain ⟨a, ha, rfl⟩ := ha'
    exact (hf id a ha (hs id a ha)).1
  · rintro id a ha ⟨hst, hd⟩
    obtain ⟨hsettled, hstays⟩ := hf id a ha fun _ => hd
    refine ⟨f a, ?_, hstays hst, hsettled (hstays hst)⟩
    rw [h, ha, Option.map_some]

section Statements

variable {rank : AgentId → ℕ} {s : StoreState} {op : Statement}

/-- It writes neither the status nor the desired status. -/
def Statement.besides : Statement → Bool
  | .createLocked _ _ | .insertAgent _ _ | .statusLocked _ _ | .updateStatus _ _
  | .desireLocked _ _ _ | .updateDesired _ _ _ => false
  | _ => true

def commandOf (a : Agent) : AgentStatus × AgentDesiredStatus := (a.status, a.desiredStatus)

theorem mem_placed_command (now : ℤ) (w : WorkerId) (fence : Option ControlFence) (a : Agent) :
    commandOf (MemStore.placed now w fence a) = commandOf a := by
  unfold MemStore.placed
  split
  · rfl
  · rfl

theorem pg_placed_command (now : ℤ) (w : WorkerId) (fence : Option ControlFence) (a : Agent) :
    commandOf (PgStore.placed now w fence a) = commandOf a := by
  unfold PgStore.placed PgStore.clearPlacementAndObservation
  dsimp only
  split <;> split <;> rfl

theorem besides_command (h : op.besides = true) (a : Agent) :
    commandOf (op.onRow s a) = commandOf a := by
  cases op with
  | createLocked agent cap => cases h
  | insertAgent agent claimed => cases h
  | statusLocked id status => cases h
  | updateStatus id status => cases h
  | desireLocked id desired fence => cases h
  | updateDesired id desired fence => cases h
  | ackLocked w acks => exact ackRows_keeps commandOf (fun _ _ => rfl) acks a
  | updateAcked w ack => exact ackRow_keeps commandOf (fun _ _ => rfl) a ack
  | observeLocked w os =>
    exact observeLocked_keeps commandOf (fun _ => rfl) (fun _ _ _ => rfl) s os a
  | clearUnspoken w spoken => exact silence_keeps commandOf (fun _ => rfl) spoken a
  | updateObserved now w o => exact observeRow_keeps commandOf (fun _ _ _ => rfl) now a o
  | assignLocked id w cap fence =>
    simp only [Statement.onRow]
    split
    · exact mem_placed_command s.now w fence a
    · rfl
  | updatePlacement id w fence =>
    simp only [Statement.onRow]
    split
    · exact pg_placed_command s.now w fence a
    · rfl
  | _ => rfl

theorem besides_creates (h : op.besides = true) : op.creates = none := by
  cases op <;> first | rfl | cases h

theorem besides_upholds (h : op.besides = true) : Upholds s (op.effect rank s).2 := by
  apply upholds_of_rows (get_effect (besides_creates h))
  intro id a _ hsettled
  obtain ⟨hst, hd⟩ := Prod.mk.inj (besides_command (s := s) h a)
  rw [hst, hd]
  exact ⟨hsettled, fun hs => hs⟩

theorem besides_of_reads (h : op.reads = true) : op.besides = true := by
  cases op <;> first | rfl | cases h

theorem reads_effect (h : op.reads = true) : (op.effect rank s).2 = s := by
  cases op <;> first | rfl | cases h

theorem serves_besides {request : Request} (ho : request.isOther = true)
    (hc : ∀ agent, request ≠ .createAgent agent) (h : Serves request op) : op.besides = true := by
  cases h with
  | reads hr hp => exact besides_of_reads hr
  | createLocked agent cap => exact absurd rfl (hc agent)
  | insertAgent agent claimed => exact absurd rfl (hc agent)
  | desireLocked id desired fence => cases ho
  | updateDesired id desired fence => cases ho
  | statusLocked id status => cases ho
  | updateStatus id status => cases ho
  | _ => rfl

/-- A new agent is ready, and its id names no other. -/
theorem creates_upholds {agent : Agent} (h : op.creates = some agent) (hn : isNew agent = true)
    (hfree : s.agents.get agent.id = none) : Upholds s (op.effect rank s).2 := by
  rcases @created _ _ rank _ h with he | ⟨row, he, hid, -, hnew⟩
  · exact upholds_of_agents he
  · have hready : row.status = .ready := by
      have hr := hnew hn
      simp only [isNew, Bool.and_eq_true, decide_eq_true_eq] at hr
      exact hr.1.1.1.1.1.1.1.1.1
    constructor
    · intro hs id a ha
      rw [he] at ha
      by_cases hk : id = row.id
      · subst hk
        rw [Keyed.get_put_self] at ha
        cases ha
        intro hst
        rw [hready] at hst
        cases hst
      · rw [Keyed.get_put_ne hk] at ha
        exact hs id a ha
    · intro id a ha hr
      have hk : id ≠ row.id := by
        rintro rfl
        rw [hid, hfree] at ha
        cases ha
      refine ⟨a, ?_, hr⟩
      rw [he, Keyed.get_put_ne hk]
      exact ha

end Statements

section Calls

variable {b : Backend} {ch : Surroundings} {s : StoreState} {id : AgentId}

/-- What a change of the desired status makes of its agent, and that the fence stood. -/
theorem desired_effect (b : Backend) (ch : Surroundings) (s : StoreState) (id : AgentId)
    (desired : AgentDesiredStatus) (fence : Option ControlFence) :
    (s.controlFenceHolds fence = false ∧
        (wholeCall ch (setAgentDesiredStatus b id desired fence) s).2 = s) ∨
      (s.controlFenceHolds fence = true ∧ ∃ f : Agent → Agent,
        (∀ a, commandOf (f a) = (a.status, desired)) ∧
          ∀ k, (wholeCall ch (setAgentDesiredStatus b id desired fence) s).2.agents.get k =
            (s.agents.get k).map fun a => if a.id = id then f a else a) := by
  cases hf : s.controlFenceHolds fence with
  | false =>
    refine .inl ⟨rfl, ?_⟩
    cases b with
    | mem =>
      simp [wholeCall, setAgentDesiredStatus, MemStore.setAgentDesiredStatus, execute, Prog.alone,
        Statement.effect, hf]
    | pg =>
      simp [wholeCall, setAgentDesiredStatus, PgStore.setAgentDesiredStatus, execute, Prog.alone,
        Statement.effect, hf]
  | true =>
    refine .inr ⟨rfl, ?_⟩
    cases b with
    | mem =>
      refine ⟨MemStore.desire s.now desired fence, ?_, ?_⟩
      · intro a
        unfold MemStore.desire
        split
        · rfl
        · next hd => rw [← not_not.mp hd]; rfl
      · have he : (wholeCall ch (setAgentDesiredStatus .mem id desired fence) s).2 =
            ((Statement.desireLocked id desired fence).effect ch.rank s).2 := by
          simp [wholeCall, setAgentDesiredStatus, MemStore.setAgentDesiredStatus, execute,
            Prog.alone, Prog.perform, Statement.effect, hf]
        intro k
        rw [he]
        exact get_effect rfl k
    | pg =>
      refine ⟨PgStore.desire s.now desired fence, fun a => rfl, ?_⟩
      have he : (wholeCall ch (setAgentDesiredStatus .pg id desired fence) s).2 =
          ((Statement.updateDesired id desired fence).effect ch.rank s).2 := by
        simp only [wholeCall, setAgentDesiredStatus, PgStore.setAgentDesiredStatus, execute,
          Prog.perform_bind, Prog.alone, Statement.effect, hf, Bool.not_true, Bool.false_eq_true,
          if_false]
        split
        · rfl
        · simp only [Prog.alone]
          split
          · rfl
          · rfl
      have hexists : PgStore.fenceExists s fence = true := by
        cases fence with
        | none => rfl
        | some f =>
          change s.leaseExists f = true
          rw [leaseExists_eq, hf]
      intro k
      rw [he, get_effect rfl k]
      congr 1
      funext a
      simp [Statement.onRow, PgStore.issuable, hexists]

theorem stop_effect (b : Backend) (ch : Surroundings) (s : StoreState) (id : AgentId) :
    ∃ f : Agent → Agent, (∀ a, Withdrawn (f a)) ∧
      ∀ k, (wholeCall ch (updateAgentStatus b id .stopped) s).2.agents.get k =
        (s.agents.get k).map fun a => if a.id = id then f a else a := by
  cases b with
  | mem =>
    refine ⟨MemStore.withStatus s.now .stopped, ?_, ?_⟩
    · intro a
      unfold MemStore.withStatus
      split
      · exact ⟨rfl, rfl⟩
      · next hd =>
        refine ⟨rfl, ?_⟩
        simpa using hd
    · exact @get_effect s ch.rank (.statusLocked id .stopped) rfl
  | pg =>
    refine ⟨PgStore.withStatus s.now .stopped, fun a => ⟨rfl, rfl⟩, ?_⟩
    exact @get_effect s ch.rank (.updateStatus id .stopped) rfl

theorem reads_alone {α : Type} {p : Call α} (h : Uses (fun op => Statement.reads op = true) p) :
    (wholeCall ch p s).2 = s := by
  apply alone_along (R := fun s t => t = s) (fun _ => rfl) (fun _ _ _ h h' => h'.trans h) _ h
  intro op s hr
  exact reads_effect hr

theorem create_upholds {agent : Agent} (hn : isNew agent = true)
    (hfree : s.agents.get agent.id = none) :
    Upholds s (wholeCall ch (serve b (.createAgent agent)) s).2 := by
  cases b with
  | mem =>
    simp only [wholeCall, serve, Prog.alone_map]
    unfold MemStore.createAgent
    cases agent.workerId with
    | none => exact @creates_upholds ch.rank s (.createLocked agent none) agent rfl hn hfree
    | some w =>
      exact @creates_upholds ch.rank s (.createLocked agent (workerCap s w)) agent rfl hn hfree
  | pg =>
    have hpin : ((PgStore.checkPin agent.templatePin).alone
        (fun op s => Statement.effect ch.rank op s) s).2 = s :=
      reads_alone (uses_mono (checkPin_looks _) fun _ => reads_of_looks)
    have hslot : ((PgStore.claimSlot agent.workerId).alone
        (fun op s => Statement.effect ch.rank op s) s).2 = s := reads_alone (claimSlot_uses _)
    simp only [wholeCall, serve, Prog.alone_map]
    unfold PgStore.createAgent
    rw [Prog.alone_bind, hpin]
    generalize ((PgStore.checkPin agent.templatePin).alone
      (fun op s => Statement.effect ch.rank op s) s).1 = pinned
    cases pinned with
    | error e => exact Upholds.refl s
    | ok u =>
      dsimp only
      rw [Prog.alone_bind, hslot]
      generalize ((PgStore.claimSlot agent.workerId).alone
        (fun op s => Statement.effect ch.rank op s) s).1 = claimed
      have hup := @creates_upholds ch.rank s (.insertAgent agent claimed) agent rfl hn hfree
      simp only [execute, Prog.perform_bind, Prog.alone]
      split
      · exact hup
      · exact hup

theorem other_upholds {request : Request} (ho : request.isOther = true)
    (hn : freshlyMade s request = true) : Upholds s (wholeCall ch (serve b request) s).2 := by
  by_cases hc : ∃ agent, request = .createAgent agent
  · obtain ⟨agent, rfl⟩ := hc
    simp only [freshlyMade, Bool.and_eq_true, Option.isNone_iff_eq_none] at hn
    exact create_upholds hn.1 hn.2
  · have hc : ∀ agent, request ≠ .createAgent agent := fun agent he => hc ⟨agent, he⟩
    have huses := uses_mono (serve_uses (b := b) hc) fun op => serves_besides ho hc
    apply alone_along (R := Upholds) Upholds.refl (fun _ _ _ h h' => h.trans h') _ huses
    intro op s hb
    exact besides_upholds hb

end Calls

/-- A start writes its word for an agent that was not stopped since the start looked, or its fence
is gone. -/
def spares (c : HandlersConfig) : HandlersAction → Bool
  | .run i _ =>
    match c.next i with
    | some (.setAgentDesiredStatus id .running fence) =>
      !c.state.controlFenceHolds fence || (c.state.agents.get id).all fun a => a.status ≠ .stopped
    | _ => true
  | _ => true

/-- The only status that a handler writes. -/
def Retires : StoreCall → Prop
  | .updateAgentStatus _ status => status = .stopped
  | _ => True

section Runs

variable {b : Backend} {c₀ c c' : HandlersConfig} {x : HandlersAction}
  {cond : HandlersConfig → HandlersAction → Prop}

theorem reread_retires (id : AgentId) (gone : HandlerError) : Uses Retires (reread id gone) := by
  refine uses_call trivial fun found => ?_
  cases found with
  | none => exact uses_ret _
  | some agent => exact uses_ret _

theorem startAgent_retires (v : Surface) (id : AgentId) : Uses Retires (startAgent v id) := by
  refine uses_call trivial fun found => ?_
  cases found with
  | none => exact uses_ret _
  | some agent =>
    change Uses _ (if agent.status = .stopped then _ else _)
    split
    · exact uses_ret _
    · change Uses _ (if agent.desiredStatus ≠ .running then _ else _)
      split
      · refine uses_call trivial fun fence => uses_call trivial fun issue => ?_
        cases issue with
        | issued => exact reread_retires id v.goneInStart
        | noSuchAgent => exact uses_ret _
        | fenced => exact uses_ret _
      · exact uses_ret _

theorem stopAgent_retires (v : Surface) (id : AgentId) : Uses Retires (stopAgent v id) := by
  refine uses_call trivial fun found => ?_
  cases found with
  | none => exact uses_ret _
  | some agent =>
    change Uses _ (if agent.status ≠ .stopped then _ else _)
    split
    · exact uses_call rfl fun _ => reread_retires id v.goneInStop
    · exact uses_ret _

theorem handlers_disciplined :
    (handlers b).Disciplined (fun _ _ _ op => Retires op) fun _ _ _ _ => True := by
  intro p call
  have huses : Uses Retires (handle call) := by
    cases call with
    | handleStartAgent id => exact uses_map (startAgent_retires mcp id)
    | handleStopAgent id => exact uses_map (stopAgent_retires mcp id)
    | startAgentApi id => exact uses_map (startAgent_retires dashboard id)
    | stopAgentApi id => exact uses_map (stopAgent_retires dashboard id)
    | listAgentCommands w => exact uses_map (uses_perform trivial)
    | other request => exact uses_map (uses_perform trivial)
  exact obeys_conseq (obeys_of_uses huses fun _ _ h => h) fun _ _ _ => trivial

/-- Nobody is at work yet, and every stopped agent is told so. -/
structure AtRest (c : HandlersConfig) : Prop where
  fresh : Machine.Fresh c
  settled : Settled c.state

/-- A desired status may be written unless it takes a stopped agent back. -/
theorem desired_upholds {ch : Surroundings} {s : StoreState} {id : AgentId}
    {desired : AgentDesiredStatus} {fence : Option ControlFence}
    (h : desired = .running → s.controlFenceHolds fence = true →
      ∀ a, s.agents.get id = some a → a.status ≠ .stopped) :
    Upholds s (wholeCall ch (setAgentDesiredStatus b id desired fence) s).2 := by
  obtain ⟨-, he⟩ | ⟨hf, f, hcommand, hget⟩ :=
    desired_effect b ch s id desired fence
  · rw [he]
    exact Upholds.refl s
  · apply upholds_of_rows hget
    intro k a ha hsettled
    by_cases hk : a.id = id
    · rw [if_pos hk]
      obtain ⟨hst, hd⟩ := Prod.mk.inj (hcommand a)
      rw [hst, hd]
      refine ⟨fun hstopped => ?_, fun hstopped => hstopped⟩
      cases desired with
      | stopped => rfl
      | running =>
        have hkey : k = id := (Keyed.get_key ha).symm.trans hk
        rw [hkey] at ha
        exact absurd hstopped (h rfl hf a ha)
    · rw [if_neg hk]
      exact ⟨hsettled, fun hstopped => hstopped⟩

theorem stop_upholds {ch : Surroundings} {s : StoreState} {id : AgentId} :
    Upholds s (wholeCall ch (updateAgentStatus b id .stopped) s).2 := by
  obtain ⟨f, hf, hget⟩ := stop_effect b ch s id
  apply upholds_of_rows hget
  intro k a ha hsettled
  by_cases hk : a.id = id
  · rw [if_pos hk]
    exact ⟨fun _ => (hf a).2, fun _ => (hf a).1⟩
  · rw [if_neg hk]
    exact ⟨hsettled, fun hstopped => hstopped⟩

theorem upholds_step (h₀ : AtRest c₀) (h : (handlers b).Reaches cond c₀ c)
    (hs : (handlers b).step c x = some c') (hx : spares c x = true) :
    Upholds c.state c'.state := by
  cases x with
  | start p call =>
    obtain ⟨ha, -, -⟩ := Machine.step_start hs
    rw [← Option.some.inj ha]
    exact Upholds.refl _
  | env s =>
    obtain ⟨hd, -, -⟩ := Machine.step_env hs
    simp only [handlers, Option.ite_none_right_eq_some, Option.some.injEq] at hd
    apply upholds_of_agents
    rw [← hd.2]
    exact Keyed.ext hd.1
  | run i ch =>
    obtain ⟨op, ⟨r⟩⟩ := Machine.step_run hs
    have hretires := r.licensed handlers_disciplined h₀.fresh h
    have hdone : op.exec b ch c.state = some (r.resp, c'.state) := r.done
    simp only [spares, r.next] at hx
    cases op with
    | getAgent id =>
      obtain ⟨-, he⟩ := Prod.mk.inj (Option.some.inj hdone)
      rw [← he]
      exact Upholds.refl _
    | controlFence =>
      obtain ⟨-, he⟩ := Prod.mk.inj (Option.some.inj hdone)
      rw [← he]
      exact Upholds.refl _
    | listAgentCommands w =>
      obtain ⟨-, he⟩ := Prod.mk.inj (Option.some.inj hdone)
      rw [← he]
      exact Upholds.refl _
    | setAgentDesiredStatus id desired fence =>
      rw [← (Prod.mk.inj (Option.some.inj hdone)).2]
      apply desired_upholds
      rintro rfl hf a ha
      simpa [hf, ha] using hx
    | updateAgentStatus id status =>
      obtain rfl : status = .stopped := hretires
      rw [← (Prod.mk.inj (Option.some.inj hdone)).2]
      exact stop_upholds
    | other request =>
      simp only [StoreCall.exec, Option.ite_none_right_eq_some, Bool.and_eq_true] at hdone
      obtain ⟨⟨ho, hn⟩, he⟩ := hdone
      rw [← (Prod.mk.inj (Option.some.inj he)).2]
      exact other_upholds ho hn

theorem settled_run (h₀ : AtRest c₀)
    (h : (handlers b).Reaches (fun c x => spares c x = true) c₀ c) : Settled c.state := by
  apply h.invariant (P := fun c => Settled c.state) h₀.settled
  intro c x c' hr hx hs hsettled
  exact (upholds_step h₀ hr hs hx).settled hsettled

/-- The write that spares nobody is the one that takes an agent back. -/
theorem spares_of_withdrawn (hs : (handlers b).step c x = some c')
    (h : ∀ id a, c.state.agents.get id = some a → a.status = .stopped →
      ∃ a', c'.state.agents.get id = some a' ∧ Withdrawn a') : spares c x = true := by
  cases x with
  | start p call => rfl
  | env s => rfl
  | run i ch =>
    obtain ⟨op, ⟨r⟩⟩ := Machine.step_run hs
    have hdone : op.exec b ch c.state = some (r.resp, c'.state) := r.done
    simp only [spares, r.next]
    split
    next id fence heq =>
      obtain rfl := Option.some.inj heq
      have hstate : (wholeCall ch (setAgentDesiredStatus b id .running fence) c.state).2 =
          c'.state := (Prod.mk.inj (Option.some.inj hdone)).2
      obtain ⟨hf, -⟩ | ⟨hf, f, hcommand, hget⟩ :=
        desired_effect b ch c.state id .running fence
      · simp [hf]
      · simp only [hf, Bool.not_true, Bool.false_or, Option.all_eq_true_iff_get,
          decide_eq_true_eq]
        intro hsome hstopped
        have ha := Option.some_get hsome
        obtain ⟨a', ha', -, hd⟩ := h id _ ha.symm hstopped
        rw [← hstate, hget, ← ha, Option.map_some] at ha'
        obtain rfl := Option.some.inj ha'
        rw [if_pos (Keyed.get_key ha.symm)] at hd
        rw [(Prod.mk.inj (hcommand _)).2] at hd
        cases hd
    next => rfl

theorem listed_desired {s : StoreState} {rank : AgentId → ℕ} {w : WorkerId} {a : Agent}
    {command : AgentCommand} (h : command ∈ listAgentCommands s rank w)
    (ha : s.agents.get command.agentId = some a) : command.desiredStatus = a.desiredStatus := by
  obtain ⟨r, hr, rfl⟩ := List.mem_map.mp h
  rw [mem_oldestFirst, List.mem_filter, mem_inOrder] at hr
  rw [Keyed.get_of_mem hr.1] at ha
  cases ha
  rfl

/-- As long as every start spares the agents that were stopped meanwhile, a stopped agent is told
to be stopped for ever, and no command listed to a worker starts it. -/
theorem stop_is_final (h₀ : AtRest c₀)
    (h : (handlers b).Reaches (fun c x => spares c x = true) c₀ c) :
    (∀ id a, c.state.agents.get id = some a → a.status = .stopped →
      ∀ c', (handlers b).Reaches (fun c x => spares c x = true) c c' →
        ∃ a', c'.state.agents.get id = some a' ∧ a'.status = .stopped ∧
          a'.desiredStatus = .stopped) ∧
    (∀ c' i ch w, ∀ r : (handlers b).Ran c c' i ch (.listAgentCommands w),
      ∀ command : AgentCommand, command ∈ (show List AgentCommand from r.resp) →
        command.desiredStatus = .running →
          ∀ a, c.state.agents.get command.agentId = some a → a.status ≠ .stopped) ∧
    ∀ x c', (handlers b).step c x = some c' →
      (spares c x = true ↔ ∀ id a, c.state.agents.get id = some a → a.status = .stopped →
        ∃ a', c'.state.agents.get id = some a' ∧ a'.status = .stopped ∧
          a'.desiredStatus = .stopped) := by
  have hsettled := settled_run h₀ h
  refine ⟨?_, ?_, ?_⟩
  · intro id a ha hstopped c' h'
    apply h'.invariant (P := fun c' => ∃ a', c'.state.agents.get id = some a' ∧ Withdrawn a')
    · exact ⟨a, ha, hstopped, hsettled id a ha hstopped⟩
    · rintro c₁ x c₂ hr hx hs ⟨a₁, ha₁, hw⟩
      exact (upholds_step h₀ (h.trans hr) hs hx).revoked id a₁ ha₁ hw
  · intro c' i ch w r command hm hrunning a ha hstopped
    have hdone : StoreCall.exec b ch (.listAgentCommands w) c.state = some (r.resp, c'.state) :=
      r.done
    rw [← (Prod.mk.inj (Option.some.inj hdone)).1] at hm
    rw [listed_desired hm ha, hsettled _ a ha hstopped] at hrunning
    cases hrunning
  · intro x c' hs
    constructor
    · intro hx id a ha hstopped
      exact (upholds_step h₀ h hs hx).revoked id a ha ⟨hstopped, hsettled id a ha hstopped⟩
    · exact spares_of_withdrawn hs

end Runs

def atRest : HandlersConfig := ⟨idleStore none, [], []⟩

theorem atRest_atRest : AtRest atRest :=
  ⟨⟨rfl, rfl⟩, by intro id a ha; cases ha⟩

/-- The thread `i` does `n` operations. -/
def runs (i n : ℕ) : List HandlersAction := List.replicate n (.run i ⟨AgentId.uuid, none⟩)

/-- One agent is created; it is stopped after another handler has looked at it and before that
handler starts it. Then its worker asks for its commands. -/
def startedOnceStopped : List HandlersAction :=
  [.start () (.other (.createAgent (agentFor 1 1)))] ++ runs 0 1 ++
    [.start () (.handleStartAgent ⟨1⟩)] ++ runs 1 1 ++
      [.start () (.stopAgentApi ⟨1⟩)] ++ runs 2 3 ++ runs 1 3 ++
        [.start () (.listAgentCommands ⟨1⟩)]

/-- The same two handlers one after the other. -/
def startedThenStopped : List HandlersAction :=
  [.start () (.other (.createAgent (agentFor 1 1)))] ++ runs 0 1 ++
    [.start () (.handleStartAgent ⟨1⟩)] ++ runs 1 4 ++ [.start () (.stopAgentApi ⟨1⟩)] ++ runs 2 3 ++
      [.start () (.listAgentCommands ⟨1⟩)]

/-- The same agent, with both commands issued. -/
def agentStopped : Agent :=
  { agentFor 1 1 with
    status := .stopped, commandGeneration := 2, commandIssuedAt := some 0 }

/-- Some worker is listed a start command for an agent that is stopped. -/
def Revives (b : Backend) : Prop :=
  ∃ c c' i ch w, ∃ r : (handlers b).Ran c c' i ch (.listAgentCommands w),
    ∃ command : AgentCommand, ∃ a,
      (handlers b).Reaches Machine.always atRest c ∧ command ∈ (show List AgentCommand from r.resp) ∧
        command.desiredStatus = .running ∧ c.state.agents.get command.agentId = some a ∧
          a.status = .stopped

theorem stopped_agent_stays :
    ∃ a, ((handlers .pg).after atRest startedThenStopped).state.agents.get ⟨1⟩ = some a ∧
      a.status = .stopped ∧ a.desiredStatus = .stopped := by
  have h : (handlers .pg).replayWhile spares atRest startedThenStopped =
      some ((handlers .pg).after atRest startedThenStopped) := rfl
  have hr := Machine.replayWhile_reaches h
  exact (stop_is_final atRest_atRest hr).1 ⟨1⟩ agentStopped rfl rfl _ .refl

theorem start_revives_stopped_agent : Revives .mem ∧ Revives .pg := by
  have listed (b : Backend) (c' : HandlersConfig) (a : Agent)
      (hs : (handlers b).step ((handlers b).after atRest startedOnceStopped)
        (.run 3 ⟨AgentId.uuid, none⟩) = some c')
      (hn : ((handlers b).after atRest startedOnceStopped).next 3 =
        some (.listAgentCommands ⟨1⟩))
      (hl : (⟨⟨1⟩, .running, 1⟩ : AgentCommand) ∈
        listAgentCommands ((handlers b).after atRest startedOnceStopped).state AgentId.uuid ⟨1⟩)
      (ha : ((handlers b).after atRest startedOnceStopped).state.agents.get ⟨1⟩ = some a)
      (hst : a.status = .stopped) : Revives b := by
    obtain ⟨op, ⟨r⟩⟩ := Machine.step_run hs
    obtain rfl := Option.some.inj (r.next.symm.trans hn)
    refine ⟨_, c', 3, ⟨AgentId.uuid, none⟩, ⟨1⟩, r, ⟨⟨1⟩, .running, 1⟩, a,
      Machine.after_reaches startedOnceStopped, ?_, rfl, ha, hst⟩
    have hdone : StoreCall.exec b ⟨AgentId.uuid, none⟩ (.listAgentCommands ⟨1⟩) _ =
        some (r.resp, c'.state) := r.done
    rw [← (Prod.mk.inj (Option.some.inj hdone)).1]
    exact hl
  constructor
  · exact listed .mem _ _ rfl rfl (by decide) rfl rfl
  · exact listed .pg _ _ rfl rfl (by decide) rfl rfl

end FleetOrchestrator.Agents
