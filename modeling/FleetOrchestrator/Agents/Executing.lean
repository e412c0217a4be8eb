import FleetOrchestrator.Agents.Placement
import FleetOrchestrator.Worker.Converging
import FleetOrchestrator.Worker.Supervision
import Mathlib.Logic.Function.Basic
import Mathlib.Logic.Relation

/-! The workers at their agents, beside the store whose commands they follow. -/

namespace FleetOrchestrator.Agents

open Core Tables Store Interleaving
open Worker (AgentProcessManager LoopConfig AgentOrphan Nanos PortRange Supervisor Turn RegistrationClient)

abbrev AgentLog := List (Interleaving.Call Statement Statement.Resp ℕ)

/-- A worker between two turns of its loop: how long the log was when the heartbeat that is out was
sent, the log up to the list that the worker has followed last, and the end of its last beat. -/
structure Executor where
  manager : AgentProcessManager
  sup : Supervisor manager
  asked : Option ℕ
  follows : Option AgentLog
  beat : Nanos

def Executor.enter (manager : AgentProcessManager) (config : LoopConfig) (workerId : String)
    (now sweep : Nanos) (orphans : List AgentOrphan) : Executor where
  manager
  sup := .enter config workerId now .empty orphans sweep
  asked := none
  follows := none
  beat := now

def Executor.turned (e : Executor) (x : Turn) : Executor :=
  { e with sup := (e.sup.turn x).1, asked := none, beat := e.sup.heardAt x }

structure AgentFleet where
  orchestrator : AgentConfig
  worker : WorkerId → Executor

def AgentFleet.set (f : AgentFleet) (w : WorkerId) (e : Executor) : AgentFleet :=
  { f with worker := Function.update f.worker w e }

/-- The worker and the list, where a part of the log ends with one. -/
def listing : AgentLog → Option (WorkerId × List AgentCommand)
  | ⟨_, _, .listCommands w, commands⟩ :: _ => some (w, commands)
  | _ => none

theorem listing_cases {w : WorkerId} {commands : List AgentCommand} {read : AgentLog}
    (h : listing read = some (w, commands)) :
    ∃ k l, read = k :: l ∧ k.entry = ⟨.listCommands w, commands⟩ := by
  unfold listing at h
  split at h
  · cases h
    exact ⟨_, _, rfl, rfl⟩
  · cases h

/-- A step of the store or of a worker. Where a heartbeat's reply has a list, the store made it for
this worker after the heartbeat was sent. -/
inductive Moves (b : Backend) (f : AgentFleet) : AgentFleet → Prop
  | store (x : AgentAction) {c : AgentConfig} (h : (fleetAgents b).step f.orchestrator x = some c) :
    Moves b f { f with orchestrator := c }
  | send (w : WorkerId) :
    Moves b f (f.set w { f.worker w with asked := some f.orchestrator.log.length })
  | obey (w : WorkerId) (x : Turn) {since : ℕ} {commands : List AgentCommand} {read : AgentLog}
    {body : Worker.HeartbeatResponse} (hsent : (f.worker w).asked = some since)
    (hreply : RegistrationClient.heartbeatResult x.reply = .ok body)
    (hlist : body.agents = some commands) (hread : read <:+ f.orchestrator.log)
    (hsince : since < read.length) (hcall : listing read = some (w, commands)) :
    Moves b f (f.set w { (f.worker w).turned x with follows := some read })
  | endure (w : WorkerId) (x : Turn) {since : ℕ} (hsent : (f.worker w).asked = some since)
    (hreply : ∀ body, RegistrationClient.heartbeatResult x.reply = .ok body → body.agents = none) :
    Moves b f (f.set w ((f.worker w).turned x))
  | restart (w : WorkerId) (manager : AgentProcessManager) (config : LoopConfig) (workerId : String)
    (now sweep : Nanos) (orphans : List AgentOrphan) :
    Moves b f (f.set w (.enter manager config workerId now sweep orphans))

/-- The store is at its start, and the workers have entered their loops. -/
structure AgentFleet.Start (f : AgentFleet) : Prop where
  orchestrator : Agents.Start f.orchestrator
  workers : ∀ w, ∃ manager config workerId now sweep orphans,
    f.worker w = .enter manager config workerId now sweep orphans

section Turns

variable {m : AgentProcessManager} {s : Supervisor m} {x : Turn} {id : AgentId}

theorem desired_of_reconciled {machine : Worker.Machine} {t : Worker.Processes m.portRange}
    {commands : List AgentCommand}
    (h : id ∈ (m.reconcile machine t (some commands)).2.1.agents) :
    id ∈ AgentProcessManager.desired .running commands := by
  have hall := AgentProcessManager.started_all machine
    ((t.filter fun id => machine.polls id = .running).filter
      (AgentProcessManager.desired .running commands).contains)
    (AgentProcessManager.desired .running commands)
  rcases hall.only id h with h | h
  · simpa using (Worker.Processes.mem_filter.mp h).2
  · exact h

theorem turn_obeyed (h : s.loop.Ready) {body : Worker.HeartbeatResponse}
    (hreply : RegistrationClient.heartbeatResult x.reply = .ok body) :
    (s.turn x).1.procs = (m.reconcile x.machine s.procs body.agents).2.1 := by
  obtain ⟨hpoint, -⟩ := Worker.HeartbeatLoop.heard_ok x.agentHealthy h hreply
  unfold Supervisor.turn
  dsimp only
  rw [hpoint]

/-- How long contact has been lost for, once a turn leaves a process. -/
theorem turn_contact (h : s.loop.Ready) (x : Turn) : (s.turn x).1.loop.Ready ∧
    ((s.turn x).1.procs.agents ≠ [] →
      s.heardAt x - (s.turn x).1.loop.lastContact < (s.turn x).1.loop.config.fenceAfter) := by
  cases hx : x.fails with
  | false =>
    obtain ⟨hready, -, hcontact, -⟩ := Supervisor.turn_answered h hx
    refine ⟨hready, fun _ => ?_⟩
    rw [hcontact, Nat.sub_self]
    have hsecond : 0 < Nanos.fromSecs 1 := by decide
    exact (hsecond.trans_le (Nat.le_add_left _ _)).trans_le (Nat.le_max_right _ _)
  | true =>
    obtain ⟨hready, hconfig, hcontact, -, hlate, hearly⟩ := Supervisor.turn_failed h hx
    refine ⟨hready, fun hne => ?_⟩
    rw [hconfig, hcontact]
    by_contra hc
    apply hne
    rw [(hlate (Nat.not_lt.mp hc)).1]
    rfl

theorem turn_endured (h : s.loop.Ready)
    (hreply : ∀ body, RegistrationClient.heartbeatResult x.reply = .ok body → body.agents = none)
    (hid : id ∈ (s.turn x).1.procs.agents) : id ∈ s.procs.agents := by
  cases hr : RegistrationClient.heartbeatResult x.reply with
  | ok body =>
    rw [turn_obeyed h hr, hreply body hr] at hid
    exact hid
  | error e =>
    have hx : x.fails = true := by rw [Turn.fails, hr]
    obtain ⟨-, -, -, -, hlate, hearly⟩ := Supervisor.turn_failed h hx
    by_cases hc : s.loop.config.fenceAfter ≤ s.heardAt x - s.loop.lastContact
    · rw [(hlate hc).1] at hid
      cases hid
    · rwa [(hearly (Nat.not_le.mp hc)).1] at hid

end Turns

/-- A worker runs only what the list that it follows has it run, and fences itself in time. -/
structure Follows (log : AgentLog) (w : WorkerId) (e : Executor) : Prop where
  ready : e.sup.loop.Ready
  listed : ∀ id ∈ e.sup.procs.agents, ∃ commands read, e.follows = some read ∧ read <:+ log ∧
    listing read = some (w, commands) ∧ id ∈ AgentProcessManager.desired .running commands
  contact : e.sup.procs.agents ≠ [] →
    e.beat - e.sup.loop.lastContact < e.sup.loop.config.fenceAfter

section Following

variable {b : Backend} {f f' f₀ : AgentFleet} {log log' : AgentLog} {w v : WorkerId} {e : Executor}

theorem Follows.later (h : Follows log w e) (hlog : log <:+ log') : Follows log' w e := by
  refine ⟨h.ready, fun id hid => ?_, h.contact⟩
  obtain ⟨commands, read, hf, hread, hrest⟩ := h.listed id hid
  exact ⟨commands, read, hf, hread.trans hlog, hrest⟩

theorem follows_enter {manager : AgentProcessManager} {config : LoopConfig} {workerId : String}
    {now sweep : Nanos} {orphans : List AgentOrphan} :
    Follows log w (.enter manager config workerId now sweep orphans) := by
  refine ⟨Supervisor.enter_ready.1, fun id hid => ?_, fun hne => absurd rfl hne⟩
  cases hid

theorem follows_set (h : ∀ v, Follows f.orchestrator.log v (f.worker v))
    (he : Follows f.orchestrator.log w e) (v : WorkerId) :
    Follows (f.set w e).orchestrator.log v ((f.set w e).worker v) := by
  by_cases hv : v = w
  · subst hv
    simpa [AgentFleet.set] using he
  · simpa [AgentFleet.set, hv] using h v

theorem follows_moves (h : ∀ v, Follows f.orchestrator.log v (f.worker v)) (hm : Moves b f f') :
    ∀ v, Follows f'.orchestrator.log v (f'.worker v) := by
  cases hm with
  | store x hs =>
    intro v
    exact (h v).later (Machine.step_log hs)
  | send w => exact follows_set h ⟨(h w).ready, (h w).listed, (h w).contact⟩
  | @obey w x since commands read body hsent hreply hlist hread hsince hcall =>
    obtain ⟨hready, hcontact⟩ := turn_contact (h w).ready x
    refine follows_set h ⟨hready, fun id hid => ?_, hcontact⟩
    change id ∈ ((f.worker w).sup.turn x).1.procs.agents at hid
    rw [turn_obeyed (h w).ready hreply, hlist] at hid
    exact ⟨commands, read, rfl, hread, hcall, desired_of_reconciled hid⟩
  | endure w x hsent hreply =>
    obtain ⟨hready, hcontact⟩ := turn_contact (h w).ready x
    refine follows_set h ⟨hready, fun id hid => ?_, hcontact⟩
    exact (h w).listed id (turn_endured (h w).ready hreply hid)
  | restart w manager config workerId now sweep orphans => exact follows_set h follows_enter

theorem follows_run (h₀ : f₀.Start) (h : Relation.ReflTransGen (Moves b) f₀ f) :
    ∀ v, Follows f.orchestrator.log v (f.worker v) := by
  induction h with
  | refl =>
    intro v
    obtain ⟨manager, config, workerId, now, sweep, orphans, hv⟩ := h₀.workers v
    rw [hv]
    exact follows_enter
  | tail _ hm ih => exact follows_moves ih hm

theorem orchestrator_run (h : Relation.ReflTransGen (Moves b) f₀ f) :
    (fleetAgents b).Reaches Machine.always f₀.orchestrator f.orchestrator := by
  induction h with
  | refl => exact .refl
  | tail _ hm ih =>
    cases hm with
    | store x hs => exact .tail x ih trivial hs
    | _ => exact ih

theorem moves_orchestrator {c : AgentConfig}
    (h : (fleetAgents b).Reaches Machine.always f.orchestrator c) :
    Relation.ReflTransGen (Moves b) f { f with orchestrator := c } := by
  induction h with
  | refl => exact .refl
  | tail x _ _ hs ih => exact .tail ih (.store x hs)

end Following

section Lists

variable {b : Backend} {c₀ c₁ c : AgentConfig} {w v : WorkerId} {id : AgentId}
  {commands commands' : List AgentCommand} {read read' : AgentLog}

theorem listed_row {s : StoreState} {rank : AgentId → ℕ}
    (h : id ∈ AgentProcessManager.desired .running (listAgentCommands s rank w)) :
    ∃ a, s.agents.get id = some a ∧ a.workerId = some w ∧ a.desiredStatus = .running := by
  obtain ⟨command, hc, rfl⟩ := List.mem_map.mp h
  obtain ⟨hc, hd⟩ := List.mem_filter.mp hc
  obtain ⟨a, ha, rfl⟩ := List.mem_map.mp hc
  rw [mem_oldestFirst, List.mem_filter, mem_inOrder] at ha
  obtain ⟨hm, ha⟩ := ha
  simp only [Bool.and_eq_true, decide_eq_true_eq] at ha hd
  exact ⟨a, Keyed.get_of_mem hm, ha.1, hd⟩

/-- When the list was made, the agent was the worker's, and to run. -/
theorem list_read (h : (fleetAgents b).Reaches Machine.always c₀ c) (hread : read <:+ c.log)
    (hn : ¬ read <:+ c₀.log) (hcall : listing read = some (w, commands))
    (hid : id ∈ AgentProcessManager.desired .running commands) :
    ∃ c₁ a, (fleetAgents b).Reaches Machine.always c₀ c₁ ∧
      (fleetAgents b).Reaches Machine.always c₁ c ∧ c₁.log = read ∧ row c₁ id = some a ∧
        a.workerId = some w ∧ a.desiredStatus = .running := by
  obtain ⟨⟨thread, party, op, resp⟩, l, rfl, he⟩ := listing_cases hcall
  cases he
  obtain ⟨c₁, c₂, rank, h₁, hx, hs, rfl, ⟨r, hparty, hresp⟩, h₂⟩ := h.step_of_log hread hn
  obtain ⟨-, hanswer, -⟩ := ran_exec r
  rw [hresp] at hanswer
  change resp = listAgentCommands c₁.state.store rank w at hanswer
  rw [hanswer] at hid
  obtain ⟨a, ha, hplaced⟩ := listed_row hid
  refine ⟨c₂, a, h₁.tail _ hx hs, h₂, ?_, ?_, hplaced⟩
  · rw [r.log, hparty, hresp]
  · rw [row, ran_store r]
    exact ha

/-- Between the two logs the agent was assigned to the worker. -/
def AssignedSince (read read' : AgentLog) (id : AgentId) (w : WorkerId) : Prop :=
  ∃ k, Since read read' k ∧ k.op.assigns id w

theorem assigned_step {x : AgentAction} {c' : AgentConfig} (h₀ : Start c₀)
    (hr : (fleetAgents b).Reaches Machine.always c₀ c) (hlog : read <:+ c.log)
    (hs : (fleetAgents b).step c x = some c')
    (h : ∃ a, row c id = some a ∧ (a.workerId = some v → AssignedSince read c.log id v)) :
    ∃ a, row c' id = some a ∧ (a.workerId = some v → AssignedSince read c'.log id v) := by
  obtain ⟨a, ha, hmoved⟩ := h
  have hkept : AssignedSince read c.log id v → AssignedSince read c'.log id v :=
    fun ⟨k, hk, ho⟩ => ⟨k, hk.later (Machine.step_log hs), ho⟩
  have hstep := row_step h₀ hr hs id
  rw [ha] at hstep
  generalize ho : row c' id = o at hstep
  cases hstep with
  | kept => exact ⟨a, rfl, fun hv => hkept (hmoved hv)⟩
  | changed i rank op r hx hl a hid =>
    refine ⟨_, rfl, fun hv => ?_⟩
    cases sight_step c.state.store op a with
    | same hw => exact hkept (hmoved (hw ▸ hv))
    | moved u hw hne hn hop =>
      rw [hw] at hv
      cases hv
      exact ⟨_, r.log ▸ Since.cons hlog, hid ▸ hop⟩
    | silenced u hu hw => exact hkept (hmoved (hw ▸ hv))
    | seen u o hu hw => exact hkept (hmoved (hw ▸ hv))

theorem assigned_since (h₀ : Start c₀) (h₁ : (fleetAgents b).Reaches Machine.always c₀ c₁)
    (h : (fleetAgents b).Reaches Machine.always c₁ c) {a a' : Agent} (ha : row c₁ id = some a)
    (hw : a.workerId ≠ some v) (ha' : row c id = some a') (hv : a'.workerId = some v) :
    AssignedSince c₁.log c.log id v := by
  have hrun : ∃ a, row c id = some a ∧ (a.workerId = some v → AssignedSince c₁.log c.log id v) := by
    apply h.invariant (P := fun c =>
      ∃ a, row c id = some a ∧ (a.workerId = some v → AssignedSince c₁.log c.log id v))
    · exact ⟨a, ha, fun hv => absurd hv hw⟩
    · intro c x c' hr _ hs hp
      exact assigned_step h₀ (h₁.trans hr) hr.log_suffix hs hp
  obtain ⟨a'', ha'', hassigned⟩ := hrun
  rw [ha'] at ha''
  cases ha''
  exact hassigned hv

theorem assigned_between (h₀ : Start c₀) (h : (fleetAgents b).Reaches Machine.always c₀ c)
    (hlater : read.length < read'.length) (hne : w ≠ v)
    (hread : read <:+ c.log) (hcall : listing read = some (w, commands))
    (hid : id ∈ AgentProcessManager.desired .running commands)
    (hread' : read' <:+ c.log) (hcall' : listing read' = some (v, commands'))
    (hid' : id ∈ AgentProcessManager.desired .running commands') :
    AssignedSince read read' id v := by
  have hfresh : ¬ read <:+ c₀.log := by
    obtain ⟨k, l, rfl, -⟩ := listing_cases hcall
    rw [h₀.fresh.log]
    simp
  obtain ⟨c₁, a, h₁, h₂, rfl, ha, hw, -⟩ := list_read h hread hfresh hcall hid
  have hnew : ¬ read' <:+ c₁.log := fun hs => absurd hs.length_le (Nat.not_le.mpr hlater)
  obtain ⟨c₂, a', h₃, -, rfl, ha', hv, -⟩ := list_read h₂ hread' hnew hcall' hid'
  have hw' : a.workerId ≠ some v := by
    rw [hw]
    exact fun he => hne (Option.some.inj he)
  exact assigned_since h₀ h₁ h₃ ha hw' ha' hv

theorem lists_same (hread : read <:+ c.log) (hread' : read' <:+ c.log)
    (hlength : read.length = read'.length) (hcall : listing read = some (w, commands))
    (hcall' : listing read' = some (v, commands')) : w = v := by
  have hsame := (List.suffix_of_suffix_length_le hread hread' hlength.le).eq_of_length hlength
  rw [hsame, hcall'] at hcall
  cases hcall
  rfl

end Lists

variable {b : Backend} {f f₀ : AgentFleet} {w : WorkerId} {id : AgentId}

/-- A process that a worker keeps was asked of it by the list that it follows, made when the agent
was its own and to run; and the worker's contact was lost for less than the time to fence. Where
two workers run one agent, the one that follows the older list has not followed one from after
the agent was assigned to the other. -/
theorem processes_authorised (h₀ : f₀.Start) (h : Relation.ReflTransGen (Moves b) f₀ f)
    (hid : id ∈ (f.worker w).sup.procs.agents) :
    (f.worker w).beat - (f.worker w).sup.loop.lastContact <
      (f.worker w).sup.loop.config.fenceAfter ∧
    ∃ read, (f.worker w).follows = some read ∧
      (∃ c a, (fleetAgents b).Reaches Machine.always f₀.orchestrator c ∧
        (fleetAgents b).Reaches Machine.always c f.orchestrator ∧ c.log = read ∧
          row c id = some a ∧ a.workerId = some w ∧ a.desiredStatus = .running) ∧
      ∀ v, v ≠ w → id ∈ (f.worker v).sup.procs.agents → ∃ read', (f.worker v).follows = some read' ∧
        (AssignedSince read read' id v ∨ AssignedSince read' read id w) := by
  have hrun := orchestrator_run h
  have hw := follows_run h₀ h w
  refine ⟨hw.contact (List.ne_nil_of_mem hid), ?_⟩
  obtain ⟨commands, read, hf, hread, hcall, hwanted⟩ := hw.listed id hid
  have hfresh : ¬ read <:+ f₀.orchestrator.log := by
    obtain ⟨k, l, rfl, -⟩ := listing_cases hcall
    rw [h₀.orchestrator.fresh.log]
    simp
  refine ⟨read, hf, list_read hrun hread hfresh hcall hwanted, fun v hne hid' => ?_⟩
  obtain ⟨commands', read', hf', hread', hcall', hwanted'⟩ := (follows_run h₀ h v).listed id hid'
  refine ⟨read', hf', ?_⟩
  rcases Nat.lt_trichotomy read.length read'.length with hlt | heq | hlt
  · exact .inl (assigned_between h₀.orchestrator hrun hlt hne.symm hread hcall hwanted hread'
      hcall' hwanted')
  · exact absurd (lists_same hread hread' heq hcall hcall').symm hne
  · exact .inr (assigned_between h₀.orchestrator hrun hlt hne hread' hcall' hwanted' hread hcall
      hwanted)

section Overtaken

def portly : AgentProcessManager := ⟨.pair, 2⟩

def idleAgents : AgentFleet where
  orchestrator := idleFleet none
  worker _ := .enter portly ⟨15, 60⟩ "worker" 0 0 []

/-- The reply has these commands, and every start succeeds. -/
def told (commands : List AgentCommand) : Turn where
  health := 0
  agentHealthy := true
  request := 0
  reply := some ⟨200, "200 OK", none, some ⟨true, "running", some commands⟩⟩
  machine := ⟨fun _ => .running, fun _ _ => true, fun _ _ => some 7, fun _ => true⟩
  work := 0
  pause := Nanos.fromSecs 15

def listedFirst : List AgentAction :=
  serving 0 (.createAgent (agentFor 1 1)) 2 ++
    serving 1 (.setAgentDesiredStatus ⟨1⟩ .running none) 2 ++ serving 2 (.listAgentCommands ⟨1⟩) 1

def listedElsewhere : List AgentAction :=
  serving 3 (.assignAgentWorker ⟨1⟩ ⟨2⟩ none) 3 ++ serving 4 (.listAgentCommands ⟨2⟩) 1

/-- The first worker has started the agent when it is assigned to the second, which starts it too. -/
theorem both_authorised : ∃ f : AgentFleet, ⟨1⟩ ∈ (f.worker ⟨1⟩).sup.procs.agents ∧
    ⟨1⟩ ∈ (f.worker ⟨2⟩).sup.procs.agents ∧ ∃ read read', (f.worker ⟨1⟩).follows = some read ∧
      (f.worker ⟨2⟩).follows = some read' ∧
        (AssignedSince read read' ⟨1⟩ ⟨2⟩ ∨ AssignedSince read' read ⟨1⟩ ⟨1⟩) := by
  let c₁ := (fleetAgents .mem).after (idleFleet none) listedFirst
  let c₂ := (fleetAgents .mem).after c₁ listedElsewhere
  let f₁ := idleAgents.set ⟨1⟩ { idleAgents.worker ⟨1⟩ with asked := some 0 }
  let f₂ : AgentFleet := { f₁ with orchestrator := c₁ }
  let f₃ := f₂.set ⟨1⟩ { (f₂.worker ⟨1⟩).turned (told [⟨⟨1⟩, .running, 1⟩]) with follows := some c₁.log }
  let f₄ := f₃.set ⟨2⟩ { f₃.worker ⟨2⟩ with asked := some c₁.log.length }
  let f₅ : AgentFleet := { f₄ with orchestrator := c₂ }
  let f₆ := f₅.set ⟨2⟩ { (f₅.worker ⟨2⟩).turned (told [⟨⟨1⟩, .running, 2⟩]) with follows := some c₂.log }
  have h₁ : Moves .mem idleAgents f₁ := .send ⟨1⟩
  have h₂ : Relation.ReflTransGen (Moves .mem) f₁ f₂ :=
    moves_orchestrator (Machine.after_reaches (M := fleetAgents .mem) listedFirst)
  have h₃ : Moves .mem f₂ f₃ := .obey ⟨1⟩ (told [⟨⟨1⟩, .running, 1⟩]) rfl rfl rfl
    List.suffix_rfl (by decide +kernel) (by decide +kernel)
  have h₄ : Moves .mem f₃ f₄ := .send ⟨2⟩
  have h₅ : Relation.ReflTransGen (Moves .mem) f₄ f₅ :=
    moves_orchestrator (Machine.after_reaches (M := fleetAgents .mem) listedElsewhere)
  have h₆ : Moves .mem f₅ f₆ := .obey ⟨2⟩ (told [⟨⟨1⟩, .running, 2⟩]) rfl rfl rfl
    List.suffix_rfl (by decide +kernel) (by decide +kernel)
  have hrun : Relation.ReflTransGen (Moves .mem) idleAgents f₆ :=
    ((((Relation.ReflTransGen.single h₁).trans h₂).tail h₃).tail h₄ |>.trans h₅).tail h₆
  have hstart : idleAgents.Start :=
    ⟨idleFleet_start none, fun _ => ⟨portly, ⟨15, 60⟩, "worker", 0, 0, [], rfl⟩⟩
  have hfirst : (⟨1⟩ : AgentId) ∈ (f₆.worker ⟨1⟩).sup.procs.agents := by decide +kernel
  have hsecond : (⟨1⟩ : AgentId) ∈ (f₆.worker ⟨2⟩).sup.procs.agents := by decide +kernel
  obtain ⟨-, read, hf, -, hothers⟩ := processes_authorised hstart hrun hfirst
  obtain ⟨read', hf', hassigned⟩ := hothers ⟨2⟩ (by decide) hsecond
  exact ⟨f₆, hfirst, hsecond, read, read', hf, hf', hassigned⟩

end Overtaken

end FleetOrchestrator.Agents
