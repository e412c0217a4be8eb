import FleetOrchestrator.Agents.Statements
import FleetOrchestrator.Interleaving.Program
import FleetOrchestrator.Store.Listing

/-! The worker that a new agent is placed on, and the page of workers it is chosen from. -/

namespace FleetOrchestrator.Agents

open Core Tables Store Interleaving

inductive PlacementError where
  | allOffline
  | allUnprobed
  | allCircuitOpen
  | allAtCapacity
  | store (e : StoreError)
  deriving DecidableEq

def PlacementError.message : PlacementError → String
  | allOffline => "no worker is currently online"
  | allUnprobed => "no placeable worker: all candidates are on-demand and unprobed"
  | allCircuitOpen => "no placeable worker: every online worker has an open circuit"
  | allAtCapacity => "no placeable worker: every online worker is at its agent-process cap"
  | store e => "store error: " ++ e.message

inductive Query where
  | listWorkers (filter : WorkerFilter)
  | countAgentsByWorker

@[reducible] def Query.Answer : Query → Type
  | listWorkers _ => Except StoreError (List Worker)
  | countAgentsByWorker => Except StoreError (WorkerId → ℕ)

abbrev Choosing (α : Type) := Prog Query Query.Answer α

def query (q : Query) : Choosing q.Answer := Prog.perform q

/-- A worker that reports no cap is not held to any. -/
def belowCap (load : WorkerId → ℕ) (w : Worker) : Bool :=
  w.maxAgentProcesses.all fun cap => load w.id < cap

def byLoad (load : WorkerId → ℕ) (candidates : List Worker) : List Worker :=
  candidates.insertionSort fun a b =>
    load a.id < load b.id ∨ load a.id = load b.id ∧ a.registeredAt ≤ b.registeredAt

def chooseWorker : Choosing (Except PlacementError WorkerId) := do
  match ← query (.listWorkers { status := some .online }) with
  | .error e => return .error (.store e)
  | .ok candidates =>
    if candidates.isEmpty then return .error .allOffline
    else
      let candidates := candidates.filter fun w => w.livenessMode ≠ .onDemand
      if candidates.isEmpty then return .error .allUnprobed
      else
        let candidates := candidates.filter fun w => w.circuitState ≠ .open
        if candidates.isEmpty then return .error .allCircuitOpen
        else
          match ← query .countAgentsByWorker with
          | .error e => return .error (.store e)
          | .ok load =>
            match byLoad load (candidates.filter (belowCap load)) with
            | [] => return .error .allAtCapacity
            | w :: _ => return .ok w.id

/-- A store whose calls do not fail. -/
def Query.answer (rank : WorkerId → ℕ) : (q : Query) → StoreState → Option (q.Answer × StoreState)
  | listWorkers filter, s => some (.ok (Store.listWorkers s rank filter), s)
  | countAgentsByWorker, s => some (.ok (countAgents s), s)

/-- The filters, in their order. -/
inductive Filter where
  | online
  | periodic
  | circuit
  | capacity
  deriving DecidableEq

def Filter.error : Filter → PlacementError
  | online => .allOffline
  | periodic => .allUnprobed
  | circuit => .allCircuitOpen
  | capacity => .allAtCapacity

/-- The worker passes the filter and all before it. -/
def Filter.passes (s : StoreState) : Filter → Worker → Prop
  | online, w => w.status = .online
  | periodic, w => w.status = .online ∧ w.livenessMode ≠ .onDemand
  | circuit, w => (w.status = .online ∧ w.livenessMode ≠ .onDemand) ∧ w.circuitState ≠ .open
  | capacity, w => ((w.status = .online ∧ w.livenessMode ≠ .onDemand) ∧ w.circuitState ≠ .open) ∧
      belowCap (countAgents s) w = true

/-- The filter before. -/
def Filter.previous : Filter → Option Filter
  | online => none
  | periodic => some online
  | circuit => some periodic
  | capacity => some circuit

def Before (s : StoreState) (v u : Worker) : Prop :=
  countAgents s v.id < countAgents s u.id ∨
    countAgents s v.id = countAgents s u.id ∧ v.registeredAt ≤ u.registeredAt

/-- Of the workers given, nobody passes the filter, but some have passed the one before. -/
def Exhausted (s : StoreState) (ws : List Worker) (f : Filter) : Prop :=
  (∀ w ∈ ws, ¬ f.passes s w) ∧ ∀ g ∈ f.previous, ∃ w ∈ ws, g.passes s w

/-- What the result says of the workers given. -/
structure Right (s : StoreState) (ws : List Worker) (r : Except PlacementError WorkerId) : Prop where
  chosen : ∀ id, r = .ok id → ∃ w ∈ ws, w.id = id ∧ Filter.capacity.passes s w ∧
    ∀ v ∈ ws, Filter.capacity.passes s v → Before s w v
  refused : ∀ e, r = .error e → (∀ w ∈ ws, ¬ Filter.capacity.passes s w) ∧
    ∃ f : Filter, e = f.error ∧ Exhausted s ws f

def listed (s : StoreState) (rank : WorkerId → ℕ) : List Worker :=
  listWorkers s rank { status := some .online }

/-- The listing stands for all workers: for each filter that a worker passes it shows one that passes
it too, and for one that passes them all one that comes no later. -/
def Covered (s : StoreState) (rank : WorkerId → ℕ) : Prop :=
  ∀ v ∈ s.workers.rows, ∀ f : Filter, f.passes s v →
    ∃ u ∈ listed s rank, f.passes s u ∧ (f = .capacity → Before s u v)

section Choice

variable {s : StoreState} {rank : WorkerId → ℕ} {ws : List Worker} {u v w : Worker} {f g : Filter}
  {r : Except PlacementError WorkerId}

theorem passes_online (h : f.passes s w) : Filter.online.passes s w := by
  cases f with
  | online => exact h
  | periodic => exact h.1
  | circuit => exact h.1.1
  | capacity => exact h.1.1.1

theorem passes_of_capacity (h : Filter.capacity.passes s w) : f.passes s w := by
  cases f with
  | online => exact h.1.1.1
  | periodic => exact h.1.1
  | circuit => exact h.1
  | capacity => exact h

instance : DecidableRel (Before s) := fun _ _ => inferInstanceAs (Decidable (_ ∨ _))

theorem pairwise_byLoad (l : List Worker) : (byLoad (countAgents s) l).Pairwise (Before s) := by
  have : IsTrans Worker (Before s) := by
    refine ⟨fun a b c hab hbc => ?_⟩
    unfold Before at *
    omega
  have : Std.Total (Before s) := by
    refine ⟨fun a b => ?_⟩
    unfold Before
    omega
  exact List.pairwise_insertionSort (Before s) l

theorem refused_exhausted (he : Exhausted s ws f) : Right s ws (.error f.error) := by
  refine ⟨nofun, ?_⟩
  rintro e ⟨⟩
  exact ⟨fun w hw hp => he.1 w hw (passes_of_capacity hp), f, rfl, he⟩

/-- What the filter leaves of the workers. -/
def Left (s : StoreState) (ws : List Worker) (f : Filter) (l : List Worker) : Prop :=
  ∀ w, w ∈ l ↔ w ∈ ws ∧ f.passes s w

theorem left_filter {l : List Worker} {p : Worker → Bool} (hl : Left s ws g l)
    (hf : ∀ w, f.passes s w ↔ g.passes s w ∧ p w = true) : Left s ws f (l.filter p) := by
  intro w
  rw [List.mem_filter, hl w, hf w, and_assoc]

/-- The filter has left nobody of those whom the one before has left. -/
theorem exhausted_left {l l' : List Worker} (hl : Left s ws f l) (hnone : l = [])
    (hg : f.previous = some g) (hl' : Left s ws g l') (hsome : l' ≠ []) : Exhausted s ws f := by
  constructor
  · intro w hw hp
    have hmem := (hl w).mpr ⟨hw, hp⟩
    rw [hnone] at hmem
    cases hmem
  · intro g' hg'
    rw [hg] at hg'
    cases hg'
    obtain ⟨w, hw⟩ := List.exists_mem_of_ne_nil l' hsome
    exact ⟨w, (hl' w).mp hw⟩

/-- The choice is right about the workers that the listing shows. -/
theorem choose_listed : Ends (Query.answer rank) chooseWorker s fun r _ =>
    Right s (listed s rank) r := by
  have honline : Left s (listed s rank) .online (listed s rank) :=
    fun w => ⟨fun hw => ⟨hw, (of_mem_listWorkers hw).2⟩, And.left⟩
  have hlist : Query.answer rank (.listWorkers { status := some .online }) s =
    some (.ok (listed s rank), s) := rfl
  have hcount : Query.answer rank .countAgentsByWorker s = some (.ok (countAgents s), s) := rfl
  apply ends_step hlist
  generalize listed s rank = ws at honline
  dsimp only
  by_cases hws : ws = []
  · rw [hws]
    exact ends_ret (refused_exhausted (f := .online) ⟨by simp, nofun⟩)
  rw [if_neg (by simpa using hws)]
  have hperiodic : Left s ws .periodic (ws.filter fun w => w.livenessMode ≠ .onDemand) :=
    left_filter honline fun w => by simp [Filter.passes]
  generalize ws.filter (fun w => w.livenessMode ≠ .onDemand) = periodic at hperiodic
  by_cases hnone : periodic = []
  · rw [hnone]
    exact ends_ret (refused_exhausted (exhausted_left hperiodic hnone rfl honline hws))
  rw [if_neg (by simpa using hnone)]
  have hcircuit : Left s ws .circuit (periodic.filter fun w => w.circuitState ≠ .open) :=
    left_filter hperiodic fun w => by simp [Filter.passes]
  generalize periodic.filter (fun w => w.circuitState ≠ .open) = closed at hcircuit
  by_cases hopen : closed = []
  · rw [hopen]
    exact ends_ret (refused_exhausted (exhausted_left hcircuit hopen rfl hperiodic hnone))
  rw [if_neg (by simpa using hopen)]
  apply ends_step hcount
  have hroom : Left s ws .capacity (closed.filter (belowCap (countAgents s))) :=
    left_filter hcircuit fun w => by simp [Filter.passes]
  have hsorted := pairwise_byLoad (s := s) (closed.filter (belowCap (countAgents s)))
  have hmem (w : Worker) : w ∈ byLoad (countAgents s) (closed.filter (belowCap (countAgents s))) ↔
      w ∈ ws ∧ Filter.capacity.passes s w := by
    rw [byLoad, List.mem_insertionSort]
    exact hroom w
  dsimp only
  generalize byLoad (countAgents s) (closed.filter (belowCap (countAgents s))) = sorted at hsorted hmem
  cases sorted with
  | nil => exact ends_ret (refused_exhausted (exhausted_left hmem rfl rfl hcircuit hopen))
  | cons w rest =>
    obtain ⟨hw, hp⟩ := (hmem w).mp List.mem_cons_self
    refine ends_ret ⟨?_, nofun⟩
    rintro id ⟨⟩
    refine ⟨w, hw, rfl, hp, fun v hv hpv => ?_⟩
    rcases List.mem_cons.mp ((hmem v).mpr ⟨hv, hpv⟩) with rfl | hmem
    · exact .inr ⟨rfl, le_refl _⟩
    · exact (List.pairwise_cons.mp hsorted).1 v hmem

theorem right_of_covered (hc : Covered s rank) (h : Right s (listed s rank) r) :
    Right s s.workers.rows r := by
  have hrow : ∀ w ∈ listed s rank, w ∈ s.workers.rows := fun w hw => (of_mem_listWorkers hw).1
  have hnone {f : Filter} (hn : ∀ w ∈ listed s rank, ¬ f.passes s w) :
      ∀ w ∈ s.workers.rows, ¬ f.passes s w := by
    intro w hw hp
    obtain ⟨u, hu, hpu, -⟩ := hc w hw f hp
    exact hn u hu hpu
  refine ⟨fun id hid => ?_, fun e he => ?_⟩
  · obtain ⟨w, hw, hid, hp, hfirst⟩ := h.chosen id hid
    refine ⟨w, hrow w hw, hid, hp, fun v hv hpv => ?_⟩
    obtain ⟨u, hu, hpu, huv⟩ := hc v hv .capacity hpv
    have hwu := hfirst u hu hpu
    have huv := huv rfl
    unfold Before at *
    omega
  · obtain ⟨hall, f, rfl, hf, hprev⟩ := h.refused e he
    refine ⟨hnone hall, f, rfl, hnone hf, fun g hg => ?_⟩
    obtain ⟨w, hw, hp⟩ := hprev g hg
    exact ⟨w, hrow w hw, hp⟩

theorem error_injective {f g : Filter} (h : f.error = g.error) : f = g := by
  cases f <;> cases g <;> first | rfl | cases h

/-- Of two filters the one comes no earlier than the other, or no later than the one before it. -/
theorem passes_order (s : StoreState) (f g : Filter) : (∀ w, f.passes s w → g.passes s w) ∨
    f ≠ .capacity ∧ ∃ e ∈ g.previous, ∀ w, e.passes s w → f.passes s w := by
  cases f <;> cases g <;> simp only [Filter.previous, Filter.passes, Option.mem_def] <;>
    first
    | exact .inl fun w hw => by tauto
    | exact .inr ⟨nofun, _, rfl, fun w hw => by tauto⟩

theorem covered_of_right (h : Right s (listed s rank) r) (hall : Right s s.workers.rows r) :
    Covered s rank := by
  intro v hv f hp
  cases r with
  | ok id =>
    obtain ⟨u, hu, huid, hpu, -⟩ := h.chosen id rfl
    obtain ⟨w, hw, hwid, -, hfirst⟩ := hall.chosen id rfl
    have hsame : u = w := by
      have hgu := Keyed.get_of_mem (of_mem_listWorkers hu).1
      have hgw := Keyed.get_of_mem hw
      rw [huid, ← hwid, hgw] at hgu
      exact (Option.some.inj hgu).symm
    refine ⟨u, hu, passes_of_capacity hpu, ?_⟩
    rintro rfl
    rw [hsame]
    exact hfirst v hv hp
  | error e =>
    obtain ⟨-, g, rfl, -, hprev⟩ := h.refused e rfl
    obtain ⟨-, g', he, hnone, -⟩ := hall.refused _ rfl
    obtain rfl := error_injective he
    rcases passes_order s f g with hlater | ⟨hf, e, he, hearlier⟩
    · exact absurd (hlater v hp) (hnone v hv)
    · obtain ⟨w, hw, hpw⟩ := hprev e he
      exact ⟨w, hw, hearlier w hpw, fun hc => absurd hc hf⟩

/-- What is chosen, or why nobody is, is right about all workers exactly where the listing stands for
all of them. -/
theorem choice_right_iff (s : StoreState) (rank : WorkerId → ℕ) :
    Ends (Query.answer rank) chooseWorker s fun r _ =>
      Right s s.workers.rows r ↔ Covered s rank := by
  apply ends_mono choose_listed
  exact fun r _ h => ⟨covered_of_right h, fun hc => right_of_covered hc h⟩

/-- So it does where all online workers fit the page. -/
theorem covered_of_fit (hfit : withStatus s .online ≤ 100) : Covered s rank := by
  intro v hv f hp
  exact ⟨v, (mem_listWorkers hfit).mpr ⟨hv, passes_online hp⟩, hp, fun _ => .inr ⟨rfl, le_refl _⟩⟩

end Choice

namespace Crowded

/-- The oldest of 101 workers is the only one whose circuit is not open. -/
def worker (i : ℕ) : Worker where
  id := ⟨i⟩
  name := "worker-" ++ toString i
  circuitState := if i = 0 then .closed else .open
  registeredAt := i
  incarnationStartedAt := i

def workers : WorkerTable where
  rows := (List.range 101).map worker
  nodup := by
    rw [List.map_map]
    apply List.nodup_range.map
    intro i j h
    exact congrArg WorkerId.uuid h

def store : StoreState := { StoreState.empty with workers }

theorem closed_circuit_overlooked : ¬ ∀ (s : StoreState) (rank : WorkerId → ℕ),
    Ends (Query.answer rank) chooseWorker s fun r _ => Right s s.workers.rows r := by
  intro h
  have hrun : (chooseWorker.byItself (Query.answer fun id => id.uuid) store).map Prod.fst =
      some (.error .allCircuitOpen) := by
    decide +kernel
  obtain ⟨_, hr⟩ := (h store fun id => id.uuid).sound hrun
  obtain ⟨hnone, -⟩ := hr.refused _ rfl
  refine hnone (worker 0) (List.mem_map.mpr ⟨0, by simp, rfl⟩) ?_
  simp [Filter.passes, worker, belowCap]

end Crowded

end FleetOrchestrator.Agents
