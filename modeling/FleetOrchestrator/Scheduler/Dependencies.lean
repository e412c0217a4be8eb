import FleetOrchestrator.Scheduler.Records

/-! A task is only dispatched after everything it depends on has completed. -/

namespace FleetOrchestrator.Scheduler

open Core Tables Store Transport Interleaving Machine

def World.phase (w : World) (id : TaskId) : Option TaskPhase := (w.row id).map Task.phase

variable {D : Deployment} {c₀ c c' : FleetConfig} {x : FleetAction} {id d : TaskId}

/-- The dependency was seen completed, and only a removal took it away since. -/
def CompletedBefore (D : Deployment) (c₀ c : FleetConfig) (d : TaskId) : Prop :=
  (∃ c₁, (fleet D).Reaches always c₀ c₁ ∧ (fleet D).Reaches always c₁ c ∧
    c₁.state.phase d = some .completed) ∧
  (c.state.phase d = some .completed ∨
    c.state.phase d = none ∧ ∃ k ∈ c.log, k.entry = ⟨.store (.removeTerminal d), .ok .deleted⟩)

theorem completed_before_of_fetched (h₀ : Start c₀) (h : (fleet D).Reaches always c₀ c) {i : ℕ}
    {t : Task} (hf : Fetched d t (history c.log i)) (hp : t.phase = .completed) :
    CompletedBefore D c₀ c d := by
  obtain ⟨c₁, h₁, h₁c, ht⟩ := fetched_before h₀.seeded h hf
  have hid : t.id = d := Keyed.get_key ht
  have hphase : c₁.state.phase d = some .completed := by
    rw [World.phase, ht, Option.map_some, hp]
  refine ⟨⟨c₁, h₁, h₁c, hphase⟩, ?_⟩
  have hseen : Seen t c := seen_run h₀.seeded h₁ h₁c (seen_now h₀.seeded h₁ (hid.symm ▸ ht))
  cases hrow : c.state.row d with
  | none =>
    right
    refine ⟨?_, removal_logged h₁c ht hrow⟩
    rw [World.phase, hrow]
    rfl
  | some t' =>
    left
    have hend : t.isTerminal = true := by
      rw [Task.isTerminal, hp]
      rfl
    have hst := (hseen.2 t' (hid.symm ▸ hrow)).ended hend
    rw [World.phase, hrow, Option.map_some, Task.phase, hst]
    exact congrArg some hp

/-- The dependencies an activity read are those of the row it claims. -/
theorem dependencies_of_read (h₀ : Start c₀) (h : (fleet D).Reaches always c₀ c) {i : ℕ} {t : Task}
    (ht : c.state.row id = some t) (hd : DependenciesRead id (history c.log i)) :
    AllCompleted t.dependencyIds (history c.log i) := by
  obtain ⟨task, hk, hi, hall⟩ := hd
  have hdeps : t.dependencyIds = task.dependencyIds := by
    rcases hk with ⟨filter, tasks, hm, htask⟩ | hm
    · obtain ⟨k, hk, -, he⟩ := mem_history.mp hm
      have hseen := shown_seen h₀.seeded h k hk task (he ▸ htask)
      exact (hseen.2 t (hi ▸ ht)).dependencyIds
    · obtain ⟨k, hk, -, he⟩ := mem_history.mp hm
      have hseen := inserted_seen h₀.seeded h k hk task he
      have hrow : c.state.row (D.backend.insertedRow task).id = some t := by
        rw [insertedRow_id, hi]
        exact ht
      rw [(hseen.2 t hrow).dependencyIds]
      cases D.backend <;> rfl
  rw [hdeps]
  exact hall

/-- The second task depends on the first; its claim is the next step. -/
def soloDependent : List FleetAction :=
  soloCompletion ++ [.start 0 (.submit (soloTask 2 [⟨1⟩]))] ++ steps 4 17 {}

end FleetOrchestrator.Scheduler
