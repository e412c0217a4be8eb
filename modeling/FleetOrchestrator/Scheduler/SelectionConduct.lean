import FleetOrchestrator.Scheduler.QuietParts

/-! The choice of a worker: what it returns has passed its own circuit filter. -/

namespace FleetOrchestrator.Scheduler

open Core Store Transport Interleaving

/-- A program keeps the discipline from `h` on and ends as `Q` says. -/
abbrev Keeps {α : Type} (D : Deployment) (p : ℕ) (a : Activity)
    (Q : α → History → Prop) (x : M α) (h : History) : Prop :=
  Obeys (Licensed D p a) Q x h

section Rules

variable {α β : Type} {D : Deployment} {p : ℕ} {a : Activity} {h h' : History}
  {Q : α → History → Prop} {S : β → History → Prop}

theorem keeps_step {op : Op} {f : Resp op → M β} (ho : Licensed D p a h op)
    (hf : ∀ r, Keeps D p a S (f r) (⟨op, r⟩ :: h)) : Keeps D p a S (call op >>= f) h := ⟨ho, hf⟩

theorem keeps_quiet {x : M α} (hu : Uses Quiet x) :
    Keeps D p a (fun _ h' => Grew Quiet h h') x h :=
  obeys_of_uses hu fun _ _ hq => licensed_quiet hq

theorem keeps_quiet_then {x : M α} {f : α → M β} (hu : Uses Quiet x)
    (hf : ∀ r h', Grew Quiet h h' → Keeps D p a S (f r) h') : Keeps D p a S (x >>= f) h :=
  obeys_bind (keeps_quiet hu) hf

theorem minor_of_grew (hg : Grew Quiet h h') : Grew Minor h h' :=
  hg.mono fun _ hq => Op.minor_of_quiet hq

/-- The rest of a program decides nothing. -/
theorem keeps_rest {x : M α} (hg : Grew Minor h h') (hu : Uses Quiet x) :
    Keeps D p a (fun _ h'' => Grew Minor h h'') x h' :=
  obeys_conseq (keeps_quiet hu) fun _ _ hq => hg.trans (minor_of_grew hq)

end Rules

section Selection

open Selector

variable {D : Deployment} {p : ℕ} {a : Activity} {h : History}

theorem passed_read {w : WorkerId} {st : BreakerState} (hst : st.isOpen = false) :
    Passed w (⟨.process (.breakerStateOf w), st⟩ :: h) := ⟨h, st, hst, .refl _⟩

theorem circuitClosed_keeps (ws : List Worker) :
    Keeps D p a (fun r h' => ∀ w ∈ r, Passed w.id h') (circuitClosed ws) h := by
  induction ws generalizing h with
  | nil =>
    intro w hw
    cases hw
  | cons w ws ih =>
    refine keeps_step trivial fun st => ?_
    apply obeys_bind (obeys_grew ih (quiet_of_mere (circuitClosed_mere ws)))
    rintro rest h' ⟨hr, hg⟩
    by_cases ho : st.isOpen = true
    · rw [if_pos ho]
      exact obeys_ret hr
    · rw [if_neg ho]
      apply obeys_ret
      intro v hv
      rcases List.mem_cons.mp hv with rfl | hv
      · exact (passed_read (by simpa using ho)).grew (minor_of_grew hg)
      · exact hr v hv

/-- Choices pick one of the candidates they are given. -/
def Among (candidates : List Worker) (r : Except SelectionError WorkerId) : Prop :=
  ∀ w, r = .ok w → ∃ c ∈ candidates, c.id = w

theorem among_error (candidates : List Worker) (e : SelectionError) :
    Among candidates (.error e) := by
  intro w hw
  cases hw

theorem ifResponds_among {candidates : List Worker} {w : Worker} (hw : w ∈ candidates)
    (e : SelectionError) : Returns (Among candidates) (ifResponds w e) := by
  apply returns_bind
  intro up
  split
  · apply returns_ret
    intro v hv
    cases hv
    exact ⟨w, hw, rfl⟩
  · exact returns_ret (among_error _ _)

theorem selectAgent_among (candidates atCapacity : List Worker) (agentId : AgentId) :
    Returns (Among candidates) (selectAgent candidates atCapacity agentId) := by
  apply returns_bind
  intro found
  rcases found with e | _ | agent
  · exact returns_ret (among_error _ _)
  · exact returns_ret (among_error _ _)
  · dsimp only
    cases agentDispatchable agent with
    | error e => exact returns_ret (among_error _ _)
    | ok dispatchable =>
      cases agent.workerId with
      | none => exact returns_ret (among_error _ _)
      | some w =>
        dsimp only
        cases hf : candidates.find? fun c => c.id = w with
        | some c => exact ifResponds_among (List.mem_of_find?_eq_some hf) _
        | none =>
          dsimp only
          split <;> exact returns_ret (among_error _ _)

theorem selectHinted_among (candidates atCapacity : List Worker) (hint : String) :
    Returns (Among candidates) (selectHinted candidates atCapacity hint) := by
  unfold selectHinted
  cases hf : candidates.find? fun w => w.name = hint with
  | some w => exact ifResponds_among (List.mem_of_find?_eq_some hf) _
  | none =>
    dsimp only
    split
    · exact returns_ret (among_error _ _)
    · apply returns_bind
      intro named
      rcases named with e | _ | w <;> exact returns_ret (among_error _ _)

theorem firstResponding_among {candidates : List Worker} (ws : List Worker)
    (hs : ws ⊆ candidates) : Returns (Among candidates) (firstResponding ws) := by
  induction ws with
  | nil => exact returns_ret (among_error _ _)
  | cons w ws ih =>
    apply returns_bind
    intro up
    split
    · apply returns_ret
      intro v hv
      cases hv
      exact ⟨w, hs List.mem_cons_self, rfl⟩
    · exact ih fun v hv => hs (List.mem_cons_of_mem _ hv)

theorem choose_among (task : Task) (candidates : List Worker) (load : WorkerId → ℕ) :
    Returns (Among candidates) (choose task candidates load) := by
  have widen {free : List Worker} {x : M (Except SelectionError WorkerId)}
      (hs : free ⊆ candidates) (hx : Returns (Among free) x) : Returns (Among candidates) x := by
    apply returns_mono hx
    intro r hr w hw
    obtain ⟨c, hc, hi⟩ := hr w hw
    exact ⟨c, hs hc, hi⟩
  have hfree : candidates.filter (fun w => decide (load w.id < w.maxConcurrent)) ⊆ candidates :=
    List.filter_sublist.subset
  unfold choose
  cases task.agentId with
  | some agentId =>
    apply widen hfree
    exact selectAgent_among _ _ _
  | none =>
    cases task.serverHint with
    | some hint =>
      apply widen hfree
      exact selectHinted_among _ _ _
    | none =>
      dsimp only
      split
      · exact returns_ret (among_error _ _)
      · split
        · exact returns_ret (among_error _ _)
        · apply firstResponding_among
          intro w hw
          exact hfree ((List.mem_insertionSort _).mp hw)

/-- What a selection hands back has passed its own circuit filter. -/
def Selected (r : Except SelectionError WorkerId) (h : History) : Prop :=
  ∀ w, r = .ok w → Passed w h

theorem selected_error (e : SelectionError) : Selected (.error e) h := by
  intro w hw
  cases hw

theorem selectAmong_keeps (task : Task) (candidates : List Worker) :
    Keeps D p a (fun r h' => Selected r h' ∧ h <:+ h') (selectAmong task candidates) h := by
  have hquiet := quiet_of_mere (circuitClosed_mere candidates)
  apply obeys_bind (obeys_grew (circuitClosed_keeps candidates) hquiet)
  rintro closed h₁ ⟨hp, hg₁⟩
  refine keeps_step trivial fun load => ?_
  have hs : h <:+ ⟨.store .countDispatchedTasksByWorker, load⟩ :: h₁ :=
    hg₁.suffix.trans (List.suffix_cons _ _)
  cases load with
  | error e => exact obeys_ret ⟨selected_error _, hs⟩
  | ok load =>
    apply obeys_conseq (obeys_returns (keeps_quiet (quiet_of_mere (choose_mere task closed load)))
      (choose_among task closed load))
    rintro r h₂ ⟨hg₂, hr⟩
    refine ⟨?_, hs.trans hg₂.suffix⟩
    intro w hw
    obtain ⟨c, hc, rfl⟩ := hr w hw
    have hload : Quiet (.store .countDispatchedTasksByWorker) := rfl
    exact (hp c hc).grew (minor_of_grew (.trans (.one hload) hg₂))

theorem select_keeps (task : Task) :
    Keeps D p a (fun r h' => Selected r h' ∧ h <:+ h') (select task) h := by
  refine keeps_step trivial fun listed => ?_
  have hs := List.suffix_cons
    (⟨.store (.listWorkers { status := some .online }), listed⟩ : Entry Op Resp) h
  have fail (e : SelectionError) : Keeps D p a (fun r h' => Selected r h' ∧ h <:+ h')
      (.ret (.error e)) (⟨.store (.listWorkers { status := some .online }), listed⟩ :: h) :=
    obeys_ret ⟨selected_error e, hs⟩
  cases listed with
  | error e => exact fail _
  | ok online =>
    dsimp only
    split
    · exact fail _
    · split
      · exact fail _
      · cases task.model with
        | none =>
          apply obeys_conseq (selectAmong_keeps task _)
          rintro r h' ⟨hr, hg⟩
          exact ⟨hr, hs.trans hg⟩
        | some model =>
          dsimp only
          split
          · exact fail _
          · refine keeps_quiet_then (quiet_of_mere (withCredential_mere _ _)) fun held h₁ hg₁ => ?_
            have hs₁ := hs.trans hg₁.suffix
            split
            · exact obeys_ret ⟨selected_error _, hs₁⟩
            · apply obeys_conseq (selectAmong_keeps task _)
              rintro r h' ⟨hr, hg⟩
              exact ⟨hr, hs₁.trans hg⟩

end Selection

end FleetOrchestrator.Scheduler
