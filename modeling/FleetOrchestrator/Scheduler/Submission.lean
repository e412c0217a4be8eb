import FleetOrchestrator.Scheduler.Dependencies

/-! What a client can rely on once its submission has returned. -/

namespace FleetOrchestrator.Scheduler

open Core Tables Store Transport Interleaving Machine

variable {D : Deployment} {cond : FleetConfig → FleetAction → Prop} {c₀ c c' c₁ c₂ : FleetConfig}
  {x : FleetAction} {id : TaskId} {task : Task}

/-- The activity `i` stored its task itself. -/
def Stored (D : Deployment) (i : ℕ) (task : Task) (c : FleetConfig) : Prop :=
  Inserted (Dispatcher.routed D task) (history c.log i)

theorem Stored.step (hs : (fleet D).step c x = some c') {i : ℕ} (h : Stored D i task c) :
    Stored D i task c' := (history_suffix (step_log hs) i).subset h

theorem row_stored (h₀ : Start c₀) (h : (fleet D).Reaches cond c₀ c) :
    ∀ (i : ℕ) (t : Thread Op Resp ℕ Activity Output) (task row : Task),
      c.threads[i]? = some t → t.act = .submit task → c.state.row task.id = some row →
        Stored D i task c := by
  apply h.invariant (P := fun c => ∀ (i : ℕ) (t : Thread Op Resp ℕ Activity Output)
    (task row : Task), c.threads[i]? = some t → t.act = .submit task →
      c.state.row task.id = some row → Stored D i task c)
  · intro i t task row ht
    rw [h₀.fresh.threads] at ht
    cases ht
  · intro c x c' hr _ hs ih i t' task row' ht' ha' hrow'
    have honce := submitted_once h₀.seeded hr
    rcases submission_origin hs ht' ha' with ⟨t, ht, ha⟩ | ⟨hlen, hnew, -⟩
    · cases hrow : c.state.row task.id with
      | some row => exact (ih i t task row ht ha hrow).step hs
      | none =>
        cases row_appearance h₀.seeded hr hs hrow hrow' with
        | submitted j ch other r hresp hb hid hh _ =>
          obtain rfl : i = j := honce.only i j t _ task other ht r.was ha hb hid.symm
          rw [r.was] at ht
          cases ht
          rw [hb] at ha
          cases ha
          unfold Stored Inserted
          rw [r.log, history_cons_self (⟨i, r.party,
            .store (.insertTaskIdempotent (Dispatcher.routed D task)), r.resp⟩ : Call Op Resp ℕ),
            ← hresp]
          exact List.mem_cons_self
        | inserted hi hn hm => exact absurd (honce.minted i t task ht ha) hm
    · cases hrow : c.state.row task.id with
      | some row => exact absurd (rows_spent h₀.seeded hr task.id row hrow).1 hnew
      | none =>
        cases row_appearance h₀.seeded hr hs hrow hrow' with
        | submitted j ch other r hresp hb hid hh _ =>
          exact absurd (hid ▸ honce.minted j _ other r.was hb) hnew
        | inserted hi hn hm =>
          rw [(step_env hs).2.1, hlen] at ht'
          simp at ht'

theorem claimed_stored (h₀ : Start c₀) (h : (fleet D).Reaches cond c₀ c) :
    ∀ k ∈ c.log, ∀ w, Claimed id w k.entry →
      ∀ (i : ℕ) (t : Thread Op Resp ℕ Activity Output) (task : Task), c.threads[i]? = some t →
        t.act = .submit task → task.id = id → Stored D i task c := by
  apply h.logged (P := fun c k => ∀ w, Claimed id w k.entry →
    ∀ (i : ℕ) (t : Thread Op Resp ℕ Activity Output) (task : Task), c.threads[i]? = some t →
      t.act = .submit task → task.id = id → Stored D i task c) h₀.fresh
  · rintro c c' j ch op r hr _ hs w hc i t' task ht' ha' rfl
    obtain ⟨expected, startedAt, fence, origin, he⟩ := hc
    obtain ⟨r', hr', -, -⟩ := ran_as r he
    obtain ⟨-, row, hrow, -, -⟩ := ran_applied r' hr'
    rcases submission_origin hs ht' ha' with ⟨t, ht, ha⟩ | ⟨-, hnew, -⟩
    · exact (row_stored h₀ hr i t task row ht ha hrow).step hs
    · exact absurd (rows_spent h₀.seeded hr task.id row hrow).1 hnew
  · rintro c x c' k hr _ hs hk hp w hc i t' task ht' ha' rfl
    rcases submission_origin hs ht' ha' with ⟨t, ht, ha⟩ | ⟨-, hnew, -⟩
    · exact (hp w hc i t task ht ha rfl).step hs
    · obtain ⟨startedAt, happ⟩ := hc.applied
      obtain ⟨row, hi, -, hseen⟩ := applied_seen h₀.seeded hr k hk task.id _ happ
      exact absurd (hi ▸ hseen.1.1) hnew

/-- The errors after which a client may submit its prompt again: the request itself was refused, or
nothing was stored, or the submission ended its own task before anyone claimed it. -/
def SettledBy (D : Deployment) (task : Task) (e : DispatchError) (h : History) : Prop :=
  e.settles = true ∨ ¬ Inserted (Dispatcher.routed D task) h ∨
    ∃ failure fence origin, (⟨.store (.compareAndSetTaskStatus task.id [.pending] (.failed failure)
      fence origin), .ok .applied⟩ : Entry Op Resp) ∈ h

theorem no_hand_over_after (h₀ : Start c₀) (h₁ : (fleet D).Reaches cond c₀ c₁)
    (h₂ : (fleet D).Reaches cond c₁ c₂) {i p : ℕ} {e : DispatchError}
    (ht : c₁.threads[i]? = some ⟨p, .submit task, .ret (.submitted (.error e))⟩)
    (he : SettledBy D task e (history c₁.log i)) :
    ∀ k l, k :: l <:+ c₂.log → Handed task.id k → k :: l <:+ c₁.log := by
  intro k l hk hhand
  have h : (fleet D).Reaches cond c₀ c₂ := h₁.trans h₂
  obtain ⟨ht₂, hh⟩ := h₂.finished ht
  have claimed : ∃ m ∈ c₂.log, ∃ w, Claimed task.id w m.entry := by
    obtain ⟨req, ho, hi⟩ := hhand
    obtain ⟨m, hm, -, hc⟩ := handed_claimed h₀.seeded h hk ho
    exact ⟨m, ((List.suffix_cons k l).trans hk).subset hm, req.workerId, hi ▸ hc⟩
  obtain ⟨m, hm, w, hc⟩ := claimed
  have hstored : Inserted (Dispatcher.routed D task) (history c₁.log i) := by
    rw [← hh]
    exact claimed_stored h₀ h m hm w hc i _ task ht₂ rfl rfl
  have own (hown : HandedBy task.id (history c₁.log i)) : k :: l <:+ c₁.log := by
    obtain ⟨req, r, hr, hi⟩ := hown
    obtain ⟨k', hk', -, he'⟩ := mem_history.mp hr
    obtain ⟨l', hl'⟩ := placed hk'
    have hhand' : Handed task.id k' := ⟨req, congrArg Entry.op he', hi⟩
    obtain ⟨rfl, rfl⟩ := (handed_once h₀.seeded h task.id).place hk (hl'.trans h₂.log_suffix) hhand hhand'
    exact hl'
  rcases he with hset | hnot | ⟨failure, fence, origin, hfail⟩
  · have hends : SubmitEnds D task (history c₁.log i) (.error e) := finished_ensures h₀.seeded h₁ ht
    rcases hends hset with hnot | hown
    · exact absurd hstored hnot
    · exact own hown
  · exact absurd hstored hnot
  · obtain ⟨k', hk', -, he'⟩ := mem_history.mp hfail
    have hk₂ : k' ∈ c₂.log := h₂.log_suffix.subset hk'
    obtain rfl := (left_once h₀.seeded h task.id).eq hk₂ hm ⟨_, fence, origin, he'⟩ (hc.left h₀.seeded h hm)
    obtain ⟨_, _, _, _, hcl⟩ := hc
    rw [he'] at hcl
    cases hcl

theorem row_or_removed (h : (fleet D).Reaches cond c₁ c₂) {t : Task}
    (ht : c₁.state.row id = some t) : (∃ t', c₂.state.row id = some t') ∨
      ∃ k ∈ c₂.log, k.entry = ⟨.store (.removeTerminal id), .ok .deleted⟩ := by
  cases hn : c₂.state.row id with
  | some t' => exact .inl ⟨t', rfl⟩
  | none => exact .inr (removal_logged h ht hn)

theorem row_of_submitted (h₀ : Start c₀) (h : (fleet D).Reaches cond c₀ c) {i p : ℕ}
    (ht : c.threads[i]? = some ⟨p, .submit task, .ret (.submitted (.ok id))⟩) :
    (∃ t, c.state.row id = some t) ∨
      ∃ k ∈ c.log, k.entry = ⟨.store (.removeTerminal id), .ok .deleted⟩ := by
  have hends : SubmitEnds D task (history c.log i) (.ok id) := finished_ensures h₀.seeded h ht
  rcases hends with ⟨hins, rfl⟩ | ⟨existing, hdup, rfl⟩
  · obtain ⟨k, hk, -, he⟩ := mem_history.mp hins
    obtain ⟨c₁, c₂, ch, -, h₂, r, hr⟩ := logged_step h₀.seeded h hk
    obtain ⟨r', hr', -, -⟩ := ran_as r (hr.trans he)
    have hrow := ran_inserted r' hr'
    exact row_or_removed h₂ hrow
  · obtain ⟨k, hk, -, he⟩ := mem_history.mp hdup
    obtain ⟨c₁, c₂, ch, h₁₂, h₂, r, hr⟩ := logged_step h₀.seeded h hk
    have hshown : existing ∈ shown ⟨k.op, r.resp⟩ := by
      rw [hr.trans he]
      exact List.mem_singleton.mpr rfl
    exact row_or_removed (h₁₂.trans h₂) (ran_shows r hshown)

section Retried

/-- A deployment whose processes retry a dispatch, and whose first task needs a skill. -/
def retrying : Deployment :=
  { solo with process := fun p => { solo.process p with maxDispatchRetries := 3 } }

def skilledTask : Task := { soloTask 1 [] with skillsRequired := ["skill"] }

def refusedSubmission : List FleetAction :=
  soloSetup ++ [.start 0 (.submit skilledTask)] ++ steps 0 26 {}

def retriedSubmission : List FleetAction :=
  [.env (.elapse 60000), .start 0 .reconcile] ++ steps 1 24 { skill := .text "text" }

/-- Without retries the submission marks its task as failed. -/
def failedSubmission : List FleetAction :=
  soloSetup ++ [.start 0 (.submit skilledTask)] ++ steps 0 30 {}

end Retried

end FleetOrchestrator.Scheduler
