import FleetOrchestrator.Scheduler.SelectionConduct

/-! A dispatch, from the breaker to the hand-over, keeps to the discipline. -/

namespace FleetOrchestrator.Scheduler

open Core Store Transport Interleaving Dispatcher

/-- Keeping the discipline by minor operations only. -/
abbrev Prepares {α : Type} (D : Deployment) (p : ℕ) (a : Activity) (x : M α) (h : History) : Prop :=
  Keeps D p a (fun _ h' => Grew Minor h h') x h

abbrev Proceeds {α : Type} (D : Deployment) (p : ℕ) (a : Activity) (x : M α) (h : History) : Prop :=
  Keeps D p a (fun _ h' => h <:+ h') x h

section Rules

variable {α β : Type} {D : Deployment} {p : ℕ} {a : Activity} {h h' : History}

theorem prepares_ret (r : α) : Prepares D p a (.ret r : M α) h := Grew.refl h

theorem prepares_quiet {x : M α} (hu : Uses Quiet x) : Prepares D p a x h :=
  keeps_rest (.refl h) hu

theorem prepares_bind {x : M α} {f : α → M β} (hx : Prepares D p a x h)
    (hf : ∀ r h₁, Grew Minor h h₁ → Prepares D p a (f r) h₁) : Prepares D p a (x >>= f) h := by
  apply obeys_bind hx
  intro r h₁ hg
  apply obeys_conseq (hf r h₁ hg)
  intro _ _ hg'
  exact hg.trans hg'

theorem prepares_step {op : Op} {f : Resp op → M β} (ho : Licensed D p a h op) (hm : Minor op)
    (hf : ∀ r, Prepares D p a (f r) (⟨op, r⟩ :: h)) : Prepares D p a (call op >>= f) h := by
  apply keeps_step ho
  intro r
  apply obeys_conseq (hf r)
  intro _ _ hg
  exact .trans (.one hm) hg

theorem Prepares.proceeds {x : M α} (hx : Prepares D p a x h) : Proceeds D p a x h :=
  obeys_conseq hx fun _ _ hg => hg.suffix

theorem proceeds_ret (r : α) : Proceeds D p a (.ret r : M α) h := List.suffix_rfl

theorem proceeds_quiet {x : M α} (hu : Uses Quiet x) : Proceeds D p a x h :=
  (prepares_quiet hu).proceeds

theorem proceeds_bind {x : M α} {f : α → M β} (hx : Proceeds D p a x h)
    (hf : ∀ r h₁, h <:+ h₁ → Proceeds D p a (f r) h₁) : Proceeds D p a (x >>= f) h := by
  apply obeys_bind hx
  intro r h₁ hs
  apply obeys_conseq (hf r h₁ hs)
  intro _ _ hs'
  exact hs.trans hs'

theorem proceeds_step {op : Op} {f : Resp op → M β} (ho : Licensed D p a h op)
    (hf : ∀ r, Proceeds D p a (f r) (⟨op, r⟩ :: h)) : Proceeds D p a (call op >>= f) h := by
  apply keeps_step ho
  intro r
  apply obeys_conseq (hf r)
  intro _ _ hs
  exact (List.suffix_cons _ _).trans hs

end Rules

section Failing

variable {D : Deployment} {p : ℕ} {a : Activity} {h h' : History} {id : TaskId}
  {expected : List TaskPhase} {failure : TaskFailure}

theorem failure_grounds (hg : Grounds a h id expected (.failed failure)) (hs : h <:+ h') :
    Grounds a h' id expected (.failed failure) := by
  rcases hg with hg | ⟨he, hw, hv⟩
  · exact .inl hg
  · refine .inr ⟨he, fun w hf => (hw w hf).mono hs.subset, ?_⟩
    intro hk
    obtain ⟨w, sessionId, hf, hm⟩ := hv hk
    exact ⟨w, sessionId, hf, hm.imp (fun hm => hm.mono hs) fun hm => hm.mono hs⟩

theorem may_fail {q : TaskPhase} (he : expected = [.pending] ∨ expected = [.dispatched])
    (hq : q ∈ expected) : q.transitionAllowed .failed = true := by
  rcases he with rfl | rfl
  · cases List.mem_singleton.mp hq
    rfl
  · cases List.mem_singleton.mp hq
    rfl

theorem markFailed_prepares {origin : TransitionOrigin}
    (hg : Grounds a h id expected (.failed failure)) :
    Prepares D p a (markFailed id expected failure origin) h := by
  have he : expected = [.pending] ∨ expected = [.dispatched] := hg.imp And.left And.left
  refine prepares_step trivial rfl fun fence => ?_
  refine prepares_step ⟨⟨h, rfl⟩, fun q hq => may_fail he hq,
    failure_grounds hg (List.suffix_cons _ _)⟩ rfl fun outcome => ?_
  apply prepares_quiet
  rcases outcome with e | _ | current | _ | under
  · exact uses_ret _
  · exact uses_bind (appendEvent_quiet _) fun _ => uses_ret _
  · exact uses_ret _
  · exact uses_ret _
  · exact uses_ret _

theorem failPending_prepares {flag : Bool} (hk : failure.kind ≠ .executionVanished) :
    Prepares D p a (failPending flag id failure) h := by
  unfold failPending
  split
  · apply prepares_bind (markFailed_prepares (.inl ⟨rfl, hk⟩))
    intro failed h₁ _
    exact prepares_ret _
  · exact prepares_ret _

end Failing

section Recovery

variable {D : Deployment} {p : ℕ} {a : Activity} {h : History} {w : WorkerId}

/-- The last thing this activity did, some time after `h₀`, was to hear what `w` holds. -/
def JustHeard (w : WorkerId) (live : List SessionId) (h₀ h : History) : Prop :=
  ∃ h₁ connection, h₀ <:+ h₁ ∧ h = ⟨.acp (.askSessions w connection), .listed live false⟩ :: h₁

def Heard (w : WorkerId) (h₀ : History) (r : Except TransportError SessionInventory)
    (h : History) : Prop :=
  ∀ live, r = .ok (.reported live) → JustHeard w live h₀ h

theorem listSessions_heard (w : WorkerId) (timeoutSecs : ℕ) :
    Keeps D p a (Heard w h) (AcpTransport.listSessions w timeoutSecs) h := by
  have silent {r : Except TransportError SessionInventory} {h' : History}
      (hr : ∀ live, r ≠ .ok (.reported live)) : Keeps D p a (Heard w h) (.ret r) h' := by
    apply obeys_ret
    intro live hl
    exact absurd hl (hr live)
  refine keeps_step trivial fun client => ?_
  cases client with
  | none => exact silent (by simp)
  | some link =>
    refine keeps_step trivial fun state => ?_
    cases state with
    | connecting => exact silent (by simp)
    | disconnected => exact silent (by simp)
    | connected =>
      refine keeps_step trivial fun declared => ?_
      cases declared with
      | false => exact silent (by simp)
      | true =>
        refine keeps_step trivial fun connection => ?_
        cases connection with
        | none => exact silent (by simp)
        | some connection =>
          refine keeps_step trivial fun answered => ?_
          cases answered with
          | listed sessions more =>
            cases more with
            | true => exact silent (by simp [AcpTransport.paginated])
            | false =>
              apply obeys_ret
              intro live hl
              cases hl
              refine ⟨_, connection, ?_, rfl⟩
              exact ((List.suffix_cons _ _).trans (List.suffix_cons _ _)).trans
                ((List.suffix_cons _ _).trans (List.suffix_cons _ _))
          | refused message agentAnswer =>
            refine keeps_step trivial fun state => ?_
            split
            · exact silent (by simp)
            · exact silent (by simp)
          | timedOut => exact silent (by simp)

theorem listSessions_keeps (w : WorkerId) (timeoutSecs : ℕ) :
    Keeps D p a (fun r h' => Heard w h r h' ∧ Grew Quiet h h')
      (AcpTransport.listSessions w timeoutSecs) h :=
  obeys_grew (listSessions_heard w timeoutSecs) (quiet_of_mere (listSessions_mere w timeoutSecs))

theorem reapVanished_prepares {h₀ : History} {connection : ℕ} {live : List SessionId}
    {filter : TaskFilter} {tasks : List Task} (hf : ListsWorker w filter)
    (hb : ⟨.store (.listTasks filter), .ok tasks⟩ ::
      ⟨.acp (.askSessions w connection), .listed live false⟩ :: h₀ <:+ h) (rest : List Task)
    (hr : rest ⊆ tasks) : Prepares D p a (reapVanished w live rest) h := by
  induction rest generalizing h with
  | nil => exact prepares_ret _
  | cons task rest ih =>
    obtain ⟨hm, hr⟩ := List.cons_subset.mp hr
    unfold reapVanished
    cases hs : task.acpSessionId with
    | none => exact ih hb hr
    | some sessionId =>
      dsimp only
      split
      · exact ih hb hr
      · next hl =>
        have hmiss : sessionId ∉ live := by simpa using hl
        have hseen : SeenOn task.id w h :=
          .inr (.inr (.inl ⟨filter, tasks, task, hb.subset List.mem_cons_self, hf, hm, rfl⟩))
        have hg : Grounds a h task.id [.dispatched]
            (.failed (vanishedSessionFailure w sessionId)) := by
          refine .inr ⟨rfl, ?_, ?_⟩
          · intro v hv
            cases hv
            exact hseen
          · intro _
            exact ⟨w, sessionId, rfl,
              .inl ⟨h₀, connection, live, filter, tasks, task, hb, hf, hm, rfl, hs, hmiss⟩⟩
        apply prepares_bind (markFailed_prepares hg)
        intro failed h₁ hg₁
        exact ih (hb.trans hg₁.suffix) hr

theorem reapVanishedOnWorker_prepares {live : List SessionId} {h₀ : History}
    (hj : JustHeard w live h₀ h) : Prepares D p a (reapVanishedOnWorker w live) h := by
  obtain ⟨h₁, connection, -, rfl⟩ := hj
  refine prepares_step trivial rfl fun dispatched => ?_
  cases dispatched with
  | error e => exact prepares_ret _
  | ok tasks => exact reapVanished_prepares ⟨rfl, rfl⟩ List.suffix_rfl tasks (List.Subset.refl _)

theorem reapReported_prepares {inventory : SessionInventory} {h₀ : History}
    (hh : Heard w h₀ (.ok inventory) h) :
    Prepares D p a (reapReported w inventory) h := by
  cases inventory with
  | reported live => exact reapVanishedOnWorker_prepares (hh live rfl)
  | undeclared => exact prepares_ret _
  | refused message => exact prepares_ret _

theorem recoverWorker_prepares (cfg : ProcessConfig) (w : WorkerId) :
    Prepares D p a (recoverWorker cfg w) h := by
  apply obeys_bind (listSessions_keeps w workerRecoveryTimeout)
  rintro inventory h₁ ⟨hh, hg⟩
  apply obeys_conseq (Q := fun _ h' => Grew Minor h₁ h') _ fun _ _ hg' => (minor_of_grew hg).trans hg'
  cases inventory with
  | error e => exact prepares_ret _
  | ok inventory =>
    apply prepares_bind (reapReported_prepares hh)
    intro reaped h₂ _
    apply prepares_bind (prepares_quiet (quiet_of_mere (auditDecision_mere _ _ _ _)))
    intro audited h₃ _
    refine prepares_step trivial rfl fun inserted => ?_
    exact prepares_ret _

theorem ensureWorkerRecovered_prepares (cfg : ProcessConfig) (w : WorkerId) :
    Prepares D p a (ensureWorkerRecovered cfg w) h := by
  refine prepares_step trivial rfl fun generation => ?_
  refine prepares_step trivial rfl fun known => ?_
  split
  · exact prepares_ret _
  · exact recoverWorker_prepares cfg w

end Recovery

end FleetOrchestrator.Scheduler
