import FleetOrchestrator.Scheduler.System

/-! All that one step of the deployment can do to each part of the world. -/

namespace FleetOrchestrator.Scheduler

open Core Store Transport Interleaving Machine

def World.row (w : World) (id : TaskId) : Option Task := w.store.tasks.get id

def World.transport (w : World) (p : ℕ) : TransportState := (w.process p).transport

section Exec

variable {D : Deployment} {ch : Choice} {p : ℕ} {w w' : World}

theorem exec_store {o : StoreOp} {r : o.Reply}
    (h : exec D ch p (.store o) w = some (r, w')) :
    r = (D.backend.answer ch.fault ch.order w.store o).1 ∧
      w' = w.withStore (D.backend.answer ch.fault ch.order w.store o).2 := by
  cases h
  exact ⟨rfl, rfl⟩

theorem exec_process {o : ProcessOp} {r : o.Answer}
    (h : exec D ch p (.process o) w = some (r, w')) :
    r = ((w.process p).perform (D.process p) w.store.now o).1 ∧
      w' = w.setProcess p ((w.process p).perform (D.process p) w.store.now o).2 := by
  cases h
  exact ⟨rfl, rfl⟩

theorem exec_acp {o : AcpOp} {r : o.Answer} (h : exec D ch p (.acp o) w = some (r, w')) :
    ∃ w₁ t, hostEffect ch.acp w o = some w₁ ∧
      (w.transport p).perform ch.acp w.host o = some (r, t) ∧
      w' = w₁.setProcess p (setTransport (w.process p) t) := by
  simp only [exec, Option.bind_eq_some_iff, Option.map_eq_some_iff] at h
  obtain ⟨w₁, hh, ⟨r', t⟩, ht, he⟩ := h
  cases he
  exact ⟨w₁, t, hh, ht, rfl⟩

theorem exec_readSkill {file : String} {r : SkillFile}
    (h : exec D ch p (.readSkill file) w = some (r, w')) : w' = w := by
  cases h
  rfl

theorem hostEffect_cases {a : AcpChoice} {o : AcpOp} (h : hostEffect a w o = some w') :
    w' = w ∨ ∃ v connection cwd s u, o = .newSession v connection cwd ∧ a.newSession = .opened s ∧
      (w.host v).openSession s = some u ∧ w' = w.setHost v u := by
  cases o with
  | newSession v connection cwd =>
    simp only [hostEffect] at h
    cases hn : a.newSession with
    | opened s =>
      rw [hn] at h
      obtain ⟨u, hu, rfl⟩ := Option.map_eq_some_iff.mp h
      exact .inr ⟨v, connection, cwd, s, u, rfl, rfl, hu, rfl⟩
    | refused m =>
      rw [hn] at h
      cases h
      exact .inl rfl
    | timedOut =>
      rw [hn] at h
      cases h
      exact .inl rfl
  | _ =>
    cases h
    exact .inl rfl

theorem hostEffect_rest {a : AcpChoice} {o : AcpOp} (h : hostEffect a w o = some w') :
    w'.store = w.store ∧ w'.process = w.process ∧ w'.minted = w.minted := by
  rcases hostEffect_cases h with rfl | ⟨v, -, -, -, u, -, -, -, rfl⟩
  · exact ⟨rfl, rfl, rfl⟩
  · exact ⟨rfl, rfl, rfl⟩

/-- Only a store call touches the store, and none mints an id. -/
theorem exec_frame {op : Op} {r : Resp op} (h : exec D ch p op w = some (r, w')) :
    w'.minted = w.minted ∧ ((∀ o, op ≠ .store o) → w'.store = w.store) := by
  cases op with
  | store o =>
    obtain ⟨-, rfl⟩ := exec_store h
    exact ⟨rfl, fun hn => absurd rfl (hn o)⟩
  | process o =>
    obtain ⟨-, rfl⟩ := exec_process h
    exact ⟨rfl, fun _ => rfl⟩
  | acp o =>
    obtain ⟨w₁, t, hh, -, rfl⟩ := exec_acp h
    obtain ⟨hs, -, hm⟩ := hostEffect_rest hh
    exact ⟨hm, fun _ => hs⟩
  | readSkill file =>
    obtain rfl := exec_readSkill h
    exact ⟨rfl, fun _ => rfl⟩

theorem mint_eq {t : Task} (h : w.mint t = some w') :
    IsNew t ∧ t.id ∉ w.minted ∧ w' = { w with minted := t.id :: w.minted } := by
  unfold World.mint at h
  split at h
  · next hn =>
    cases h
    exact ⟨hn.1, hn.2, rfl⟩
  · cases h

end Exec

variable {D : Deployment} {c c' : FleetConfig} {x : FleetAction}

inductive RowChange (D : Deployment) (c c' : FleetConfig) (id : TaskId) : FleetAction → Prop
  | kept (x : FleetAction) (h : c'.state.row id = c.state.row id) : RowChange D c c' id x
  | called (i : ℕ) (ch : Choice) (o : StoreOp) (r : (fleet D).Ran c c' i ch (.store o))
      (h : RowEffect D.backend c.state.store id o r.resp (c.state.row id) (c'.state.row id)) :
      RowChange D c c' id (.run i ch)
  | inserted (t : Task) (hi : t.id = id) (hn : IsNew t) (hm : id ∉ c.state.minted)
      (h : c'.state.row id = some t) : RowChange D c c' id (.env (.insertPending t))

theorem accept_frame {p : ℕ} {a : Activity} {w w' : World} (h : accept p a w = some w') :
    w'.store = w.store ∧ w'.host = w.host ∧
      (w'.minted = w.minted ∨ ∃ t, a = .submit t ∧ IsNew t ∧ t.id ∉ w.minted ∧
        w'.minted = t.id :: w.minted) := by
  cases a with
  | submit t =>
    obtain ⟨hn, hm, rfl⟩ := mint_eq h
    exact ⟨rfl, rfl, .inr ⟨t, rfl, hn, hm, rfl⟩⟩
  | workerEvent e =>
    obtain ⟨t, -, rfl⟩ := Option.map_eq_some_iff.mp h
    exact ⟨rfl, rfl, .inl rfl⟩
  | connectionEnded link =>
    obtain ⟨t, -, rfl⟩ := Option.map_eq_some_iff.mp h
    exact ⟨rfl, rfl, .inl rfl⟩
  | prompt => cases h
  | cancel | reconcile | deleteTask | acquireLease | renewLease | releaseLease | unregister =>
    cases h
    exact ⟨rfl, rfl, .inl rfl⟩

theorem disturb_tasks {e : Disturbance} {w w' : World} (h : disturb e w = some w') :
    w'.store.tasks = w.store.tasks ∨ ∃ t, e = .insertPending t ∧ IsNew t ∧ t.id ∉ w.minted ∧
      w'.store.tasks = (withTask w.store t).tasks ∧ w'.minted = t.id :: w.minted := by
  cases e with
  | insertPending t =>
    obtain ⟨w₁, hm, rfl⟩ := Option.map_eq_some_iff.mp h
    obtain ⟨hn, hf, rfl⟩ := mint_eq hm
    exact .inr ⟨t, rfl, hn, hf, rfl, rfl⟩
  | elapse | setWorkers | setAgents | setCredentials | setTemplates | resetBreaker | notify
  | subscribe | loseSession | resumeSession =>
    cases h
    exact .inl rfl
  | register | connecting | established | consume | pump | openSession =>
    obtain ⟨_, -, rfl⟩ := Option.map_eq_some_iff.mp h
    exact .inl rfl

theorem disturb_rest {e : Disturbance} {w w' : World} (h : disturb e w = some w') :
    w.minted ⊆ w'.minted ∧ w'.store.controlLeases = w.store.controlLeases ∧
      w.store.now ≤ w'.store.now := by
  cases e with
  | elapse d =>
    cases h
    refine ⟨List.Subset.refl _, rfl, ?_⟩
    change w.store.now ≤ w.store.now + d
    omega
  | insertPending t =>
    obtain ⟨w₁, hm, rfl⟩ := Option.map_eq_some_iff.mp h
    obtain ⟨-, -, rfl⟩ := mint_eq hm
    exact ⟨List.subset_cons_self _ _, rfl, Int.le_refl _⟩
  | setWorkers | setAgents | setCredentials | setTemplates | resetBreaker | notify | subscribe
  | loseSession | resumeSession =>
    cases h
    exact ⟨List.Subset.refl _, rfl, Int.le_refl _⟩
  | register | connecting | established | consume | pump | openSession =>
    obtain ⟨_, -, rfl⟩ := Option.map_eq_some_iff.mp h
    exact ⟨List.Subset.refl _, rfl, Int.le_refl _⟩

/-- The operation a thread does, as the world sees it. -/
theorem ran_exec {i : ℕ} {ch : Choice} {op : Op} (r : (fleet D).Ran c c' i ch op) :
    exec D ch r.party op c.state = some (r.resp, c'.state) := r.done

theorem ran_store {i : ℕ} {ch : Choice} {op : Op} (r : (fleet D).Ran c c' i ch op)
    (hn : ∀ o, op ≠ .store o) : c'.state.store = c.state.store := (exec_frame (ran_exec r)).2 hn

theorem row_change (hs : (fleet D).step c x = some c') (id : TaskId) : RowChange D c c' id x := by
  cases x with
  | start p a =>
    obtain ⟨ha, -, -⟩ := step_start hs
    apply RowChange.kept
    have h := (accept_frame ha).1
    rw [World.row, h]
    rfl
  | run i ch =>
    obtain ⟨op, ⟨r⟩⟩ := step_run hs
    cases op with
    | store o =>
      obtain ⟨hr, hw⟩ := exec_store (ran_exec r)
      apply RowChange.called i ch o r
      rw [hr, hw]
      exact answer_effect ch.fault o
    | process | acp | readSkill =>
      apply RowChange.kept
      have h := ran_store r (by intro o hc; cases hc)
      rw [World.row, h]
      rfl
  | env e =>
    obtain ⟨he, -, -⟩ := step_env hs
    rcases disturb_tasks he with h | ⟨t, rfl, hn, hm, ht, -⟩
    · apply RowChange.kept
      rw [World.row, h]
      rfl
    · by_cases hi : t.id = id
      · apply RowChange.inserted t hi hn (hi ▸ hm)
        rw [World.row, ht, get_withTask, if_pos hi.symm]
      · apply RowChange.kept
        rw [World.row, ht, get_withTask, if_neg (Ne.symm hi)]
        rfl

theorem minted_step (hs : (fleet D).step c x = some c') : c.state.minted ⊆ c'.state.minted := by
  cases x with
  | start p a =>
    rcases (accept_frame (step_start hs).1).2.2 with h | ⟨t, -, -, -, h⟩
    · rw [h]
      exact List.Subset.refl _
    · rw [h]
      exact List.subset_cons_self _ _
  | run i ch =>
    obtain ⟨op, ⟨r⟩⟩ := step_run hs
    rw [(exec_frame (ran_exec r)).1]
    exact List.Subset.refl _
  | env e => exact (disturb_rest (step_env hs).1).1

/-- The clock does not go back, and a lease row only moves as a lease call moves it. -/
theorem lease_step (hs : (fleet D).step c x = some c') (k : String) :
    RowStep c.state.store.now (c.state.store.controlLeases.get k)
        (c'.state.store.controlLeases.get k) ∧
      c.state.store.now ≤ c'.state.store.now := by
  have kept (hl : c'.state.store.controlLeases = c.state.store.controlLeases)
      (hn : c.state.store.now ≤ c'.state.store.now) :
      RowStep c.state.store.now (c.state.store.controlLeases.get k)
          (c'.state.store.controlLeases.get k) ∧
        c.state.store.now ≤ c'.state.store.now := by
    rw [hl]
    exact ⟨.same _, hn⟩
  cases x with
  | start p a =>
    have h := (accept_frame (step_start hs).1).1
    apply kept
    · rw [h]
    · rw [h]
  | run i ch =>
    obtain ⟨op, ⟨r⟩⟩ := step_run hs
    cases op with
    | store o =>
      obtain ⟨-, hw⟩ := exec_store (ran_exec r)
      have h := answer_lease (b := D.backend) (o := ch.order) (s := c.state.store) ch.fault k o
      rw [hw]
      exact ⟨h.1, Int.le_of_eq h.2.symm⟩
    | process | acp | readSkill =>
      have h := ran_store r (by intro o hc; cases hc)
      apply kept
      · rw [h]
      · rw [h]
  | env e =>
    obtain ⟨-, hl, hn⟩ := disturb_rest (step_env hs).1
    exact kept hl hn

end FleetOrchestrator.Scheduler
