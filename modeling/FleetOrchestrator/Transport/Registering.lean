import FleetOrchestrator.Interleaving.Discipline
import FleetOrchestrator.Transport.Registry

/-! Which supervisors are left running once the calls that register and unregister a worker have
returned. -/

namespace FleetOrchestrator.Transport

open Core Interleaving

section Conduct

/-- What a registration has done once its supervisor is spawned. -/
def spawnedBy (w : WorkerId) (endpoint : String) (n i : ℕ) : RegistryHistory :=
  [⟨.spawnSupervisor w endpoint (max n 1), i⟩, ⟨.buildConnector endpoint, .ok ()⟩,
    ⟨.containsKey w, false⟩]

def removedBy (w : WorkerId) (i : ℕ) : RegistryHistory :=
  [⟨.sendShutdown i, ()⟩, ⟨.removeClient w, some i⟩]

/-- The operations that bear on neither the clients nor the supervisors. -/
def RegistryOp.bystander : RegistryOp → Bool
  | getClient _ | readState _ | tryAcquirePermit _ | releasePermit _ | cloneConnection _ => true
  | _ => false

/-- What a call may do next, after what it has done. -/
inductive Due : RegistryCall → RegistryHistory → RegistryOp → Prop
  | containsKey (w : WorkerId) (e : String) (n : ℕ) : Due (.register w e n) [] (.containsKey w)
  | buildConnector (w : WorkerId) (e : String) (n : ℕ) :
    Due (.register w e n) [⟨.containsKey w, false⟩] (.buildConnector e)
  | spawnSupervisor (w : WorkerId) (e : String) (n : ℕ) :
    Due (.register w e n) [⟨.buildConnector e, .ok ()⟩, ⟨.containsKey w, false⟩]
      (.spawnSupervisor w e (max n 1))
  | storeHandle (w : WorkerId) (e : String) (n i : ℕ) :
    Due (.register w e n) (spawnedBy w e n i) (.storeHandle i)
  | insertClient (w : WorkerId) (e : String) (n i : ℕ) :
    Due (.register w e n) (⟨.storeHandle i, ()⟩ :: spawnedBy w e n i) (.insertClient w i)
  | awaitFirstResult (w : WorkerId) (e : String) (n i : ℕ) (h : RegistryHistory) :
    Due (.register w e n) h (.awaitFirstResult i)
  | removeClient (w : WorkerId) : Due (.unregister w) [] (.removeClient w)
  | sendShutdown (w : WorkerId) (i : ℕ) (h : RegistryHistory) :
    Due (.unregister w) h (.sendShutdown i)
  | takeHandle (w : WorkerId) (i : ℕ) : Due (.unregister w) (removedBy w i) (.takeHandle i)
  | awaitEnd (w : WorkerId) (i : ℕ) :
    Due (.unregister w) (⟨.takeHandle i, true⟩ :: removedBy w i) (.awaitEnd i)
  | bystander (w : WorkerId) (t : TaskId) (h : RegistryHistory) {op : RegistryOp}
    (ho : op.bystander = true) : Due (.dispatch w t) h op

/-- What a call that has returned leaves behind. -/
def Finished (h : RegistryHistory) : RegistryCall → Prop
  | .register w _ _ => ∀ v e n i, (⟨.spawnSupervisor v e n, i⟩ : Entry _ _) ∈ h →
    (⟨.insertClient w i, ()⟩ : Entry RegistryOp RegistryOp.Resp) ∈ h
  | .unregister w => ∀ i, (⟨.removeClient w, some i⟩ : Entry RegistryOp RegistryOp.Resp) ∈ h →
    (⟨.takeHandle i, false⟩ : Entry RegistryOp RegistryOp.Resp) ∈ h ∨
      ∃ b, (⟨.awaitEnd i, b⟩ : Entry RegistryOp RegistryOp.Resp) ∈ h
  | .dispatch _ _ => True

theorem register_due (w : WorkerId) (e : String) (n : ℕ) :
    Obeys (Due (.register w e n)) (fun _ h => Finished h (.register w e n)) (register w e n)
      [] := by
  refine obeys_call (.containsKey w e n) fun known => ?_
  cases known with
  | true => exact obeys_ret (by simp [Finished])
  | false =>
    refine obeys_call (.buildConnector w e n) fun built => ?_
    cases built with
    | error err => exact obeys_ret (by simp [Finished])
    | ok u =>
      refine obeys_call (.spawnSupervisor w e n) fun i =>
        obeys_call (.storeHandle w e n i) fun _ => obeys_call (.insertClient w e n i) fun _ =>
          obeys_call (.awaitFirstResult w e n i _) fun outcome => ?_
      have hdone : ∀ r, Finished (⟨.awaitFirstResult i, r⟩ :: ⟨.insertClient w i, ()⟩ ::
          ⟨.storeHandle i, ()⟩ :: spawnedBy w e n i) (.register w e n) := by
        intro r v e' n' j hj
        simp only [spawnedBy, List.mem_cons, List.not_mem_nil, or_false] at hj
        obtain h | h | h | h | h | h := hj <;> cases h
        simp
      match outcome with
      | none => exact obeys_ret (hdone _)
      | some (.error err) => exact obeys_ret (hdone _)
      | some (.ok u) => exact obeys_ret (hdone _)

theorem unregister_due (w : WorkerId) :
    Obeys (Due (.unregister w)) (fun _ h => Finished h (.unregister w)) (unregister w) [] := by
  refine obeys_call (.removeClient w) fun found => ?_
  cases found with
  | none => exact obeys_ret (by simp [Finished])
  | some i =>
    refine obeys_call (.sendShutdown w i _) fun _ => obeys_call (.takeHandle w i) fun kept => ?_
    cases kept with
    | false =>
      apply obeys_ret
      intro j hj
      simp only [List.mem_cons, List.not_mem_nil, or_false] at hj
      obtain h | h | h := hj <;> cases h
      simp
    | true =>
      refine obeys_call (.awaitEnd w i) fun b => obeys_ret ?_
      intro j hj
      simp only [List.mem_cons, List.not_mem_nil, or_false] at hj
      obtain h | h | h | h := hj <;> cases h
      exact .inr ⟨b, by simp⟩

theorem dispatch_due (w : WorkerId) (t : TaskId) :
    Obeys (Due (.dispatch w t)) (fun _ _ => True) (reachConnection w t) [] := by
  have huses : Uses (fun op => op.bystander = true) (reachConnection w t) := by
    refine uses_call rfl fun found => ?_
    cases found with
    | none => exact uses_ret _
    | some i =>
      refine uses_call rfl fun state => ?_
      cases state with
      | connecting => exact uses_ret _
      | disconnected => exact uses_ret _
      | connected =>
        refine uses_call rfl fun permit => ?_
        cases permit with
        | false => exact uses_ret _
        | true =>
          refine uses_call rfl fun connection => ?_
          cases connection with
          | none => exact uses_call rfl fun _ => uses_ret _
          | some n => exact uses_ret _
  exact obeys_conseq (obeys_of_uses huses fun h _ ho => .bystander w t h ho) fun _ _ _ => trivial

theorem registry_disciplined :
    registry.Disciplined (fun _ => Due) fun _ call _ h => Finished h call := by
  intro p call
  cases call with
  | register w e n => exact register_due w e n
  | unregister w => exact unregister_due w
  | dispatch w t => exact dispatch_due w t

end Conduct

section Steps

variable {c₀ c c' : RegistryConfig} {x : RegistryAction} {t i : ℕ} {w : WorkerId} {op : RegistryOp}
  {cond : RegistryConfig → RegistryAction → Prop}

/-- The thread has done this operation, with this answer. -/
def Did (c : RegistryConfig) (t : ℕ) (op : RegistryOp) (r : op.Resp) : Prop :=
  (⟨op, r⟩ : Entry RegistryOp RegistryOp.Resp) ∈ history c.log t

theorem did_keeps {r : op.Resp} (hs : registry.step c x = some c') (h : Did c t op r) :
    Did c' t op r :=
  (history_suffix (Machine.step_log hs) t).subset h

theorem did_step {r : op.Resp} (hs : registry.step c x = some c') (h : Did c' t op r) :
    Did c t op r ∨
      ∃ ch, x = .run t ch ∧ ∃ ran : registry.Ran c c' t ch op, ran.resp = r := by
  unfold Did at h ⊢
  cases x with
  | start p call =>
    rw [(Machine.step_start hs).2.2] at h
    exact .inl h
  | env e =>
    rw [(Machine.step_env hs).2.2] at h
    exact .inl h
  | run t' ch =>
    obtain ⟨op', ⟨ran⟩⟩ := Machine.step_run hs
    by_cases ht : t' = t
    · subst ht
      rw [ran.after.2, List.mem_cons] at h
      obtain he | h := h
      · cases he
        exact .inr ⟨ch, rfl, ran, rfl⟩
      · exact .inl h
    · rw [ran.log, history_cons_ne _ ht] at h
      exact .inl h

/-- Every operation was due when it was done. -/
theorem did_due {r : op.Resp} (h₀ : Machine.Fresh c₀) (h : registry.Reaches cond c₀ c)
    (hd : Did c t op r) : ∃ thread : Thread _ _ _ _ _, c.threads[t]? = some thread ∧
      ∃ past, (⟨op, r⟩ :: past : RegistryHistory) <:+ history c.log t ∧
        Due thread.act past op := by
  obtain ⟨later, past, he⟩ := List.append_of_mem hd
  have hsuf : (⟨op, r⟩ :: past : RegistryHistory) <:+ history c.log t := ⟨later, he.symm⟩
  obtain ⟨c₁, c₂, ch, ran, -, hpast, h₁, h₂, h₃⟩ := h.at_history h₀ hsuf
  have hdue := ran.licensed registry_disciplined h₀ h₁
  obtain ⟨thread, ht, -, hact⟩ := (h₂.trans h₃).thread ran.was
  refine ⟨thread, ht, past, hsuf, ?_⟩
  rw [hact, ← hpast]
  exact hdue

theorem put_spec (h₀ : Machine.Fresh c₀) (h : registry.Reaches cond c₀ c)
    (hd : Did c t (.insertClient w i) ()) : ∃ thread e n, c.threads[t]? = some thread ∧
      thread.act = .register w e n ∧ Did c t (.spawnSupervisor w e (max n 1)) i ∧
      Did c t (.storeHandle i) () := by
  obtain ⟨⟨p, call, prog⟩, ht, past, hsuf, hdue⟩ := did_due h₀ h hd
  cases hdue with
  | insertClient w e n i =>
    refine ⟨_, e, n, ht, rfl, hsuf.subset ?_, hsuf.subset ?_⟩
    · simp [spawnedBy]
    · simp
  | bystander v t past ho => cases ho

theorem took_spec {b : Bool} (h₀ : Machine.Fresh c₀) (h : registry.Reaches cond c₀ c)
    (hd : Did c t (.takeHandle i) b) : ∃ w, Did c t (.removeClient w) (some i) := by
  obtain ⟨⟨p, call, prog⟩, ht, past, hsuf, hdue⟩ := did_due h₀ h hd
  cases hdue with
  | takeHandle w i =>
    refine ⟨w, hsuf.subset ?_⟩
    simp [removedBy]
  | bystander v t past ho => cases ho

/-- A session keeps its worker and its endpoint, and stays ended. -/
structure SupervisedSession.Kept (y y' : SupervisedSession) : Prop where
  workerId : y'.workerId = y.workerId
  endpoint : y'.endpoint = y.endpoint
  ended : y.running = false → y'.running = false

theorem turn_kept {y y' : SupervisedSession} {e : SupervisorEvent} (h : y.turn e = some y') :
    y.Kept y' ∧ y'.supervisor = y.supervisor := by
  unfold SupervisedSession.turn at h
  split at h
  case h_5 =>
    split at h <;> simp only [Option.some.injEq, Option.ite_none_right_eq_some, reduceCtorEq] at h
    · obtain ⟨-, rfl⟩ := h
      exact ⟨⟨rfl, rfl, by simp_all [SupervisedSession.running]⟩, rfl⟩
    · subst h
      exact ⟨⟨rfl, rfl, by simp_all [SupervisedSession.running]⟩, rfl⟩
    · subst h
      exact ⟨⟨rfl, rfl, by simp_all [SupervisedSession.running]⟩, rfl⟩
    · subst h
      exact ⟨⟨rfl, rfl, by simp_all [SupervisedSession.running]⟩, rfl⟩
    · obtain ⟨-, rfl⟩ := h
      exact ⟨⟨rfl, rfl, fun _ => rfl⟩, rfl⟩
  all_goals
    simp only [Option.ite_none_right_eq_some, Option.some.injEq] at h
    obtain ⟨hp, rfl⟩ := h
    exact ⟨⟨rfl, rfl, by simp [SupervisedSession.running, hp]⟩, rfl⟩

/-- What an operation can do to the sessions and the clients. -/
inductive Touched (op : RegistryOp) : RegistryState → RegistryState → Prop
  | same (s : RegistryState) : Touched op s s
  | one (s : RegistryState) (j : ℕ) {f : SupervisedSession → SupervisedSession}
    (kept : ∀ y : SupervisedSession, y.Kept (f y))
    (handle : ∀ y : SupervisedSession, y.supervisor = true →
      (f y).supervisor = true ∨ op = .takeHandle j) : Touched op s (s.updateSession j f)
  | grown (s : RegistryState) {w : WorkerId} {e : String} {n : ℕ}
    (spawns : op = .spawnSupervisor w e n) :
    Touched op s { s with sessions := s.sessions ++ [.new w e n] }
  | entered (s : RegistryState) {w : WorkerId} {i : ℕ} (inserts : op = .insertClient w i) :
    Touched op s (s.setClient w (some i))
  | left (s : RegistryState) {w : WorkerId} (removes : op = .removeClient w) :
    Touched op s (s.setClient w none)

theorem exec_touched {ch : RegistryChoice} {s s' : RegistryState} {r : op.Resp}
    (h : op.exec ch s = some (r, s')) : Touched op s s' := by
  cases op with
  | spawnSupervisor w e n =>
    obtain ⟨-, rfl⟩ := Prod.mk.inj (Option.some.inj h)
    exact .grown _ rfl
  | storeHandle j =>
    obtain ⟨-, rfl⟩ := Prod.mk.inj (Option.some.inj h)
    exact .one _ j (fun _ => ⟨rfl, rfl, fun h => h⟩) fun _ _ => .inl rfl
  | sendShutdown j =>
    obtain ⟨-, rfl⟩ := Prod.mk.inj (Option.some.inj h)
    exact .one _ j (fun _ => ⟨rfl, rfl, fun h => h⟩) fun _ => .inl
  | releasePermit j =>
    obtain ⟨-, rfl⟩ := Prod.mk.inj (Option.some.inj h)
    exact .one _ j (fun _ => ⟨rfl, rfl, fun h => h⟩) fun _ => .inl
  | takeHandle j =>
    simp only [RegistryOp.exec] at h
    split at h
    · cases h
    · obtain ⟨-, rfl⟩ := Prod.mk.inj (Option.some.inj h)
      exact .one _ j (fun _ => ⟨rfl, rfl, fun h => h⟩) fun _ _ => .inr rfl
  | tryAcquirePermit j =>
    simp only [RegistryOp.exec] at h
    split at h
    · cases h
    · split at h
      · obtain ⟨-, rfl⟩ := Prod.mk.inj (Option.some.inj h)
        exact .one _ j (fun _ => ⟨rfl, rfl, fun h => h⟩) fun _ => .inl
      · obtain ⟨-, rfl⟩ := Prod.mk.inj (Option.some.inj h)
        exact .same _
  | awaitFirstResult j =>
    simp only [RegistryOp.exec] at h
    split at h
    · cases h
    · obtain ⟨-, h⟩ := Option.ite_none_right_eq_some.mp h
      obtain ⟨-, rfl⟩ := Prod.mk.inj (Option.some.inj h)
      exact .same _
  | awaitEnd j =>
    simp only [RegistryOp.exec] at h
    split at h
    · obtain ⟨-, rfl⟩ := Prod.mk.inj (Option.some.inj h)
      exact .same _
    · obtain ⟨-, h⟩ := Option.ite_none_right_eq_some.mp h
      obtain ⟨-, rfl⟩ := Prod.mk.inj (Option.some.inj h)
      exact .same _
  | readState j =>
    obtain ⟨z, -, h⟩ := Option.map_eq_some_iff.mp h
    obtain ⟨-, rfl⟩ := Prod.mk.inj h
    exact .same _
  | cloneConnection j =>
    obtain ⟨z, -, h⟩ := Option.map_eq_some_iff.mp h
    obtain ⟨-, rfl⟩ := Prod.mk.inj h
    exact .same _
  | insertClient w i =>
    obtain ⟨-, rfl⟩ := Prod.mk.inj (Option.some.inj h)
    exact .entered _ rfl
  | removeClient w =>
    obtain ⟨-, rfl⟩ := Prod.mk.inj (Option.some.inj h)
    exact .left _ rfl
  | _ =>
    obtain ⟨-, rfl⟩ := Prod.mk.inj (Option.some.inj h)
    exact .same _

theorem touched_kept {s s' : RegistryState} {y : SupervisedSession} (h : Touched op s s')
    (hy : s.sessions[i]? = some y) : ∃ y', s'.sessions[i]? = some y' ∧ y.Kept y' ∧
      (y.supervisor = true → y'.supervisor = true ∨ op = .takeHandle i) := by
  cases h with
  | one j kept handle =>
    rw [RegistryState.updateSession, List.getElem?_modify, hy, Option.map_eq_map, Option.map_some]
    by_cases hj : j = i
    · subst hj
      rw [if_pos rfl]
      exact ⟨_, rfl, kept y, handle y⟩
    · rw [if_neg hj]
      exact ⟨y, rfl, ⟨rfl, rfl, fun h => h⟩, .inl⟩
  | grown spawns =>
    rw [List.getElem?_append_left (List.getElem?_eq_some_iff.mp hy).1]
    exact ⟨y, hy, ⟨rfl, rfl, fun h => h⟩, .inl⟩
  | _ => exact ⟨y, hy, ⟨rfl, rfl, fun h => h⟩, .inl⟩

theorem touched_new {s s' : RegistryState} {y : SupervisedSession} (h : Touched op s s')
    (hn : s.sessions[i]? = none) (hy : s'.sessions[i]? = some y) :
    ∃ w e n, op = .spawnSupervisor w e n ∧ y = .new w e n ∧ i = s.sessions.length := by
  have hlen : s.sessions.length ≤ i := List.getElem?_eq_none_iff.mp hn
  have hi : i < s'.sessions.length := (List.getElem?_eq_some_iff.mp hy).1
  cases h with
  | one j kept handle =>
    rw [RegistryState.updateSession, List.length_modify] at hi
    omega
  | @grown w e n spawns =>
    rw [List.length_append, List.length_singleton] at hi
    rw [List.getElem?_append_right hlen] at hy
    exact ⟨w, e, n, spawns, List.mem_singleton.mp (List.mem_of_getElem? hy), by omega⟩
  | same => omega
  | entered inserts =>
    change i < s.sessions.length at hi
    omega
  | left removes =>
    change i < s.sessions.length at hi
    omega

theorem touched_clients {s s' : RegistryState} (h : Touched op s s') :
    s'.clients = s.clients ∨ (∃ w i, op = .insertClient w i) ∨ ∃ w, op = .removeClient w := by
  cases h with
  | @entered w i inserts => exact .inr (.inl ⟨w, i, inserts⟩)
  | @left w removes => exact .inr (.inr ⟨w, removes⟩)
  | _ => exact .inl rfl

theorem event_kept {s s' : RegistryState} {e : RegistryEvent} {y : SupervisedSession}
    (h : e.apply s = some s') (hy : s.sessions[i]? = some y) :
    ∃ y', s'.sessions[i]? = some y' ∧ y.Kept y' ∧ y'.supervisor = y.supervisor := by
  cases e with
  | supervisor j ev =>
    simp only [RegistryEvent.apply] at h
    split at h
    · cases h
    next z hz =>
      obtain ⟨z', hturn, rfl⟩ := Option.map_eq_some_iff.mp h
      by_cases hj : j = i
      · subst hj
        rw [hz] at hy
        cases hy
        refine ⟨z', ?_, turn_kept hturn⟩
        exact List.getElem?_set_self (List.getElem?_eq_some_iff.mp hz).1
      · refine ⟨y, ?_, ⟨rfl, rfl, fun h => h⟩, rfl⟩
        rw [List.getElem?_set_ne hj]
        exact hy
  | promptEnded j =>
    obtain rfl := Option.some.inj h
    refine ⟨if j = i then { y with permits := y.permits + 1 } else y, ?_, ?_⟩
    · simp [RegistryState.updateSession, List.getElem?_modify, hy]
    · split
      · exact ⟨⟨rfl, rfl, fun h => h⟩, rfl⟩
      · exact ⟨⟨rfl, rfl, fun h => h⟩, rfl⟩

theorem event_besides {s s' : RegistryState} {e : RegistryEvent} (h : e.apply s = some s') :
    s'.sessions.length = s.sessions.length ∧ s'.clients = s.clients := by
  cases e with
  | supervisor j ev =>
    simp only [RegistryEvent.apply] at h
    split at h
    · cases h
    · obtain ⟨z', hturn, rfl⟩ := Option.map_eq_some_iff.mp h
      exact ⟨List.length_set .., rfl⟩
  | promptEnded j =>
    obtain rfl := Option.some.inj h
    exact ⟨List.length_modify .., rfl⟩

/-- Until it is taken, the handle stays with its session. -/
theorem session_kept (hs : registry.step c x = some c') {y : SupervisedSession}
    (hy : c.state.sessions[i]? = some y) :
    ∃ y', c'.state.sessions[i]? = some y' ∧ y.Kept y' ∧
      (y.supervisor = true → y'.supervisor = true ∨
        ∃ t ch, x = .run t ch ∧ Nonempty (registry.Ran c c' t ch (.takeHandle i))) := by
  cases x with
  | start p call =>
    have hsame : c.state = c'.state := Option.some.inj (Machine.step_start hs).1
    rw [hsame] at hy
    exact ⟨y, hy, ⟨rfl, rfl, fun h => h⟩, .inl⟩
  | env e =>
    obtain ⟨y', hy', hkept, hsup⟩ := event_kept (Machine.step_env hs).1 hy
    exact ⟨y', hy', hkept, fun h => .inl (hsup.trans h)⟩
  | run t ch =>
    obtain ⟨op, ⟨ran⟩⟩ := Machine.step_run hs
    obtain ⟨y', hy', hkept, hsup⟩ := touched_kept (exec_touched ran.done) hy
    refine ⟨y', hy', hkept, fun h => (hsup h).imp_right ?_⟩
    rintro rfl
    exact ⟨t, ch, rfl, ⟨ran⟩⟩

/-- New sessions come from registrations only. -/
theorem session_new (hs : registry.step c x = some c') {y : SupervisedSession}
    (hn : c.state.sessions[i]? = none) (hy : c'.state.sessions[i]? = some y) :
    ∃ t ch w e n, y = .new w e n ∧
      ∃ ran : registry.Ran c c' t ch (.spawnSupervisor w e n), ran.resp = i := by
  have hlen : c.state.sessions.length ≤ i := List.getElem?_eq_none_iff.mp hn
  have hi : i < c'.state.sessions.length := (List.getElem?_eq_some_iff.mp hy).1
  cases x with
  | start p call =>
    have hsame : c.state = c'.state := Option.some.inj (Machine.step_start hs).1
    rw [hsame] at hlen
    omega
  | env e =>
    have hsame := (event_besides (Machine.step_env hs).1).1
    omega
  | run t ch =>
    obtain ⟨op, ⟨ran⟩⟩ := Machine.step_run hs
    obtain ⟨w, e, n, rfl, rfl, hlast⟩ := touched_new (exec_touched ran.done) hn hy
    obtain ⟨hr, -⟩ := Prod.mk.inj (Option.some.inj ran.done)
    exact ⟨t, ch, w, e, n, rfl, ran, hr.symm.trans hlast.symm⟩

theorem inserted {ch : RegistryChoice} (ran : registry.Ran c c' t ch (.insertClient w i)) :
    c'.state = c.state.setClient w (some i) :=
  (Prod.mk.inj (Option.some.inj ran.done)).2.symm

theorem removed {ch : RegistryChoice} (ran : registry.Ran c c' t ch (.removeClient w)) :
    ran.resp = c.state.clients w ∧ c'.state = c.state.setClient w none := by
  obtain ⟨hr, hst⟩ := Prod.mk.inj (Option.some.inj ran.done)
  exact ⟨hr.symm, hst.symm⟩

/-- The map changes where an entry is made or taken out. -/
theorem clients_step (hs : registry.step c x = some c') :
    (∃ t ch w i, x = .run t ch ∧ Nonempty (registry.Ran c c' t ch (.insertClient w i))) ∨
      (∃ t ch w, x = .run t ch ∧ Nonempty (registry.Ran c c' t ch (.removeClient w))) ∨
      c'.state.clients = c.state.clients ∧
        (∀ {t w i}, Did c' t (.insertClient w i) () → Did c t (.insertClient w i) ()) ∧
          ∀ {t w r}, Did c' t (.removeClient w) r → Did c t (.removeClient w) r := by
  by_cases hput : ∃ t ch w i, x = .run t ch ∧
      Nonempty (registry.Ran c c' t ch (.insertClient w i))
  · exact .inl hput
  · by_cases hrem : ∃ t ch w, x = .run t ch ∧ Nonempty (registry.Ran c c' t ch (.removeClient w))
    · exact .inr (.inl hrem)
    · refine .inr (.inr ⟨?_, fun hd => ?_, fun hd => ?_⟩)
      · cases x with
        | start p call =>
          have hsame : c.state = c'.state := Option.some.inj (Machine.step_start hs).1
          rw [hsame]
        | env e => exact (event_besides (Machine.step_env hs).1).2
        | run t ch =>
          obtain ⟨op, ⟨ran⟩⟩ := Machine.step_run hs
          obtain h | ⟨w, i, rfl⟩ | ⟨w, rfl⟩ := touched_clients (exec_touched ran.done)
          · exact h
          · exact absurd ⟨t, ch, w, i, rfl, ⟨ran⟩⟩ hput
          · exact absurd ⟨t, ch, w, rfl, ⟨ran⟩⟩ hrem
      · obtain hd | ⟨ch, hx, ran, -⟩ := did_step hs hd
        · exact hd
        · exact absurd ⟨_, ch, _, _, hx, ⟨ran⟩⟩ hput
      · obtain hd | ⟨ch, hx, ran, -⟩ := did_step hs hd
        · exact hd
        · exact absurd ⟨_, ch, _, hx, ⟨ran⟩⟩ hrem

end Steps

/-- An entry is made only where the worker has none, and a supervisor that is waited for ends in
time. -/
def keepsOrder (c : RegistryConfig) : RegistryAction → Bool
  | .run t ch =>
    match c.next t with
    | some (.insertClient w _) => (c.state.clients w).isNone
    | some (.awaitEnd i) => !ch.timedOut || c.state.hasEnded i
    | _ => true
  | _ => true

section Runs

variable {c₀ c c' : RegistryConfig} {x : RegistryAction} {t i : ℕ} {w : WorkerId} {op : RegistryOp}
  {cond : RegistryConfig → RegistryAction → Prop}

/-- Every session has the one registration that spawned its supervisor. -/
structure Made (c : RegistryConfig) : Prop where
  session : ∀ {t w e n i}, Did c t (.spawnSupervisor w e n) i →
    ∃ y, c.state.sessions[i]? = some y ∧ y.workerId = w ∧ y.endpoint = e
  once : ∀ {t t' w w' e e' n n' i}, Did c t (.spawnSupervisor w e n) i →
    Did c t' (.spawnSupervisor w' e' n') i → t = t'
  maker : ∀ {i y}, c.state.sessions[i]? = some y →
    ∃ t n, Did c t (.spawnSupervisor y.workerId y.endpoint n) i

/-- What is spawned is new. -/
theorem spawned_new {ch : RegistryChoice} {e : String} {n : ℕ}
    (ran : registry.Ran c c' t ch (.spawnSupervisor w e n)) :
    ran.resp = c.state.sessions.length ∧
      c'.state.sessions[ran.resp]? = some (.new w e n) := by
  obtain ⟨hr, hst⟩ := Prod.mk.inj (Option.some.inj ran.done)
  rw [← hst, ← hr]
  exact ⟨rfl, by simp⟩

theorem made_reaches (h₀ : Machine.Fresh c₀) (hempty : c₀.state = {})
    (h : registry.Reaches cond c₀ c) : Made c := by
  apply h.invariant
  · constructor
    · intro t w e n i hd
      simp [Did, h₀.log] at hd
    · intro t t' w w' e e' n n' i hd
      simp [Did, h₀.log] at hd
    · intro i y hy
      simp [hempty] at hy
  · intro c x c' _ _ hs ih
    have fresh {t ch w e n} (ran : registry.Ran c c' t ch (.spawnSupervisor w e n)) {t' w' e' n'} :
        ¬ Did c t' (.spawnSupervisor w' e' n') ran.resp := by
      intro hd
      obtain ⟨y, hy, -⟩ := ih.session hd
      have hlt := (List.getElem?_eq_some_iff.mp hy).1
      rw [(spawned_new ran).1] at hlt
      omega
    constructor
    · intro t w e n i hd
      obtain hd | ⟨ch, -, ran, rfl⟩ := did_step hs hd
      · obtain ⟨y, hy, hw, he⟩ := ih.session hd
        obtain ⟨y', hy', hkept, -⟩ := session_kept hs hy
        exact ⟨y', hy', hkept.workerId.trans hw, hkept.endpoint.trans he⟩
      · exact ⟨_, (spawned_new ran).2, rfl, rfl⟩
    · intro t t' w w' e e' n n' i hd hd'
      obtain hd | ⟨ch, hx, ran, rfl⟩ := did_step hs hd
      · obtain hd' | ⟨ch', -, ran', rfl⟩ := did_step hs hd'
        · exact ih.once hd hd'
        · exact absurd hd (fresh ran')
      · obtain hd' | ⟨ch', hx', -, -⟩ := did_step hs hd'
        · exact absurd hd' (fresh ran)
        · rw [hx] at hx'
          cases hx'
          rfl
    · intro i y hy
      cases hold : c.state.sessions[i]? with
      | none =>
        obtain ⟨t, ch, w, e, n, rfl, ran, rfl⟩ := session_new hs hold hy
        refine ⟨t, n, ?_⟩
        unfold Did
        rw [ran.after.2]
        exact List.mem_cons_self
      | some z =>
        obtain ⟨z', hz', hkept, -⟩ := session_kept hs hold
        rw [hz'] at hy
        cases hy
        obtain ⟨t, n, hd⟩ := ih.maker hold
        rw [hkept.workerId, hkept.endpoint]
        exact ⟨t, n, did_keeps hs hd⟩

/-- Only its maker enters a session into the map. -/
theorem put_once (h₀ : Machine.Fresh c₀) (hempty : c₀.state = {})
    (h : registry.Reaches cond c₀ c) {t' : ℕ} {w' : WorkerId} (hd : Did c t (.insertClient w i) ())
    (hd' : Did c t' (.insertClient w' i) ()) : t = t' ∧ w = w' := by
  have hmade := made_reaches h₀ hempty h
  obtain ⟨-, e, n, -, -, hspawn, -⟩ := put_spec h₀ h hd
  obtain ⟨-, e', n', -, -, hspawn', -⟩ := put_spec h₀ h hd'
  refine ⟨hmade.once hspawn hspawn', ?_⟩
  obtain ⟨y, hy, hw, -⟩ := hmade.session hspawn
  obtain ⟨y', hy', hw', -⟩ := hmade.session hspawn'
  rw [hy] at hy'
  cases hy'
  exact hw.symm.trans hw'

/-- Where a session stands with respect to the map. -/
structure Placed (c : RegistryConfig) : Prop where
  entry : ∀ {w i}, c.state.clients w = some i → ∃ t, Did c t (.insertClient w i) ()
  gone : ∀ {u w i}, Did c u (.removeClient w) (some i) →
    (∃ t, Did c t (.insertClient w i) ()) ∧ ∀ v, c.state.clients v ≠ some i
  once : ∀ {u u' w w' i}, Did c u (.removeClient w) (some i) →
    Did c u' (.removeClient w') (some i) → u = u'
  stage : ∀ {t w i}, Did c t (.insertClient w i) () →
    c.state.clients w = some i ∨ ∃ u, Did c u (.removeClient w) (some i)

theorem setClient_some {s : RegistryState} {v : WorkerId} {entry : Option ℕ}
    (h : (s.setClient w entry).clients v = some i) :
    (v = w ∧ entry = some i) ∨ (v ≠ w ∧ s.clients v = some i) := by
  simp only [RegistryState.setClient] at h
  split at h
  next he => exact .inl ⟨he, h⟩
  next he => exact .inr ⟨he, h⟩

/-- A session that is about to be entered was never entered before. -/
theorem insert_first {ch : RegistryChoice} (h₀ : Machine.Fresh c₀) (hempty : c₀.state = {})
    (h : registry.Reaches cond c₀ c) (ran : registry.Ran c c' t ch (.insertClient w i))
    {t' : ℕ} {w' : WorkerId} : ¬ Did c t' (.insertClient w' i) () := by
  intro hd'
  obtain ⟨thread', e', n', ht', hact', hspawn', -⟩ := put_spec h₀ h hd'
  have hdue := ran.licensed registry_disciplined h₀ h
  generalize hcall : ran.act = call at hdue
  generalize hpast : history c.log t = past at hdue
  cases hdue with
  | bystander v task past ho => cases ho
  | insertClient w e n i =>
    have hspawn : Did c t (.spawnSupervisor w e (max n 1)) i := by
      simp [Did, hpast, spawnedBy]
    obtain rfl := (made_reaches h₀ hempty h).once hspawn hspawn'
    unfold Did at hd'
    rw [hpast] at hd'
    simp only [spawnedBy, List.mem_cons, List.not_mem_nil, or_false] at hd'
    obtain he | he | he | he := hd' <;> cases he

theorem placed_insert {ch : RegistryChoice} (h₀ : Machine.Fresh c₀) (hempty : c₀.state = {})
    (h : registry.Reaches cond c₀ c) (hs : registry.step c (.run t ch) = some c')
    (ran : registry.Ran c c' t ch (.insertClient w i)) (hfree : c.state.clients w = none)
    (ih : Placed c) : Placed c' := by
  have removals {u v j} (hd : Did c' u (.removeClient v) (some j)) :
      Did c u (.removeClient v) (some j) := by
    obtain hd | ⟨ch', hx, ran', -⟩ := did_step hs hd
    · exact hd
    · cases hx
      cases ran'.op_eq ran
  have hnew : Did c' t (.insertClient w i) () := by
    unfold Did
    rw [ran.after.2]
    exact List.mem_cons_self
  constructor
  · intro v j hc
    rw [inserted ran] at hc
    obtain ⟨rfl, he⟩ | ⟨-, hc⟩ := setClient_some hc
    · cases he
      exact ⟨t, hnew⟩
    · obtain ⟨t', hd⟩ := ih.entry hc
      exact ⟨t', did_keeps hs hd⟩
  · intro u v j hd
    obtain ⟨⟨t', hput⟩, hout⟩ := ih.gone (removals hd)
    refine ⟨⟨t', did_keeps hs hput⟩, fun v' hc => ?_⟩
    rw [inserted ran] at hc
    obtain ⟨rfl, he⟩ | ⟨-, hc⟩ := setClient_some hc
    · cases he
      exact insert_first h₀ hempty h ran hput
    · exact hout v' hc
  · intro u u' v v' j hd hd'
    exact ih.once (removals hd) (removals hd')
  · intro t' v j hd
    obtain hd | ⟨ch', hx, ran', -⟩ := did_step hs hd
    · obtain hc | ⟨u, hu⟩ := ih.stage hd
      · have hne : v ≠ w := by
          rintro rfl
          rw [hfree] at hc
          cases hc
        refine .inl ?_
        rw [inserted ran]
        simpa [RegistryState.setClient, hne] using hc
      · exact .inr ⟨u, did_keeps hs hu⟩
    · cases hx
      cases ran'.op_eq ran
      refine .inl ?_
      rw [inserted ran]
      simp [RegistryState.setClient]

theorem placed_remove {ch : RegistryChoice} (h₀ : Machine.Fresh c₀) (hempty : c₀.state = {})
    (h : registry.Reaches cond c₀ c) (hs : registry.step c (.run t ch) = some c')
    (ran : registry.Ran c c' t ch (.removeClient w)) (ih : Placed c) : Placed c' := by
  obtain ⟨hresp, hstate⟩ := removed ran
  have puts {u v j} (hd : Did c' u (.insertClient v j) ()) : Did c u (.insertClient v j) () := by
    obtain hd | ⟨ch', hx, ran', -⟩ := did_step hs hd
    · exact hd
    · cases hx
      cases ran'.op_eq ran
  -- either it was removed before, or it is removed now, from where it was
  have removals {u v j} (hd : Did c' u (.removeClient v) (some j)) :
      Did c u (.removeClient v) (some j) ∨ u = t ∧ v = w ∧ c.state.clients w = some j := by
    obtain hd | ⟨ch', hx, ran', hr⟩ := did_step hs hd
    · exact .inl hd
    · cases hx
      cases ran'.op_eq ran
      exact .inr ⟨rfl, rfl, (removed ran').1.symm.trans hr⟩
  constructor
  · intro v j hc
    rw [hstate] at hc
    obtain ⟨-, he⟩ | ⟨-, hc⟩ := setClient_some hc
    · cases he
    · obtain ⟨t', hd⟩ := ih.entry hc
      exact ⟨t', did_keeps hs hd⟩
  · intro u v j hd
    obtain hd | ⟨rfl, rfl, hwas⟩ := removals hd
    · obtain ⟨⟨t', hput⟩, hout⟩ := ih.gone hd
      refine ⟨⟨t', did_keeps hs hput⟩, fun v' hc => ?_⟩
      rw [hstate] at hc
      obtain ⟨-, he⟩ | ⟨-, hc⟩ := setClient_some hc
      · cases he
      · exact hout v' hc
    · obtain ⟨t', hput⟩ := ih.entry hwas
      refine ⟨⟨t', did_keeps hs hput⟩, fun v' hc => ?_⟩
      rw [hstate] at hc
      obtain ⟨-, he⟩ | ⟨hne, hc⟩ := setClient_some hc
      · cases he
      · obtain ⟨t'', hput'⟩ := ih.entry hc
        exact hne (put_once h₀ hempty h hput' hput).2
  · intro u u' v v' j hd hd'
    obtain hd | ⟨rfl, rfl, hwas⟩ := removals hd
    · obtain hd' | ⟨rfl, rfl, hwas'⟩ := removals hd'
      · exact ih.once hd hd'
      · exact absurd hwas' ((ih.gone hd).2 _)
    · obtain hd' | ⟨rfl, rfl, -⟩ := removals hd'
      · exact absurd hwas ((ih.gone hd').2 _)
      · rfl
  · intro t' v j hd
    obtain hc | ⟨u, hu⟩ := ih.stage (puts hd)
    · by_cases hv : v = w
      · subst hv
        refine .inr ⟨t, ?_⟩
        unfold Did
        rw [ran.after.2, hresp, hc]
        exact List.mem_cons_self
      · refine .inl ?_
        rw [hstate]
        simpa [RegistryState.setClient, hv] using hc
    · exact .inr ⟨u, did_keeps hs hu⟩

theorem placed_reaches (h₀ : Machine.Fresh c₀) (hempty : c₀.state = {})
    (h : registry.Reaches (fun c x => keepsOrder c x = true) c₀ c) : Placed c := by
  apply h.invariant
  · constructor
    · intro w i hc
      simp [hempty] at hc
    · intro u w i hd
      simp [Did, h₀.log] at hd
    · intro u u' w w' i hd
      simp [Did, h₀.log] at hd
    · intro t w i hd
      simp [Did, h₀.log] at hd
  · intro c x c' hr hx hs ih
    obtain ⟨t, ch, w, i, rfl, ⟨ran⟩⟩ | ⟨t, ch, w, rfl, ⟨ran⟩⟩ | ⟨hsame, hput, hrem⟩ :=
      clients_step hs
    · refine placed_insert h₀ hempty hr hs ran ?_ ih
      simpa [keepsOrder, ran.next] using hx
    · exact placed_remove h₀ hempty hr hs ran ih
    · constructor
      · intro w i hc
        rw [hsame] at hc
        obtain ⟨t, hd⟩ := ih.entry hc
        exact ⟨t, did_keeps hs hd⟩
      · intro u w i hd
        obtain ⟨⟨t, ht⟩, hout⟩ := ih.gone (hrem hd)
        refine ⟨⟨t, did_keeps hs ht⟩, fun v hc => ?_⟩
        rw [hsame] at hc
        exact hout v hc
      · intro u u' w w' i hd hd'
        exact ih.once (hrem hd) (hrem hd')
      · intro t w i hd
        obtain hc | ⟨u, hu⟩ := ih.stage (hput hd)
        · rw [hsame]
          exact .inl hc
        · exact .inr ⟨u, did_keeps hs hu⟩

/-- A handle is there to be taken. -/
structure Handled (c : RegistryConfig) : Prop where
  kept : ∀ {t i}, Did c t (.storeHandle i) () → ∃ y, c.state.sessions[i]? = some y ∧
    (y.supervisor = true ∨ ∃ u, Did c u (.takeHandle i) true)
  got : ∀ {u i b}, Did c u (.takeHandle i) b → b = true

/-- Whoever takes a handle removed the session, and takes it once. -/
theorem take_first {ch : RegistryChoice} (h₀ : Machine.Fresh c₀) (h : registry.Reaches cond c₀ c)
    (hp : Placed c) (ran : registry.Ran c c' t ch (.takeHandle i)) :
    (∃ w, Did c t (.removeClient w) (some i)) ∧ ∀ u b, ¬ Did c u (.takeHandle i) b := by
  have hdue := ran.licensed registry_disciplined h₀ h
  generalize hcall : ran.act = call at hdue
  generalize hpast : history c.log t = past at hdue
  cases hdue with
  | bystander v task past ho => cases ho
  | takeHandle w i =>
    have hrem : Did c t (.removeClient w) (some i) := by
      simp [Did, hpast, removedBy]
    refine ⟨⟨w, hrem⟩, fun u b hd => ?_⟩
    obtain ⟨w', hrem'⟩ := took_spec h₀ h hd
    obtain rfl := hp.once hrem hrem'
    simp [Did, hpast, removedBy] at hd

theorem handled_reaches (h₀ : Machine.Fresh c₀) (hempty : c₀.state = {})
    (h : registry.Reaches (fun c x => keepsOrder c x = true) c₀ c) : Handled c := by
  apply h.invariant
  · constructor
    · intro t i hd
      simp [Did, h₀.log] at hd
    · intro u i b hd
      simp [Did, h₀.log] at hd
  · intro c x c' hr _ hs ih
    have hp := placed_reaches h₀ hempty hr
    have got : ∀ {u i b}, Did c' u (.takeHandle i) b → b = true := by
      intro u i b hd
      obtain hd | ⟨ch, -, ran, rfl⟩ := did_step hs hd
      · exact ih.got hd
      · obtain ⟨⟨w, hrem⟩, hfirst⟩ := take_first h₀ hr hp ran
        obtain ⟨t, hput⟩ := (hp.gone hrem).1
        obtain ⟨-, -, -, -, -, -, hstored⟩ := put_spec h₀ hr hput
        obtain ⟨y, hy, hsup | ⟨u', htook⟩⟩ := ih.kept hstored
        · have hdone := ran.done
          simp only [registry, RegistryOp.exec, hy] at hdone
          rw [← (Prod.mk.inj (Option.some.inj hdone)).1]
          exact hsup
        · exact absurd htook (hfirst u' true)
    refine ⟨fun {t i} hd => ?_, got⟩
    obtain hd | ⟨ch, -, ran, -⟩ := did_step hs hd
    · obtain ⟨y, hy, hsup⟩ := ih.kept hd
      obtain ⟨y', hy', -, hkept⟩ := session_kept hs hy
      refine ⟨y', hy', ?_⟩
      obtain hsup | ⟨u, hu⟩ := hsup
      · obtain h' | ⟨u, ch, rfl, ⟨ran⟩⟩ := hkept hsup
        · exact .inl h'
        · have hnew : Did c' u (.takeHandle i) ran.resp := by
            unfold Did
            rw [ran.after.2]
            exact List.mem_cons_self
          have ht := got hnew
          rw [ht] at hnew
          exact .inr ⟨u, hnew⟩
      · exact .inr ⟨u, did_keeps hs hu⟩
    · have hdue := ran.licensed registry_disciplined h₀ hr
      obtain ⟨w, e, n, hspawn⟩ : ∃ w e n, Did c t (.spawnSupervisor w e n) i := by
        generalize hcall : ran.act = call at hdue
        generalize hpast : history c.log t = past at hdue
        cases hdue with
        | bystander v task past ho => cases ho
        | storeHandle w e n i => exact ⟨w, e, max n 1, by simp [Did, hpast, spawnedBy]⟩
      obtain ⟨y, hy, -⟩ := (made_reaches h₀ hempty hr).session hspawn
      obtain ⟨-, hst⟩ := Prod.mk.inj (Option.some.inj ran.done)
      refine ⟨{ y with supervisor := true }, ?_, .inl rfl⟩
      rw [← hst, RegistryState.updateSession, List.getElem?_modify, hy, Option.map_eq_map,
        Option.map_some, if_pos rfl]

/-- Who has been waited for has ended. -/
theorem awaited_ended (h₀ : Machine.Fresh c₀)
    (h : registry.Reaches (fun c x => keepsOrder c x = true) c₀ c) :
    ∀ t i b, Did c t (.awaitEnd i) b →
      ∃ y, c.state.sessions[i]? = some y ∧ y.running = false := by
  apply h.invariant (P := fun c => ∀ t i b, Did c t (.awaitEnd i) b →
    ∃ y, c.state.sessions[i]? = some y ∧ y.running = false)
  · intro t i b hd
    simp [Did, h₀.log] at hd
  · intro c x c' _ hx hs ih t i b hd
    have ended : ∃ y, c.state.sessions[i]? = some y ∧ y.running = false := by
      obtain hd | ⟨ch, rfl, ran, -⟩ := did_step hs hd
      · exact ih t i b hd
      · have hdone := ran.done
        simp only [registry, RegistryOp.exec] at hdone
        simp only [keepsOrder, ran.next, Bool.or_eq_true, Bool.not_eq_true'] at hx
        have hended : c.state.hasEnded i = true := by
          split at hdone
          next he => exact he
          next he =>
            obtain ⟨ht, -⟩ := Option.ite_none_right_eq_some.mp hdone
            obtain hx | hx := hx
            · rw [hx] at ht
              cases ht
            · exact hx
        simpa [RegistryState.hasEnded, Option.any_eq_true] using hended
    obtain ⟨y, hy, hend⟩ := ended
    obtain ⟨y', hy', hkept, -⟩ := session_kept hs hy
    exact ⟨y', hy', hkept.ended hend⟩

/-- The operations that change the entry of the worker. -/
def changes (w : WorkerId) (k : Call RegistryOp RegistryOp.Resp Unit) : Bool :=
  match k with
  | ⟨_, _, .insertClient v _, _⟩ => v = w
  | ⟨_, _, .removeClient v, r⟩ => v = w && Option.isSome r
  | _ => false

/-- The last thing that happened to the entry of the worker. -/
def lastChange (w : WorkerId) (c : RegistryConfig) : Option (Call RegistryOp RegistryOp.Resp Unit) :=
  c.log.find? (changes w)

theorem lastChange_other {c c' : RegistryConfig} {k : Call RegistryOp RegistryOp.Resp Unit}
    (hlog : c'.log = k :: c.log) (hk : changes w k = false) :
    lastChange w c' = lastChange w c := by
  rw [lastChange, hlog, List.find?_cons_of_neg (by simp [hk])]
  rfl

theorem lastChange_new {c c' : RegistryConfig} {k : Call RegistryOp RegistryOp.Resp Unit}
    (hlog : c'.log = k :: c.log) (hk : changes w k = true) : lastChange w c' = some k := by
  rw [lastChange, hlog, List.find?_cons_of_pos hk]

/-- A worker has the entry that was made last, unless it was taken out since. -/
theorem entry_iff_lastChange (h₀ : Machine.Fresh c₀) (hempty : c₀.state = {})
    (h : registry.Reaches cond c₀ c) : ∀ w i, c.state.clients w = some i ↔
      ∃ t, lastChange w c = some ⟨t, (), .insertClient w i, ()⟩ := by
  apply h.invariant (P := fun c => ∀ w i, c.state.clients w = some i ↔
    ∃ t, lastChange w c = some ⟨t, (), .insertClient w i, ()⟩)
  · intro w i
    simp [hempty, lastChange, h₀.log]
  · intro c x c' _ _ hs ih w i
    cases x with
    | start p call =>
      obtain ⟨hst, -, hlog⟩ := Machine.step_start hs
      rw [lastChange, hlog, ← Option.some.inj hst]
      exact ih w i
    | env e =>
      obtain ⟨hst, -, hlog⟩ := Machine.step_env hs
      rw [lastChange, hlog, (event_besides hst).2]
      exact ih w i
    | run t ch =>
      obtain ⟨op, ⟨ran⟩⟩ := Machine.step_run hs
      by_cases hput : ∃ v j, op = .insertClient v j
      · obtain ⟨v, j, rfl⟩ := hput
        rw [inserted ran]
        by_cases hv : v = w
        · subst hv
          rw [lastChange_new ran.log (by simp [changes])]
          simp [RegistryState.setClient]
        · rw [lastChange_other ran.log (by simp [changes, hv]), ← ih w i]
          simp [RegistryState.setClient, Ne.symm hv]
      · by_cases hrem : ∃ v, op = .removeClient v
        · obtain ⟨v, rfl⟩ := hrem
          obtain ⟨hresp, hst⟩ := removed ran
          rw [hst]
          by_cases hv : v = w
          · subst hv
            cases hwas : c.state.clients v with
            | none =>
              rw [hwas] at hresp
              rw [lastChange_other ran.log (by simp [changes, hresp]), ← ih v i, hwas]
              simp [RegistryState.setClient]
            | some j =>
              rw [hwas] at hresp
              rw [lastChange_new ran.log (by simp [changes, hresp])]
              simp [RegistryState.setClient]
          · rw [lastChange_other ran.log (by simp [changes, hv]), ← ih w i]
            simp [RegistryState.setClient, Ne.symm hv]
        · have hother : changes w ⟨t, ran.party, op, ran.resp⟩ = false := by
            unfold changes
            split
            next v j r he =>
              cases he
              exact absurd ⟨v, j, rfl⟩ hput
            next v r he =>
              cases he
              exact absurd ⟨v, rfl⟩ hrem
            next => rfl
          rw [lastChange_other ran.log hother]
          obtain hsame | hput' | hrem' := touched_clients (exec_touched ran.done)
          · rw [hsame]
            exact ih w i
          · exact absurd hput' hput
          · exact absurd hrem' hrem

/-- The call registers the worker or takes it out. -/
def RegistryCall.concerns (w : WorkerId) : RegistryCall → Bool
  | register v _ _ | unregister v => v = w
  | dispatch _ _ => false

/-- The calls that concern the worker have returned. -/
def CallsReturned (c : RegistryConfig) (w : WorkerId) : Prop :=
  ∀ (t : ℕ) (thread : Thread RegistryOp RegistryOp.Resp Unit RegistryCall
    (Except TransportError Unit)), c.threads[t]? = some thread →
      thread.act.concerns w = true → ∃ out, thread.prog = .ret out

/-- The supervisor of this session of the worker is running. -/
def Supervised (c : RegistryConfig) (w : WorkerId) (i : ℕ) (y : SupervisedSession) : Prop :=
  c.state.sessions[i]? = some y ∧ y.workerId = w ∧ y.running = true

/-- At most one supervisor of the worker is running; it is the one in the map, with the endpoint of
the last registration; and none is after an unregistration that no registration follows. -/
structure Orderly (c : RegistryConfig) (w : WorkerId) : Prop where
  single : ∀ i j y z, Supervised c w i y → Supervised c w j z → i = j
  stored : ∀ i y, Supervised c w i y → c.state.clients w = some i
  latest : ∀ i y, Supervised c w i y →
    ∃ t thread n, lastChange w c = some ⟨t, (), .insertClient w i, ()⟩ ∧
      c.threads[t]? = some thread ∧ thread.act = .register w y.endpoint n
  none_left : ∀ t r, lastChange w c = some ⟨t, (), .removeClient w, r⟩ →
    ∀ i y, ¬ Supervised c w i y

theorem spawner_returned (h₀ : Machine.Fresh c₀) (h : registry.Reaches cond c₀ c) {e : String}
    {n : ℕ} (hd : Did c t (.spawnSupervisor w e n) i) (hret : CallsReturned c w) :
    Did c t (.insertClient w i) () := by
  obtain ⟨⟨p, call, prog⟩, ht, past, hsuf, hdue⟩ := did_due h₀ h hd
  cases hdue with
  | spawnSupervisor w e n =>
    obtain ⟨out, rfl⟩ := hret t _ ht (by simp [RegistryCall.concerns])
    exact Machine.returned registry_disciplined h₀ h ht w e (max n 1) i hd
  | bystander v task past ho => cases ho

theorem remover_returned (h₀ : Machine.Fresh c₀) (h : registry.Reaches cond c₀ c)
    (hd : Did c t (.removeClient w) (some i)) (hret : CallsReturned c w) :
    Did c t (.takeHandle i) false ∨ ∃ b, Did c t (.awaitEnd i) b := by
  obtain ⟨⟨p, call, prog⟩, ht, past, hsuf, hdue⟩ := did_due h₀ h hd
  cases hdue with
  | removeClient w =>
    obtain ⟨out, rfl⟩ := hret t _ ht (by simp [RegistryCall.concerns])
    exact Machine.returned registry_disciplined h₀ h ht i hd
  | bystander v task past ho => cases ho

theorem supervised_stored (h₀ : Machine.Fresh c₀) (hempty : c₀.state = {})
    (h : registry.Reaches (fun c x => keepsOrder c x = true) c₀ c) (hret : CallsReturned c w)
    {y : SupervisedSession} (hy : Supervised c w i y) : c.state.clients w = some i := by
  obtain ⟨hat, rfl, hrun⟩ := hy
  obtain ⟨t, n, hspawn⟩ := (made_reaches h₀ hempty h).maker hat
  have hput := spawner_returned h₀ h hspawn hret
  obtain hstored | ⟨u, hrem⟩ := (placed_reaches h₀ hempty h).stage hput
  · exact hstored
  · obtain htook | ⟨b, hawait⟩ := remover_returned h₀ h hrem hret
    · cases (handled_reaches h₀ hempty h).got htook
    · obtain ⟨z, hz, hended⟩ := awaited_ended h₀ h u i b hawait
      rw [hat] at hz
      cases hz
      rw [hrun] at hended
      cases hended

/-- As long as no registration finds an entry that was made since it looked, and no wait for a
supervisor is given up. -/
theorem supervisors_orderly (h₀ : Machine.Fresh c₀) (hempty : c₀.state = {})
    (h : registry.Reaches (fun c x => keepsOrder c x = true) c₀ c) (hret : CallsReturned c w) :
    Orderly c w := by
  have hstored {i y} (hy : Supervised c w i y) := supervised_stored h₀ hempty h hret hy
  constructor
  · intro i j y z hy hz
    have hi := hstored hy
    rw [hstored hz] at hi
    exact (Option.some.inj hi).symm
  · intro i y hy
    exact hstored hy
  · intro i y hy
    obtain ⟨t, hlast⟩ := (entry_iff_lastChange h₀ hempty h w i).mp (hstored hy)
    have hput : Did c t (.insertClient w i) () :=
      mem_history.mpr ⟨_, List.mem_of_find?_eq_some hlast, rfl, rfl⟩
    obtain ⟨thread, e, n, ht, hact, hspawn, -⟩ := put_spec h₀ h hput
    obtain ⟨z, hz, -, he⟩ := (made_reaches h₀ hempty h).session hspawn
    rw [hy.1] at hz
    cases hz
    rw [← he] at hact
    exact ⟨t, thread, n, hlast, ht, hact⟩
  · intro t r hlast i y hy
    obtain ⟨t', hlast'⟩ := (entry_iff_lastChange h₀ hempty h w i).mp (hstored hy)
    rw [hlast] at hlast'
    cases hlast'

end Runs

section Examples

def emptyRegistry : RegistryConfig := ⟨{}, [], []⟩

def worker : WorkerId := ⟨1⟩

/-- A registration by the thread `t` that is on its own until its session is connected. -/
def registering (t i : ℕ) (endpoint : String) : List RegistryAction :=
  .start () (.register worker endpoint 1) :: List.replicate 5 (.run t {}) ++
    [.env (.supervisor i (.ready i)), .run t {}]

def unregistering (t i : ℕ) : List RegistryAction :=
  .start () (.unregister worker) :: List.replicate 3 (.run t {}) ++
    List.replicate 4 (.env (.supervisor i .proceed)) ++ [.run t {}]

/-- The worker comes back at another endpoint. -/
def moving : List RegistryAction :=
  registering 0 0 "ws://first" ++ unregistering 1 0 ++ registering 2 1 "ws://second"

def moved : RegistryConfig := registry.after emptyRegistry moving

theorem moved_orderly : Orderly moved worker ∧ moved.state.clients worker = some 1 := by
  have hrun : registry.replayWhile keepsOrder emptyRegistry moving = some moved := rfl
  refine ⟨@supervisors_orderly emptyRegistry moved worker ⟨rfl, rfl⟩ rfl
    (Machine.replayWhile_reaches hrun) ?_, rfl⟩
  intro t thread ht hc
  have hthreads : moved.threads = [⟨(), .register worker "ws://first" 1, .ret (.ok ())⟩,
    ⟨(), .unregister worker, .ret (.ok ())⟩,
    ⟨(), .register worker "ws://second" 1, .ret (.ok ())⟩] := rfl
  rw [hthreads] at ht
  obtain _ | _ | _ | t := t <;> cases ht <;> exact ⟨_, rfl⟩

/-- Two registrations that both find the worker unknown. -/
def overlapping : List RegistryAction :=
  [.start () (.register worker "ws://first" 1), .start () (.register worker "ws://second" 1)] ++
    List.flatten (List.replicate 5 [.run 0 {}, .run 1 {}]) ++
    [.env (.supervisor 0 (.ready 0)), .env (.supervisor 1 (.ready 1)), .run 0 {}, .run 1 {}]

def doubled : RegistryConfig := registry.after emptyRegistry overlapping

theorem overlapping_registrations_double :
    ¬ ∀ c w, registry.Reaches Machine.always emptyRegistry c → CallsReturned c w → Orderly c w := by
  intro hall
  have hret : CallsReturned doubled worker := by
    intro t thread ht hc
    have hthreads : doubled.threads = [⟨(), .register worker "ws://first" 1, .ret (.ok ())⟩,
      ⟨(), .register worker "ws://second" 1, .ret (.ok ())⟩] := rfl
    rw [hthreads] at ht
    obtain _ | _ | t := t <;> cases ht <;> exact ⟨_, rfl⟩
  have horder := hall doubled worker (Machine.after_reaches overlapping) hret
  have hsame := horder.single 0 1 _ _ ⟨rfl, rfl, rfl⟩ ⟨rfl, rfl, rfl⟩
  cases hsame

end Examples

end FleetOrchestrator.Transport
