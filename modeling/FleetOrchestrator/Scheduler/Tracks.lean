import FleetOrchestrator.Scheduler.Steps

/-! What a process keeps in memory, followed through the log. -/

namespace FleetOrchestrator.Scheduler

open Core Store Transport Interleaving Machine

variable {α : Type}

/-- What an operation makes of a part of the memory that only process operations touch. -/
def advance (after : α → ProcessOp → α) (a : α) : Op → α
  | .process o => after a o
  | _ => a

/-- The part as the operations logged at the process leave it. -/
def replayed (after : α → ProcessOp → α) (a₀ : α) (p : ℕ) : FleetLog → α
  | [] => a₀
  | k :: log =>
    if k.party = p then advance after (replayed after a₀ p log) k.op
    else replayed after a₀ p log

/-- The part belongs neither to the transport nor to the breakers, and is changed by the process
operations as told. -/
structure Remembered (f : Process → α) (after : α → ProcessOp → α) : Prop where
  transport : ∀ q t, f (setTransport q t) = f q
  breaker : ∀ q v b, f (q.setBreaker v b) = f q
  perform : ∀ cfg now q o, f (Process.perform cfg now q o).2 = after (f q) o

section Frames

variable {f : Process → α} {after : α → ProcessOp → α} {D : Deployment} {w w' : World} {q : ℕ}

theorem withTransport_part (hf : Remembered f after) (w : World) (q : ℕ) (t : TransportState)
    (p : ℕ) : f ((w.withTransport q t).process p) = f (w.process p) := by
  unfold World.withTransport
  by_cases hp : p = q
  · subst hp
    rw [World.setProcess_self, hf.transport]
  · rw [World.setProcess_ne _ _ hp]

theorem accept_part (hf : Remembered f after) {a : Activity} (h : accept q a w = some w') (p : ℕ) :
    f (w'.process p) = f (w.process p) := by
  cases a with
  | submit t =>
    obtain ⟨-, -, rfl⟩ := mint_eq h
    rfl
  | workerEvent e | connectionEnded link =>
    obtain ⟨t, -, rfl⟩ := Option.map_eq_some_iff.mp h
    exact withTransport_part hf w q t p
  | prompt => cases h
  | cancel | reconcile | deleteTask | acquireLease | renewLease | releaseLease | unregister =>
    cases h
    rfl

theorem disturb_part (hf : Remembered f after) {d : Disturbance} (h : disturb d w = some w')
    (p : ℕ) : f (w'.process p) = f (w.process p) := by
  cases d with
  | elapse | setWorkers | setAgents | setCredentials | setTemplates | loseSession
  | resumeSession =>
    cases h
    rfl
  | insertPending t =>
    obtain ⟨w₁, hm, rfl⟩ := Option.map_eq_some_iff.mp h
    obtain ⟨-, -, rfl⟩ := mint_eq hm
    rfl
  | openSession v sessionId =>
    obtain ⟨u, -, rfl⟩ := Option.map_eq_some_iff.mp h
    rfl
  | resetBreaker q v =>
    cases h
    by_cases hp : p = q
    · subst hp
      rw [World.setProcess_self]
      unfold resetBreaker
      split
      · exact hf.breaker _ _ _
      · rfl
    · rw [World.setProcess_ne _ _ hp]
  | notify q | subscribe q =>
    cases h
    exact withTransport_part hf w q _ p
  | register q | connecting q | established q | consume q | pump q =>
    obtain ⟨t, -, rfl⟩ := Option.map_eq_some_iff.mp h
    exact withTransport_part hf w q t p

theorem exec_part (hf : Remembered f after) {ch : Choice} {op : Op} {r : Resp op}
    (h : exec D ch q op w = some (r, w')) (p : ℕ) :
    f (w'.process p) =
      if q = p then advance after (f (w.process p)) op else f (w.process p) := by
  cases op with
  | store o =>
    obtain ⟨-, rfl⟩ := exec_store h
    exact (ite_self _).symm
  | readSkill file =>
    obtain rfl := exec_readSkill h
    exact (ite_self _).symm
  | process o =>
    obtain ⟨-, rfl⟩ := exec_process h
    by_cases hp : q = p
    · subst hp
      rw [World.setProcess_self, if_pos rfl, hf.perform]
      rfl
    · rw [World.setProcess_ne _ _ (Ne.symm hp), if_neg hp]
  | acp o =>
    obtain ⟨w₁, t, hh, -, rfl⟩ := exec_acp h
    obtain ⟨-, hprocess, -⟩ := hostEffect_rest hh
    rw [show advance after (f (w.process p)) (.acp o) = f (w.process p) from rfl, ite_self]
    by_cases hp : q = p
    · subst hp
      rw [World.setProcess_self, hf.transport]
    · rw [World.setProcess_ne _ _ (Ne.symm hp), hprocess]

end Frames

section Runs

variable {f : Process → α} {after : α → ProcessOp → α} {D : Deployment}
  {cond : FleetConfig → FleetAction → Prop} {c₀ c c' : FleetConfig} {x : FleetAction}

theorem step_part (hf : Remembered f after) (hs : (fleet D).step c x = some c') (p : ℕ) {a₀ : α}
    (h : f (c.state.process p) = replayed after a₀ p c.log) :
    f (c'.state.process p) = replayed after a₀ p c'.log := by
  cases x with
  | start q a =>
    obtain ⟨ha, -, hl⟩ := step_start hs
    rw [accept_part hf ha, hl, h]
  | env d =>
    obtain ⟨hd, -, hl⟩ := step_env hs
    rw [disturb_part hf hd, hl, h]
  | run i ch =>
    obtain ⟨op, ⟨r⟩⟩ := step_run hs
    rw [exec_part hf (ran_exec r), r.log, h]
    rfl

/-- In every state reached, the part is what the log makes of it. -/
theorem part_logged (hf : Remembered f after) (h₀ : Start c₀) (h : (fleet D).Reaches cond c₀ c)
    (p : ℕ) : f (c.state.process p) = replayed after (f {}) p c.log := by
  apply h.invariant (P := fun c => f (c.state.process p) = replayed after (f {}) p c.log)
  · rw [h₀.pristine.process p, h₀.fresh.log]
    rfl
  · intro c x c' _ _ hs ih
    exact step_part hf hs p ih

end Runs

section Parts

def statusAfter (st : LeaseStatus) : ProcessOp → LeaseStatus
  | .setLeaseStatus st' => st'
  | _ => st

theorem status_remembered : Remembered Process.leaseStatus statusAfter where
  transport _ _ := rfl
  breaker _ _ _ := rfl
  perform cfg now q o := by
    have gauge (n : ℕ) : ({ q with runningGauge := n } : Process).leaseStatus = q.leaseStatus := rfl
    cases o with
    | breakerGet | breakerCheck | breakerRecord | reportUnacked =>
      simp only [Process.perform]
      split <;> rfl
    | incRunning | decRunning => exact gauge _
    | _ => rfl

/-- What a process operation does to the ledger. -/
def ledgerAfter (ledger : Option ℤ × List WorkerId) : ProcessOp → Option ℤ × List WorkerId
  | .ledgerContains generation _ =>
    if ledger.1 ≠ generation then (generation, []) else ledger
  | .ledgerInsert w => (ledger.1, w :: ledger.2)
  | _ => ledger

theorem ledger_remembered : Remembered Process.recoveredWorkers ledgerAfter where
  transport _ _ := rfl
  breaker _ _ _ := rfl
  perform cfg now q o := by
    have gauge (n : ℕ) : ({ q with runningGauge := n } : Process).recoveredWorkers =
      q.recoveredWorkers := rfl
    cases o with
    | breakerGet | breakerCheck | breakerRecord | reportUnacked =>
      simp only [Process.perform]
      split <;> rfl
    | incRunning | decRunning => exact gauge _
    | _ => rfl

end Parts

end FleetOrchestrator.Scheduler
