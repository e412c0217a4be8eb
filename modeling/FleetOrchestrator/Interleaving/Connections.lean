import FleetOrchestrator.Interleaving.Discipline
import Mathlib.Data.List.Basic

/-! Locks that parties hold, some of which exclude each other. -/

namespace FleetOrchestrator.Tables

/-- Conflicting locks are never held by two parties. -/
structure LockTable (L : Type) (conflicts : L → L → Bool) where
  held : List (L × ℕ)
  compatible : ∀ a ∈ held, ∀ b ∈ held, conflicts a.1 b.1 = true → a.2 = b.2

namespace LockTable

variable {L : Type} {conflicts : L → L → Bool} {t : LockTable L conflicts} {l m : L} {p q : ℕ}

def empty : LockTable L conflicts := ⟨[], by simp⟩

/-- Another party holds what conflicts with the lock. -/
def blocked (t : LockTable L conflicts) (l : L) (p : ℕ) : Bool :=
  t.held.any fun h => (conflicts l h.1 || conflicts h.1 l) && h.2 ≠ p

theorem not_blocked (h : t.blocked l p = false) (hm : (m, q) ∈ t.held)
    (hc : conflicts l m = true ∨ conflicts m l = true) : q = p := by
  simp only [blocked, List.any_eq_false, Bool.and_eq_true, Bool.or_eq_true, decide_eq_true_eq,
    not_and, not_not] at h
  exact h (m, q) hm hc

def acquire (t : LockTable L conflicts) (l : L) (p : ℕ) (h : t.blocked l p = false) :
    LockTable L conflicts :=
  ⟨(l, p) :: t.held, by
    intro a ha b hb hc
    rcases List.mem_cons.mp ha with rfl | ha'
    · rcases List.mem_cons.mp hb with rfl | hb'
      · rfl
      · exact (not_blocked h hb' (.inl hc)).symm
    · rcases List.mem_cons.mp hb with rfl | hb'
      · exact not_blocked h ha' (.inr hc)
      · exact t.compatible a ha' b hb' hc⟩

def release (t : LockTable L conflicts) (p : ℕ) : LockTable L conflicts :=
  ⟨t.held.filter fun h => h.2 ≠ p, fun a ha b hb hc =>
    t.compatible a (List.mem_filter.mp ha).1 b (List.mem_filter.mp hb).1 hc⟩

/-- The lock if it is free, and nothing otherwise. -/
def grant (t : LockTable L conflicts) (l : L) (p : ℕ) : LockTable L conflicts :=
  if h : t.blocked l p = false then t.acquire l p h else t

theorem mem_release : (m, q) ∈ (t.release p).held ↔ (m, q) ∈ t.held ∧ q ≠ p := by
  simp [release]

theorem held_grant (h : t.blocked l p = false) : (t.grant l p).held = (l, p) :: t.held := by
  rw [grant, dif_pos h, acquire]

end LockTable

end FleetOrchestrator.Tables

/-! Machines in which every activity runs at a party of its own, as over a connection. -/

namespace FleetOrchestrator.Interleaving

namespace Machine

variable {Op : Type} {Resp : Op → Type} {Party Act Out State Choice Env : Type}
  {M : Machine Op Resp Party Act Out State Choice Env} {used : State → List Party}
  {cond : Config Op Resp Party Act Out State → Action Party Act Choice Env → Prop}
  {c₀ c c' : Config Op Resp Party Act Out State}

/-- The machine hands out each party once, and nothing else touches the used ones. -/
structure Connects (M : Machine Op Resp Party Act Out State Choice Env)
    (used : State → List Party) : Prop where
  accept : ∀ p a s s', M.accept p a s = some s' → p ∉ used s ∧ used s' = p :: used s
  exec : ∀ ch p op s r s', M.exec ch p op s = some (r, s') → used s' = used s
  disturb : ∀ e s s', M.disturb e s = some s' → used s' = used s
  spawned : ∀ op r, M.spawned op r = []

/-- The threads have their parties for themselves. -/
structure Connected (used : State → List Party) (c : Config Op Resp Party Act Out State) :
    Prop where
  parties : ∀ (i : ℕ) (t : Thread Op Resp Party Act Out), c.threads[i]? = some t →
    t.party ∈ used c.state
  single : ∀ (i j : ℕ) (t u : Thread Op Resp Party Act Out), c.threads[i]? = some t →
    c.threads[j]? = some u → t.party = u.party → i = j

/-- Without spawned activities every new thread was started. -/
theorem started_or_old (hM : Connects M used) {x : Action Party Act Choice Env}
    (hs : M.step c x = some c') {i : ℕ} {t : Thread Op Resp Party Act Out}
    (ht : c'.threads[i]? = some t) :
    (∃ t₀, c.threads[i]? = some t₀ ∧ t₀.party = t.party) ∨
      ∃ a, x = .start t.party a ∧ i = c.threads.length := by
  rcases thread_origin hs ht with ⟨t₀, h₀, hp, -⟩ | ⟨-, ⟨p, a, rfl, rfl, hi⟩ | hspawn⟩
  · exact .inl ⟨t₀, h₀, hp⟩
  · exact .inr ⟨a, rfl, hi⟩
  · obtain ⟨j, ch, op, r, a, ha, -⟩ := hspawn
    rw [hM.spawned] at ha
    cases ha

theorem used_step (hM : Connects M used) {x : Action Party Act Choice Env}
    (hs : M.step c x = some c') :
    used c'.state = used c.state ∨ ∃ p a, x = .start p a ∧ p ∉ used c.state ∧
      used c'.state = p :: used c.state := by
  cases x with
  | start p a => exact .inr ⟨p, a, rfl, hM.accept p a _ _ (step_start hs).1⟩
  | env e => exact .inl (hM.disturb e _ _ (step_env hs).1)
  | run i ch =>
    obtain ⟨op, ⟨r⟩⟩ := step_run hs
    exact .inl (hM.exec ch _ op _ _ _ r.done)

theorem Connected.step (hM : Connects M used) {x : Action Party Act Choice Env}
    (hs : M.step c x = some c') (h : Connected used c) : Connected used c' := by
  have fresh {p : Party} {a : Act} (hx : x = .start p a) :
      p ∉ used c.state ∧ p ∈ used c'.state := by
    subst hx
    obtain ⟨hnew, hused⟩ := hM.accept p a _ _ (step_start hs).1
    exact ⟨hnew, hused ▸ List.mem_cons_self⟩
  have grown {p : Party} (hp : p ∈ used c.state) : p ∈ used c'.state := by
    rcases used_step hM hs with he | ⟨q, a, -, -, he⟩
    · rwa [he]
    · rw [he]
      exact List.mem_cons_of_mem _ hp
  constructor
  · intro i t ht
    rcases started_or_old hM hs ht with ⟨t₀, h₀, hp⟩ | ⟨a, hx, -⟩
    · exact grown (hp ▸ h.parties i t₀ h₀)
    · exact (fresh hx).2
  · intro i j t u ht hu hp
    rcases started_or_old hM hs ht with ⟨t₀, h₀, hp₀⟩ | ⟨a, hx, hi⟩
    · rcases started_or_old hM hs hu with ⟨u₀, k₀, hq₀⟩ | ⟨a, hx, -⟩
      · exact h.single i j t₀ u₀ h₀ k₀ (by rw [hp₀, hp, hq₀])
      · refine absurd (h.parties i t₀ h₀) ?_
        rw [hp₀, hp]
        exact (fresh hx).1
    · rcases started_or_old hM hs hu with ⟨u₀, k₀, hq₀⟩ | ⟨-, -, hj⟩
      · refine absurd (h.parties j u₀ k₀) ?_
        rw [hq₀, ← hp]
        exact (fresh hx).1
      · rw [hi, hj]

theorem connected (hM : Connects M used) (h₀ : Fresh c₀) (h : M.Reaches cond c₀ c) :
    Connected used c := by
  apply h.invariant (P := Connected used)
  · constructor
    · intro i t ht
      rw [h₀.threads] at ht
      cases ht
    · intro i j t u ht
      rw [h₀.threads] at ht
      cases ht
  · exact fun _ _ _ _ _ hs hc => hc.step hM hs

end Machine

end FleetOrchestrator.Interleaving
