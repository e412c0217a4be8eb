import FleetOrchestrator.Interleaving.Program

/-! A program run by itself while its surroundings change before each of its operations, and in two
systems that answer alike. -/

namespace FleetOrchestrator.Interleaving

variable {Op : Type} {Resp : Op → Type} {α β State Env : Type}

namespace Prog

/-- The surroundings of the first operation come first; those left over are returned. -/
def amid (exec : Env → (op : Op) → State → Resp op × State) :
    Prog Op Resp α → (ℕ → Env) → State → α × (ℕ → Env) × State
  | .ret a, env, s => (a, env, s)
  | .call op k, env, s =>
    (k (exec (env 0) op s).1).amid exec (fun n => env (n + 1)) (exec (env 0) op s).2

variable {exec : Env → (op : Op) → State → Resp op × State}

theorem amid_bind (p : Prog Op Resp α) (f : α → Prog Op Resp β) (env : ℕ → Env) (s : State) :
    (p >>= f).amid exec env s =
      (f (p.amid exec env s).1).amid exec (p.amid exec env s).2.1 (p.amid exec env s).2.2 := by
  induction p generalizing env s with
  | ret a => rfl
  | call op k ih => exact ih _ _ _

theorem amid_andThen {ε : Type} (p : Prog Op Resp (Except ε α))
    (f : α → Prog Op Resp (Except ε β)) (env : ℕ → Env) (s : State) :
    (p.andThen f).amid exec env s =
      match (p.amid exec env s).1 with
      | .error e => (.error e, (p.amid exec env s).2)
      | .ok a => (f a).amid exec (p.amid exec env s).2.1 (p.amid exec env s).2.2 := by
  refine (amid_bind p _ env s).trans ?_
  cases (p.amid exec env s).1 with
  | error e => rfl
  | ok a => rfl

/-- What every allowed operation keeps, a program of such operations keeps. -/
theorem amid_along {allowed : Op → Prop} {R : State → State → Prop} (hrefl : ∀ s, R s s)
    (htrans : ∀ s t u, R s t → R t u → R s u)
    (hop : ∀ e op s, allowed op → R s (exec e op s).2) {p : Prog Op Resp α} (hp : Uses allowed p)
    (env : ℕ → Env) (s : State) : R s (p.amid exec env s).2.2 := by
  induction p generalizing env s with
  | ret a => exact hrefl s
  | call op k ih => exact htrans _ _ _ (hop (env 0) op s hp.1) (ih _ (hp.2 _) _ _)

end Prog

/-- Answers that look alike make no difference to what the program does next. -/
def Blind (R : ∀ op : Op, Resp op → Resp op → Prop) : Prog Op Resp α → Prop
  | .ret _ => True
  | .call op k => (∀ r r', R op r r' → k r = k r') ∧ ∀ r, Blind R (k r)

section Blind

variable {R : ∀ op : Op, Resp op → Resp op → Prop} {exec : Env → (op : Op) → State → Resp op × State}

theorem blind_ret (a : α) : Blind R (.ret a : Prog Op Resp α) := trivial

theorem blind_step {op : Op} {k : Resp op → Prog Op Resp β} (hk : ∀ r r', R op r r' → k r = k r')
    (hb : ∀ r, Blind R (k r)) : Blind R (Prog.perform op >>= k) := ⟨hk, hb⟩

theorem blind_bind {p : Prog Op Resp α} {f : α → Prog Op Resp β} (hp : Blind R p)
    (hf : ∀ a, Blind R (f a)) : Blind R (p >>= f) := by
  induction p with
  | ret a => exact hf a
  | call op k ih =>
    refine ⟨?_, fun r => ih r (hp.2 r)⟩
    intro r r' hr
    change k r >>= f = k r' >>= f
    rw [hp.1 r r' hr]

/-- In surroundings that answer alike a blind program returns the same. -/
theorem amid_blind {p : Prog Op Resp α} (hp : Blind R p) {E : Env → Env → Prop}
    {S : State → State → Prop} (hexec : ∀ e e' op s s', E e e' → S s s' →
      R op (exec e op s).1 (exec e' op s').1 ∧ S (exec e op s).2 (exec e' op s').2)
    {env env' : ℕ → Env} (henv : ∀ n, E (env n) (env' n)) {s s' : State} (hs : S s s') :
    (p.amid exec env s).1 = (p.amid exec env' s').1 := by
  induction p generalizing env env' s s' with
  | ret a => rfl
  | call op k ih =>
    obtain ⟨hr, hs'⟩ := hexec (env 0) (env' 0) op s s' (henv 0) hs
    simp only [Prog.amid]
    rw [← hp.1 _ _ hr]
    exact ih _ (hp.2 _) (fun n => henv (n + 1)) hs'

end Blind

section Meanwhile

/-- The same where an operation may get no answer. -/
def Prog.meanwhile (exec : Env → (op : Op) → State → Option (Resp op × State)) :
    Prog Op Resp α → (ℕ → Env) → State → Option (α × (ℕ → Env) × State)
  | .ret a, env, s => some (a, env, s)
  | .call op k, env, s =>
    (exec (env 0) op s).bind fun r => (k r.1).meanwhile exec (fun n => env (n + 1)) r.2

variable {exec exec' : Env → (op : Op) → State → Option (Resp op × State)} {p : Prog Op Resp α}
  {env : ℕ → Env} {s t : State} {allowed : Op → Prop} {x : α × (ℕ → Env) × State}

theorem meanwhile_bind (p : Prog Op Resp α) (f : α → Prog Op Resp β) (env : ℕ → Env) (s : State) :
    (p >>= f).meanwhile exec env s =
      (p.meanwhile exec env s).bind fun x => (f x.1).meanwhile exec x.2.1 x.2.2 := by
  induction p generalizing env s with
  | ret a => rfl
  | call op k ih =>
    simp only [Prog.call_bind, Prog.meanwhile, Option.bind_assoc]
    apply congrArg
    funext r
    exact ih r.1 _ _

theorem meanwhile_step {op : Op} (f : Resp op → Prog Op Resp β) (env : ℕ → Env) (s : State) :
    (Prog.perform op >>= f).meanwhile exec env s =
      (exec (env 0) op s).bind fun r => (f r.1).meanwhile exec (fun n => env (n + 1)) r.2 := rfl

theorem meanwhile_perform (op : Op) (env : ℕ → Env) (s : State) :
    (Prog.perform op).meanwhile exec env s =
      (exec (env 0) op s).map fun r => (r.1, fun n => env (n + 1), r.2) := by
  cases h : exec (env 0) op s <;> simp [Prog.perform, Prog.meanwhile, h]

/-- What every allowed operation keeps, a program of such operations keeps. -/
theorem meanwhile_along {R : State → State → Prop} (hrefl : ∀ s, R s s)
    (htrans : ∀ s t u, R s t → R t u → R s u)
    (hop : ∀ e op s r, allowed op → exec e op s = some r → R s r.2) (hp : Uses allowed p)
    (h : p.meanwhile exec env s = some x) : R s x.2.2 := by
  induction p generalizing env s with
  | ret a =>
    cases h
    exact hrefl s
  | call op k ih =>
    obtain ⟨r, hr, hrest⟩ := Option.bind_eq_some_iff.mp h
    exact htrans _ _ _ (hop _ _ _ _ hp.1 hr) (ih _ (hp.2 _) hrest)

/-- A program that is blind for where two systems differ does the same in both. -/
theorem meanwhile_blind {R : State → State → Prop} {alike : ∀ op : Op, Resp op → Resp op → Prop}
    (hop : ∀ e op s t r, allowed op → R s t → exec e op s = some r →
      ∃ r', exec' e op t = some r' ∧ alike op r.1 r'.1 ∧ R r.2 r'.2)
    (hp : Uses allowed p) (hb : Blind alike p) (hR : R s t)
    (h : p.meanwhile exec env s = some x) :
    ∃ t', p.meanwhile exec' env t = some (x.1, x.2.1, t') ∧ R x.2.2 t' := by
  induction p generalizing env s t with
  | ret a =>
    cases h
    exact ⟨t, rfl, hR⟩
  | call op k ih =>
    obtain ⟨r, hr, hrest⟩ := Option.bind_eq_some_iff.mp h
    obtain ⟨r', hr', halike, hR'⟩ := hop _ _ _ _ _ hp.1 hR hr
    obtain ⟨t', ht', hRt⟩ := ih _ (hp.2 _) (hb.2 _) hR' hrest
    refine ⟨t', ?_, hRt⟩
    rw [Prog.meanwhile, hr', Option.bind_some, ← hb.1 _ _ halike]
    exact ht'

end Meanwhile

end FleetOrchestrator.Interleaving
