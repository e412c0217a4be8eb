import FleetOrchestrator.Interleaving.Discipline

/-! A thread that finishes has gone through every part of its program. -/

namespace FleetOrchestrator.Interleaving

variable {Op : Type} {Resp : Op → Type} {α β : Type}

/-- The program, started at one history, returns at another. -/
inductive Yields : Prog Op Resp α → List (Entry Op Resp) → α → List (Entry Op Resp) → Prop
  | ret {a : α} {h : List (Entry Op Resp)} : Yields (.ret a) h a h
  | call {op : Op} {k : Resp op → Prog Op Resp α} {h h' : List (Entry Op Resp)} {a : α}
      (r : Resp op) (hy : Yields (k r) (⟨op, r⟩ :: h) a h') : Yields (.call op k) h a h'

section Yields

variable {p : Prog Op Resp α} {f : α → Prog Op Resp β} {h h' : List (Entry Op Resp)} {a : α} {b : β}

theorem Yields.suffix (hy : Yields p h a h') : h <:+ h' := by
  induction hy with
  | ret => exact List.suffix_rfl
  | call r hy ih => exact (List.suffix_cons _ _).trans ih

theorem yields_bind (hy : Yields (p >>= f) h b h') :
    ∃ a h₁, Yields p h a h₁ ∧ Yields (f a) h₁ b h' := by
  induction p generalizing h with
  | ret a => exact ⟨a, h, .ret, hy⟩
  | call op k ih =>
    cases hy with
    | call r hy =>
      obtain ⟨a, h₁, hp, hf⟩ := ih r hy
      exact ⟨a, h₁, .call r hp, hf⟩

theorem yields_step {op : Op} {f : Resp op → Prog Op Resp β}
    (hy : Yields (Prog.perform op >>= f) h b h') : ∃ r, Yields (f r) (⟨op, r⟩ :: h) b h' := by
  cases hy with
  | call r hy => exact ⟨r, hy⟩

theorem Yields.step {op : Op} {f : Resp op → Prog Op Resp β} (r : Resp op)
    (hy : Yields (f r) (⟨op, r⟩ :: h) b h') : Yields (Prog.perform op >>= f) h b h' := .call r hy

/-- A program that returns has obeyed its rules. -/
theorem Yields.obeyed {φ : List (Entry Op Resp) → Op → Prop} {Q : α → List (Entry Op Resp) → Prop}
    (hy : Yields p h a h') (hp : Obeys φ Q p h) : Q a h' := by
  induction hy with
  | ret => exact hp
  | call r hy ih => exact ih (hp.2 r)

/-- A program ends as it yields. -/
theorem obeys_yields {φ : List (Entry Op Resp) → Op → Prop} {Q : α → List (Entry Op Resp) → Prop}
    (hp : Obeys φ Q p h) : Obeys φ (fun a h' => Yields p h a h') p h := by
  induction p generalizing h with
  | ret a => exact .ret
  | call op k ih =>
    apply obeys_call hp.1
    intro r
    exact obeys_conseq (ih r (hp.2 r)) fun a h' hy => .call r hy

/-- What came of a program can be told from its history. -/
theorem Yields.unique {b : α} {h₁ h₂ l : List (Entry Op Resp)} (hy : Yields p h a h₁)
    (hy' : Yields p h b h₂) (hl : h₁ <:+ l) (hl' : h₂ <:+ l) : a = b ∧ h₁ = h₂ := by
  induction hy generalizing h₂ with
  | ret =>
    cases hy'
    exact ⟨rfl, rfl⟩
  | @call op k h h₁ a r hy ih =>
    cases hy' with
    | call r' hy' =>
      have hr : (⟨op, r⟩ : Entry Op Resp) :: h <:+ l := hy.suffix.trans hl
      have hr' : (⟨op, r'⟩ : Entry Op Resp) :: h <:+ l := hy'.suffix.trans hl'
      have he := (List.suffix_of_suffix_length_le hr hr' (by simp)).eq_of_length (by simp)
      cases he
      exact ih hy' hl hl'

end Yields

namespace Machine

variable {Party Act Out State Choice Env : Type} {M : Machine Op Resp Party Act Out State Choice Env}
  {cond : Config Op Resp Party Act Out State → Action Party Act Choice Env → Prop}
  {c c' : Config Op Resp Party Act Out State} {i : ℕ} {q : Party} {act : Act} {out : Out}

/-- A thread before an operation is still there, or has done it. -/
theorem Reaches.waits (h : M.Reaches cond c c') {op : Op} {k : Resp op → Prog Op Resp Out}
    (ht : c.threads[i]? = some ⟨q, act, .call op k⟩) :
    (c'.threads[i]? = some ⟨q, act, .call op k⟩ ∧ history c'.log i = history c.log i) ∨
      ∃ c₁ c₂ ch r, M.Reaches cond c c₁ ∧ M.step c₁ (.run i ch) = some c₂ ∧
        M.exec ch q op c₁.state = some (r, c₂.state) ∧
        c₂.threads[i]? = some ⟨q, act, k r⟩ ∧ history c₂.log i = ⟨op, r⟩ :: history c.log i ∧
        M.Reaches cond c c₂ ∧ M.Reaches cond c₂ c' := by
  induction h with
  | refl => exact .inl ⟨ht, rfl⟩
  | @tail c₃ c₄ x h hx hs ih =>
    rcases ih with ⟨hthread, hlog⟩ | ⟨c₁, c₂, ch, r, h₁, hs₁, he, ht₂, hl₂, h₂, h₃⟩
    · by_cases hrun : ∃ ch, x = .run i ch
      · obtain ⟨ch, rfl⟩ := hrun
        obtain ⟨op', ⟨r⟩⟩ := step_run hs
        have hwas := r.was
        rw [hthread] at hwas
        cases hwas
        obtain ⟨hafter, hhist⟩ := r.after
        rw [hlog] at hhist
        exact .inr ⟨c₃, c₄, ch, r.resp, h, hs, r.done, hafter, hhist, .tail _ h hx hs, .refl⟩
      · have hidle := step_idle hs hthread fun ch hc => hrun ⟨ch, hc⟩
        exact .inl ⟨hidle.1, hidle.2.trans hlog⟩
    · exact .inr ⟨c₁, c₂, ch, r, h₁, hs₁, he, ht₂, hl₂, h₂, .tail x h₃ hx hs⟩

theorem Reaches.called (h : M.Reaches cond c c') {op : Op} {k : Resp op → Prog Op Resp Out}
    (ht : c.threads[i]? = some ⟨q, act, .call op k⟩)
    (hd : c'.threads[i]? = some ⟨q, act, .ret out⟩) :
    ∃ c₁ c₂ ch r, M.Reaches cond c c₁ ∧ M.step c₁ (.run i ch) = some c₂ ∧
      M.exec ch q op c₁.state = some (r, c₂.state) ∧
      c₂.threads[i]? = some ⟨q, act, k r⟩ ∧ history c₂.log i = ⟨op, r⟩ :: history c.log i ∧
      M.Reaches cond c c₂ ∧ M.Reaches cond c₂ c' := by
  rcases h.waits ht with ⟨hw, -⟩ | h
  · rw [hd] at hw
    cases hw
  · exact h

/-- What a thread did that had returned by then, it had done by then. -/
theorem Reaches.done_before (h : M.Reaches cond c c') {k : Call Op Resp Party}
    {l : List (Call Op Resp Party)} (ht : c.threads[k.thread]? = some ⟨q, act, .ret out⟩)
    (hk : k :: l <:+ c'.log) : k :: l <:+ c.log := by
  by_contra hn
  obtain ⟨c₁, c₂, ch, h₁, -, -, -, ⟨r, -, -⟩, -⟩ := h.step_of_log hk hn
  have hwas := r.was
  rw [(h₁.finished ht).1] at hwas
  cases hwas

/-- What a thread has done that it had not done by then, it did since. -/
theorem Reaches.done_since (h : M.Reaches cond c c') {t : Thread Op Resp Party Act Out}
    (ht : c'.threads[i]? = some t) {e : Entry Op Resp} {l : List (Entry Op Resp)}
    (hs : e :: l <:+ history c'.log i) (hn : e ∉ history c.log i) :
    ∃ c₁ c₂ ch, ∃ r : M.Ran c₁ c₂ i ch e.op, r.resp = e.resp ∧ r.party = t.party ∧
      history c₁.log i = l ∧ M.Reaches cond c c₁ ∧ M.Reaches cond c₁ c₂ ∧ M.Reaches cond c₂ c' := by
  obtain ⟨k, l', hl, rfl, rfl, rfl⟩ := of_history_at hs
  have hnew : ¬ k :: l' <:+ c.log := fun hin => hn ((history_at hin).subset List.mem_cons_self)
  obtain ⟨c₁, c₂, ch, h₁, hc, hs₁, rfl, ⟨r, -, hr⟩, h₂⟩ := h.step_of_log hl hnew
  have hstep : M.Reaches cond c₁ c₂ := .single hc hs₁
  obtain ⟨t', ht', hp, -⟩ := (hstep.trans h₂).thread r.was
  rw [ht] at ht'
  cases ht'
  exact ⟨c₁, c₂, ch, r, hr, hp.symm, rfl, h₁, hstep, h₂⟩

/-- The first part of a finished thread's program yields a result, which the rest goes on from. -/
theorem Reaches.through {p : Prog Op Resp α} {f : α → Prog Op Resp Out} (h : M.Reaches cond c c')
    (ht : c.threads[i]? = some ⟨q, act, p >>= f⟩)
    (hd : c'.threads[i]? = some ⟨q, act, .ret out⟩) :
    ∃ c₁ a, M.Reaches cond c c₁ ∧ M.Reaches cond c₁ c' ∧ c₁.threads[i]? = some ⟨q, act, f a⟩ ∧
      Yields p (history c.log i) a (history c₁.log i) := by
  induction p generalizing c with
  | ret a => exact ⟨c, a, .refl, h, ht, .ret⟩
  | call op k ih =>
    obtain ⟨c₁, c₂, ch, r, -, -, -, ht₂, hl₂, h₂, h₃⟩ := h.called ht hd
    obtain ⟨c₃, a, h₄, h₅, ht₃, hy⟩ := ih r h₃ ht₂
    rw [hl₂] at hy
    exact ⟨c₃, a, h₂.trans h₄, h₅, ht₃, .call r hy⟩

/-- What a finished thread returned, its program yields along its history. -/
theorem finished_yields {φ : Party → Act → List (Entry Op Resp) → Op → Prop}
    {Q : Party → Act → Out → List (Entry Op Resp) → Prop} (hD : M.Disciplined φ Q)
    {c₀ : Config Op Resp Party Act Out State} (h₀ : Fresh c₀) (h : M.Reaches cond c₀ c)
    (ht : c.threads[i]? = some ⟨q, act, .ret out⟩) :
    Yields (M.program q act) [] out (history c.log i) :=
  returned (Q := fun p a out h => Yields (M.program p a) [] out h)
    (fun p a => obeys_yields (hD p a)) h₀ h ht

end Machine

end FleetOrchestrator.Interleaving
