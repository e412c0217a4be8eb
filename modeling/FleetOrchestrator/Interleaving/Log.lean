import FleetOrchestrator.Interleaving.Discipline

/-! The order of the operations in a log, and operations that occur once in it. -/

namespace FleetOrchestrator.Interleaving

section Order

variable {α : Type} {a b : α} {l l₀ l₁ l₂ : List α}

theorem placed (h : a ∈ l) : ∃ l₁, a :: l₁ <:+ l := by
  obtain ⟨s, t, rfl⟩ := List.append_of_mem h
  exact ⟨t, List.suffix_append s (a :: t)⟩

/-- Of two places in a list one is behind the other. -/
theorem ordered (ha : a :: l₁ <:+ l) (hb : b :: l₂ <:+ l) :
    (a = b ∧ l₁ = l₂) ∨ a :: l₁ <:+ l₂ ∨ b :: l₂ <:+ l₁ := by
  rcases List.suffix_or_suffix_of_suffix ha hb with h | h
  · rcases List.suffix_cons_iff.mp h with he | h
    · cases he
      exact .inl ⟨rfl, rfl⟩
    · exact .inr (.inl h)
  · rcases List.suffix_cons_iff.mp h with he | h
    · cases he
      exact .inl ⟨rfl, rfl⟩
    · exact .inr (.inr h)

theorem mem_of_between {new : List α} (ha : a :: l₁ <:+ new ++ l) (hl : l <:+ l₁) : a ∈ new := by
  obtain ⟨s, hs⟩ := ha
  obtain ⟨t, rfl⟩ := hl
  have he : (s ++ a :: t) ++ l = new ++ l := by
    rw [← hs]
    simp
  rw [← List.append_cancel_right he]
  simp

/-- The item came to the list after `l₀`. -/
def Since (l₀ l : List α) (a : α) : Prop := ∃ l₁, a :: l₁ <:+ l ∧ l₀ <:+ l₁

theorem Since.cons (h : l₀ <:+ l) : Since l₀ (a :: l) a := ⟨l, List.suffix_rfl, h⟩

theorem Since.later (h : Since l₀ l a) (hl : l <:+ l₂) : Since l₀ l₂ a := by
  obtain ⟨l₁, ha, h₀⟩ := h
  exact ⟨l₁, ha.trans hl, h₀⟩

end Order

variable {Op : Type} {Resp : Op → Type} {Party : Type}
  {log : List (Call Op Resp Party)} {A B : Call Op Resp Party → Prop} {allowed : Op → Prop}

/-- What a thread does that had done nothing before comes after that. -/
theorem behind_idle {k : Call Op Resp Party} {l l₀ : List (Call Op Resp Party)}
    (hk : k :: l <:+ log) (hl : l₀ <:+ log) (hi : history l₀ k.thread = []) : l₀ <:+ l := by
  rcases List.suffix_or_suffix_of_suffix hk hl with hs | hs
  · have hat := history_at hs
    rw [hi, List.suffix_nil] at hat
    cases hat
  · rcases List.suffix_cons_iff.mp hs with rfl | hs
    · rw [history_cons_self] at hi
      cases hi
    · exact hs

theorem Grew.between {h h₁ h₂ : List (Entry Op Resp)} {e : Entry Op Resp}
    (hg : Grew allowed h h₁) (he : e :: h₂ <:+ h₁) (hh : h <:+ h₂) : allowed e.op := by
  obtain ⟨new, rfl, hn⟩ := hg
  exact hn e (mem_of_between he hh)

def Once (A : Call Op Resp Party → Prop) (log : List (Call Op Resp Party)) : Prop :=
  ∀ k l, k :: l <:+ log → A k → ∀ k' ∈ l, ¬ A k'

theorem once_nil : Once A [] := by
  intro k l hk
  cases List.suffix_nil.mp hk

theorem Once.cons {k : Call Op Resp Party} (h : Once A log)
    (hk : A k → ∀ k' ∈ log, ¬ A k') : Once A (k :: log) := by
  intro k₁ l hl ha
  rcases List.suffix_cons_iff.mp hl with he | hl
  · cases he
    exact hk ha
  · exact h k₁ l hl ha

theorem Once.place (h : Once A log) {k k' : Call Op Resp Party} {l l' : List (Call Op Resp Party)}
    (hk : k :: l <:+ log) (hk' : k' :: l' <:+ log) (ha : A k) (ha' : A k') : k = k' ∧ l = l' := by
  rcases ordered hk hk' with he | hs | hs
  · exact he
  · exact absurd ha (h k' l' hk' ha' k (hs.subset List.mem_cons_self))
  · exact absurd ha' (h k l hk ha k' (hs.subset List.mem_cons_self))

theorem Once.eq (h : Once A log) {k k' : Call Op Resp Party} (hk : k ∈ log) (hk' : k' ∈ log)
    (ha : A k) (ha' : A k') : k = k' := by
  obtain ⟨l, hl⟩ := placed hk
  obtain ⟨l', hl'⟩ := placed hk'
  exact (h.place hl hl' ha ha').1

/-- What each `B` needs is an `A` of its own thread with nothing but allowed operations since: if
the `A` occurs once, and `B` is not allowed in between, then `B` occurs once. -/
theorem Once.follows (allowed : Op → Prop) (hA : Once A log) (hn : ∀ k, B k → ¬ allowed k.op)
    (hB : ∀ k l, k :: l <:+ log → B k → ∃ h₀ e, Grew allowed (e :: h₀) (history l k.thread) ∧
      ∀ m : Call Op Resp Party, m.entry = e → A m) : Once B log := by
  intro k l hk hb k' hk' hb'
  obtain ⟨l', hl'⟩ := placed hk'
  have hkl : l <:+ log := (List.suffix_cons k l).trans hk
  obtain ⟨h₀, e, hg, ha⟩ := hB k l hk hb
  obtain ⟨h₀', e', hg', ha'⟩ := hB k' l' (hl'.trans hkl) hb'
  obtain ⟨m, lm, hm, hmt, hme, hmh⟩ := of_history_at hg.suffix
  obtain ⟨m', lm', hm', hmt', hme', hmh'⟩ := of_history_at hg'.suffix
  have hl'l : l' <:+ l := (List.suffix_cons k' l').trans hl'
  obtain ⟨rfl, rfl⟩ := hA.place (hm.trans hkl) (hm'.trans (hl'l.trans hkl)) (ha m hme) (ha' m' hme')
  have ht : k.thread = k'.thread := hmt.symm.trans hmt'
  subst hme
  subst hme'
  subst hmh
  have hat : k'.entry :: history l' k'.thread <:+ history l k.thread := by
    rw [ht]
    exact history_at hl'
  have hbehind : m.entry :: history lm k.thread <:+ history l' k'.thread := by
    rw [ht, hmh']
    exact hg'.suffix
  exact hn k' hb' (hg.between hat hbehind)

end FleetOrchestrator.Interleaving
