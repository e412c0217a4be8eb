import FleetOrchestrator.Interleaving.Discipline

/-! Two runs of a machine that have some activities in common, step for step, and others each for
itself. -/

namespace FleetOrchestrator.Interleaving

namespace Machine

variable {Op : Type} {Resp : Op → Type} {Party Act Out State Choice Env : Type}

abbrev Condition (Op : Type) (Resp : Op → Type) (Party Act Out State Choice Env : Type) :=
  Config Op Resp Party Act Out State → Action Party Act Choice Env → Prop

/-- The action belongs to none of the common activities. -/
def Aside (shared : Act → Prop) (c : Config Op Resp Party Act Out State) :
    Action Party Act Choice Env → Prop
  | .start _ a => ¬ shared a
  | .run i _ => ∀ t, c.threads[i]? = some t → ¬ shared t.act
  | .env _ => False

variable (M : Machine Op Resp Party Act Out State Choice Env)

/-- The operation is answered the same in both states. -/
def AnsweredAlike (ch : Choice) (p : Party) (op : Op) (s t : State) : Prop :=
  (M.exec ch p op s).map Prod.fst = (M.exec ch p op t).map Prod.fst

/-- The pairs tell which thread of the one run is which of the other. The operations in `given` are
taken to be answered alike to both. -/
inductive Twins (cond : Condition Op Resp Party Act Out State Choice Env) (shared : Act → Prop)
    (given : Op → Prop) (c₀ : Config Op Resp Party Act Out State) :
    Config Op Resp Party Act Out State → Config Op Resp Party Act Out State → List (ℕ × ℕ) → Prop
  | refl : Twins cond shared given c₀ c₀ c₀ []
  | left {c d c' : Config Op Resp Party Act Out State} {ps : List (ℕ × ℕ)}
      {x : Action Party Act Choice Env} (h : Twins cond shared given c₀ c d ps)
      (hc : cond c x) (ha : Aside shared c x) (hs : M.step c x = some c') :
      Twins cond shared given c₀ c' d ps
  | right {c d d' : Config Op Resp Party Act Out State} {ps : List (ℕ × ℕ)}
      {x : Action Party Act Choice Env} (h : Twins cond shared given c₀ c d ps)
      (hd : cond d x) (ha : Aside shared d x) (hs : M.step d x = some d') :
      Twins cond shared given c₀ c d' ps
  | start {c d c' d' : Config Op Resp Party Act Out State} {ps : List (ℕ × ℕ)} {p : Party} {a : Act}
      (h : Twins cond shared given c₀ c d ps) (ha : shared a) (hc : cond c (.start p a))
      (hd : cond d (.start p a)) (hs : M.step c (.start p a) = some c')
      (ht : M.step d (.start p a) = some d') :
      Twins cond shared given c₀ c' d' ((c.threads.length, d.threads.length) :: ps)
  | env {c d c' d' : Config Op Resp Party Act Out State} {ps : List (ℕ × ℕ)} {e : Env}
      (h : Twins cond shared given c₀ c d ps) (hc : cond c (.env e)) (hd : cond d (.env e))
      (hs : M.step c (.env e) = some c') (ht : M.step d (.env e) = some d') :
      Twins cond shared given c₀ c' d' ps
  | run {c d c' d' : Config Op Resp Party Act Out State} {ps : List (ℕ × ℕ)} {i j : ℕ} {ch : Choice}
      (h : Twins cond shared given c₀ c d ps) (hp : (i, j) ∈ ps) (hc : cond c (.run i ch))
      (hd : cond d (.run j ch)) (hs : M.step c (.run i ch) = some c')
      (ht : M.step d (.run j ch) = some d')
      (hg : ∀ p op, c.next i = some op → given op → M.AnsweredAlike ch p op c.state d.state) :
      Twins cond shared given c₀ c' d' ps

variable {M} {cond : Condition Op Resp Party Act Out State Choice Env} {shared : Act → Prop}
  {given : Op → Prop} {c₀ c d c' d' : Config Op Resp Party Act Out State} {ps : List (ℕ × ℕ)}
  {p : ℕ × ℕ}

theorem Twins.reaches (h : M.Twins cond shared given c₀ c d ps) :
    M.Reaches cond c₀ c ∧ M.Reaches cond c₀ d := by
  induction h with
  | refl => exact ⟨.refl, .refl⟩
  | left h hc ha hs ih => exact ⟨.tail _ ih.1 hc hs, ih.2⟩
  | right h hd ha hs ih => exact ⟨ih.1, .tail _ ih.2 hd hs⟩
  | start h ha hc hd hs ht ih => exact ⟨.tail _ ih.1 hc hs, .tail _ ih.2 hd ht⟩
  | env h hc hd hs ht ih => exact ⟨.tail _ ih.1 hc hs, .tail _ ih.2 hd ht⟩
  | run h hp hc hd hs ht hg ih => exact ⟨.tail _ ih.1 hc hs, .tail _ ih.2 hd ht⟩

theorem Twins.lefts (h : M.Twins cond shared given c₀ c d ps)
    (hr : M.Reaches (fun c x => cond c x ∧ Aside shared c x) c c') :
    M.Twins cond shared given c₀ c' d ps := by
  induction hr with
  | refl => exact h
  | tail x hr hx hs ih => exact .left ih hx.1 hx.2 hs

/-- The two threads are at the same point, having been told the same. -/
def Level (shared : Act → Prop) (c d : Config Op Resp Party Act Out State) (p : ℕ × ℕ) : Prop :=
  ∃ t, c.threads[p.1]? = some t ∧ d.threads[p.2]? = some t ∧ shared t.act ∧
    history c.log p.1 = history d.log p.2

/-- No thread of one run is paired with two of the other. -/
def Matched (ps : List (ℕ × ℕ)) : Prop := ∀ p ∈ ps, ∀ q ∈ ps, p.1 = q.1 ↔ p.2 = q.2

theorem Level.left (hl : Level shared c d p) {x : Action Party Act Choice Env}
    (ha : Aside shared c x) (hs : M.step c x = some c') : Level shared c' d p := by
  obtain ⟨t, htc, htd, hsh, hh⟩ := hl
  have hne : ∀ ch, x ≠ .run p.1 ch := by
    rintro ch rfl
    exact ha t htc hsh
  obtain ⟨ht, hl⟩ := step_idle hs htc hne
  exact ⟨t, ht, htd, hsh, hl.trans hh⟩

theorem Level.symm (hl : Level shared c d p) : Level shared d c p.swap := by
  obtain ⟨t, htc, htd, hsh, hh⟩ := hl
  exact ⟨t, htd, htc, hsh, hh.symm⟩

theorem Level.right (hl : Level shared c d p) {x : Action Party Act Choice Env}
    (ha : Aside shared d x) (hs : M.step d x = some d') : Level shared c d' p :=
  (hl.symm.left ha hs).symm

/-- A step of two other threads. -/
theorem Level.beside (hl : Level shared c d p) {x y : Action Party Act Choice Env}
    (hs : M.step c x = some c') (ht : M.step d y = some d') (hx : ∀ ch, x ≠ .run p.1 ch)
    (hy : ∀ ch, y ≠ .run p.2 ch) : Level shared c' d' p := by
  obtain ⟨t, htc, htd, hsh, hh⟩ := hl
  obtain ⟨htc, hlc⟩ := step_idle hs htc hx
  obtain ⟨htd, hld⟩ := step_idle ht htd hy
  exact ⟨t, htc, htd, hsh, hlc.trans (hh.trans hld.symm)⟩

/-- Where both threads are before one operation, and are told the same, they stay level. -/
theorem Level.both {i j : ℕ} {ch : Choice} {op : Op} (hl : Level shared c d (i, j))
    (rc : M.Ran c c' i ch op) (rd : M.Ran d d' j ch op) (hr : rc.resp = rd.resp) :
    Level shared c' d' (i, j) := by
  obtain ⟨t, htc, htd, hsh, hh⟩ := hl
  have hwas := rc.was.symm.trans (htc.trans (htd.symm.trans rd.was))
  obtain ⟨hac, hlc⟩ := rc.after
  obtain ⟨had, hld⟩ := rd.after
  simp only [Option.some.injEq, Thread.mk.injEq, Prog.call.injEq, heq_eq_eq, true_and] at hwas
  obtain ⟨hp, ha, hk⟩ := hwas
  have hact : t.act = rc.act := congrArg Thread.act (Option.some.inj (htc.symm.trans rc.was))
  refine ⟨_, hac, ?_, ?_, ?_⟩
  · rw [had, hp, ha, hk, hr]
  · exact hact ▸ hsh
  · rw [hlc, hld, hr, hh]

/-- The rule for two runs: a relation between them that the steps aside keep, and that gives the
answers that are not given. -/
theorem Twins.level {R : Config Op Resp Party Act Out State → Config Op Resp Party Act Out State → Prop}
    (h : M.Twins cond shared given c₀ c d ps) (hf : Fresh c₀) (h₀ : R c₀ c₀)
    (hleft : ∀ c d x c', M.Reaches cond c₀ c → cond c x → Aside shared c x → M.step c x = some c' →
      R c d → R c' d)
    (hright : ∀ c d x d', M.Reaches cond c₀ d → cond d x → Aside shared d x → M.step d x = some d' →
      R c d → R c d')
    (hstart : ∀ c d p a c' d', shared a → M.step c (.start p a) = some c' →
      M.step d (.start p a) = some d' → R c d → R c' d')
    (henv : ∀ c d e c' d', M.step c (.env e) = some c' → M.step d (.env e) = some d' →
      R c d → R c' d')
    (hanswer : ∀ c d i j ch op c' d' (rc : M.Ran c c' i ch op) (rd : M.Ran d d' j ch op),
      M.Reaches cond c₀ c → shared rc.act → ¬ given op → R c d → rc.resp = rd.resp)
    (hrun : ∀ c d i j ch op c' d' (rc : M.Ran c c' i ch op) (rd : M.Ran d d' j ch op),
      rc.resp = rd.resp → R c d → R c' d') :
    R c d ∧ Matched ps ∧ ∀ p ∈ ps, Level shared c d p := by
  induction h with
  | refl => exact ⟨h₀, fun p hp => absurd hp List.not_mem_nil, fun p hp => absurd hp List.not_mem_nil⟩
  | left h hc ha hs ih =>
    obtain ⟨hr, hm, hl⟩ := ih
    exact ⟨hleft _ _ _ _ h.reaches.1 hc ha hs hr, hm, fun p hp => (hl p hp).left ha hs⟩
  | right h hd ha hs ih =>
    obtain ⟨hr, hm, hl⟩ := ih
    exact ⟨hright _ _ _ _ h.reaches.2 hd ha hs hr, hm, fun p hp => (hl p hp).right ha hs⟩
  | env h hc hd hs ht ih =>
    obtain ⟨hr, hm, hl⟩ := ih
    exact ⟨henv _ _ _ _ _ hs ht hr, hm, fun p hp => (hl p hp).beside hs ht nofun nofun⟩
  | @start c d c' d' ps p a h ha hc hd hs ht ih =>
    obtain ⟨hr, hm, hl⟩ := ih
    have hlt : ∀ q ∈ ps, q.1 < c.threads.length ∧ q.2 < d.threads.length := by
      intro q hq
      obtain ⟨t, htc, htd, -⟩ := hl q hq
      exact ⟨(List.getElem?_eq_some_iff.mp htc).1, (List.getElem?_eq_some_iff.mp htd).1⟩
    refine ⟨hstart _ _ _ _ _ _ ha hs ht hr, ?_, ?_⟩
    · intro q hq q' hq'
      rcases List.mem_cons.mp hq with rfl | hq <;> rcases List.mem_cons.mp hq' with rfl | hq'
      · simp
      · have := hlt q' hq'
        dsimp only
        omega
      · have := hlt q hq
        dsimp only
        omega
      · exact hm q hq q' hq'
    · intro q hq
      rcases List.mem_cons.mp hq with rfl | hq
      · obtain ⟨-, htc, hlc⟩ := step_start hs
        obtain ⟨-, htd, hld⟩ := step_start ht
        refine ⟨M.thread p a, ?_, ?_, ha, ?_⟩
        · rw [htc, List.getElem?_concat_length]
        · rw [htd, List.getElem?_concat_length]
        · rw [hlc, hld, history_of_within (within_of_reaches hf h.reaches.1) le_rfl,
            history_of_within (within_of_reaches hf h.reaches.2) le_rfl]
      · exact (hl q hq).beside hs ht nofun nofun
  | @run c d c' d' ps i j ch h hp hc hd hs ht hg ih =>
    obtain ⟨hr, hm, hl⟩ := ih
    obtain ⟨op, ⟨rc⟩⟩ := step_run hs
    obtain ⟨op', ⟨rd⟩⟩ := step_run ht
    obtain ⟨t, htc, htd, hsh, -⟩ := hl (i, j) hp
    have hwas := rc.was.symm.trans (htc.trans (htd.symm.trans rd.was))
    simp only [Option.some.injEq, Thread.mk.injEq, Prog.call.injEq] at hwas
    obtain ⟨hparty, -, hop, -⟩ := hwas
    subst hop
    have hact : t.act = rc.act := congrArg Thread.act (Option.some.inj (htc.symm.trans rc.was))
    have hresp : rc.resp = rd.resp := by
      by_cases hgiven : given op
      · have hsame := hg rc.party op rc.next hgiven
        unfold AnsweredAlike at hsame
        rw [rc.done, hparty, rd.done] at hsame
        exact Option.some.inj hsame
      · exact hanswer _ _ _ _ _ _ _ _ rc rd h.reaches.1 (hact ▸ hsh) hgiven hr
    refine ⟨hrun _ _ _ _ _ _ _ _ rc rd hresp hr, hm, fun q hq => ?_⟩
    by_cases hq1 : i = q.1
    · have hq2 : j = q.2 := (hm (i, j) hp q hq).mp hq1
      subst hq1 hq2
      exact (hl q hq).both rc rd hresp
    · have hq2 : j ≠ q.2 := fun he => hq1 ((hm (i, j) hp q hq).mpr he)
      apply (hl q hq).beside hs ht
      · rintro ch' he
        cases he
        exact hq1 rfl
      · rintro ch' he
        cases he
        exact hq2 rfl

end Machine

end FleetOrchestrator.Interleaving
