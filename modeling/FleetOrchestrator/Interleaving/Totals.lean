import Mathlib.Algebra.BigOperators.Group.Finset.Piecewise
import Mathlib.Algebra.Order.BigOperators.Group.Finset
import Mathlib.Algebra.Ring.Int.Defs
import FleetOrchestrator.Interleaving.Discipline

/-! What each thread leaves behind adds up to what its party does. -/

namespace FleetOrchestrator.Interleaving

variable {Op : Type} {Resp : Op → Type} {Party : Type}

def total (f : Entry Op Resp → ℤ) (h : List (Entry Op Resp)) : ℤ := (h.map f).sum

@[simp] theorem total_nil (f : Entry Op Resp → ℤ) : total f [] = 0 := rfl

@[simp] theorem total_cons (f : Entry Op Resp → ℤ) (e : Entry Op Resp)
    (h : List (Entry Op Resp)) : total f (e :: h) = f e + total f h := by
  simp [total]

theorem total_sub (f g : Entry Op Resp → ℤ) (h : List (Entry Op Resp)) :
    total (fun e => f e - g e) h = total f h - total g h := by
  induction h with
  | nil => rfl
  | cons e h ih =>
    simp only [total_cons, ih]
    omega

/-- The operation adds nothing, whatever its answer. -/
def Weightless (f : Entry Op Resp → ℤ) (op : Op) : Prop := ∀ r : Resp op, f ⟨op, r⟩ = 0

/-- The total stays among these values, whatever the answer to the operation. -/
def Weighed (f : Entry Op Resp → ℤ) (ok : ℤ → Prop) (h : List (Entry Op Resp)) (op : Op) : Prop :=
  ∀ r : Resp op, ok (total f (⟨op, r⟩ :: h))

section Weighing

variable {f : Entry Op Resp → ℤ} {ok : ℤ → Prop} {α β : Type} {h : List (Entry Op Resp)} {d : ℤ}

theorem total_weightless {op : Op} (ho : Weightless f op) (r : Resp op) :
    total f (⟨op, r⟩ :: h) = total f h := by
  rw [total_cons, ho r, Int.zero_add]

theorem obeys_weightless {x : Prog Op Resp α} (hx : Uses (Weightless f) x) :
    Obeys (fun h' op => total f h' = total f h ∧ Weightless f op)
      (fun _ h' => total f h' = total f h) x h := by
  induction x generalizing h with
  | ret a => rfl
  | call op k ih =>
    refine ⟨⟨rfl, hx.1⟩, fun r => ?_⟩
    have hrest := ih r (h := ⟨op, r⟩ :: h) (hx.2 r)
    rwa [total_weightless hx.1] at hrest

theorem weighed_uses {x : Prog Op Resp α} (hx : Uses (Weightless f) x) (hd : ok (total f h)) :
    Obeys (Weighed f ok) (fun _ h' => total f h' = total f h) x h := by
  apply obeys_mono (obeys_weightless hx)
  · rintro h' op ⟨he, ho⟩ r
    rw [total_weightless ho, he]
    exact hd
  · exact fun _ _ hq => hq

theorem weighed_composes (hd : ok d) :
    Composes (Weightless f) (Carries (fun h => total f h = d) (Weighed f ok)) := by
  apply composes_carries
  · intro h op hs ho r
    rw [total_weightless ho, hs]
    exact hd
  · intro h op r hs ho
    rw [total_weightless ho, hs]

theorem weighed_step {op : Op} {g : Resp op → Prog Op Resp β}
    {Q : β → List (Entry Op Resp) → Prop} (ho : Weightless f op) (hok : ok d) (hd : total f h = d)
    (hg : ∀ r h', total f h' = d → Obeys (Weighed f ok) Q (g r) h') :
    Obeys (Weighed f ok) Q (Prog.perform op >>= g) h := by
  have hsame (r : Resp op) : total f (⟨op, r⟩ :: h) = d := (total_weightless ho r).trans hd
  exact obeys_step (fun r => (hsame r).symm ▸ hok) fun r => hg r _ (hsame r)

theorem weighed_bind {x : Prog Op Resp α} {g : α → Prog Op Resp β}
    {Q : β → List (Entry Op Resp) → Prop} (hx : Uses (Weightless f) x) (hok : ok d)
    (hd : total f h = d) (hg : ∀ a h', total f h' = d → Obeys (Weighed f ok) Q (g a) h') :
    Obeys (Weighed f ok) Q (x >>= g) h := by
  apply obeys_bind (weighed_uses hx (hd.symm ▸ hok))
  intro a h' hq
  exact hg a h' (hq.trans hd)

end Weighing

section Counting

variable {α : Type}

theorem sum_getElem? (f : α → ℤ) (l : List α) :
    ∑ i ∈ Finset.range l.length, ((l[i]?).map f).getD 0 = (l.map f).sum := by
  induction l with
  | nil => rfl
  | cons a l ih =>
    rw [List.length_cons, Finset.sum_range_succ', List.map_cons, List.sum_cons, ← ih, Int.add_comm]
    rfl

theorem sum_countP (q : α → Bool) (l : List α) :
    (l.map fun a => if q a then (1 : ℤ) else 0).sum = l.countP q := by
  induction l with
  | nil => rfl
  | cons a l ih =>
    rw [List.map_cons, List.sum_cons, ih, List.countP_cons]
    split
    · push_cast
      omega
    · push_cast
      omega

end Counting

section Census

namespace Machine

variable {Act Out State Choice Env : Type} {M : Machine Op Resp Party Act Out State Choice Env}
  {g g' : Thread Op Resp Party Act Out → List (Entry Op Resp) → ℤ}
  {c c' : Config Op Resp Party Act Out State}

/-- What the threads come to together, each by what it is and what it has done. -/
def census (g : Thread Op Resp Party Act Out → List (Entry Op Resp) → ℤ)
    (c : Config Op Resp Party Act Out State) : ℤ :=
  ∑ i ∈ Finset.range c.threads.length, ((c.threads[i]?).map fun t => g t (history c.log i)).getD 0

theorem census_le (hle : ∀ (i : ℕ) (t : Thread Op Resp Party Act Out), c.threads[i]? = some t →
    g t (history c.log i) ≤ g' t (history c.log i)) : census g c ≤ census g' c := by
  apply Finset.sum_le_sum
  intro i hi
  rw [List.getElem?_eq_getElem (Finset.mem_range.mp hi)]
  exact hle i _ (List.getElem?_eq_getElem (Finset.mem_range.mp hi))

theorem census_count (q : Thread Op Resp Party Act Out → Bool) :
    census (fun t _ => if q t then 1 else 0) c = c.threads.countP q := by
  rw [← sum_countP, ← sum_getElem?]
  rfl

theorem census_add : census (fun t h => g t h + g' t h) c = census g c + census g' c := by
  rw [census, census, census, ← Finset.sum_add_distrib]
  apply Finset.sum_congr rfl
  intro i hi
  rw [List.getElem?_eq_getElem (Finset.mem_range.mp hi)]
  rfl

theorem le_census (hz : ∀ (i : ℕ) (t : Thread Op Resp Party Act Out), c.threads[i]? = some t →
    0 ≤ g t (history c.log i)) {i : ℕ} {t : Thread Op Resp Party Act Out}
    (ht : c.threads[i]? = some t) : g t (history c.log i) ≤ census g c := by
  have hi : i ∈ Finset.range c.threads.length :=
    Finset.mem_range.mpr (List.getElem?_eq_some_iff.mp ht).1
  have hmine : ((c.threads[i]?).map fun t => g t (history c.log i)).getD 0 =
      g t (history c.log i) := by
    rw [ht]
    rfl
  rw [← hmine]
  apply Finset.single_le_sum (f := fun i =>
    ((c.threads[i]?).map fun t => g t (history c.log i)).getD 0) _ hi
  intro j hj
  rw [List.getElem?_eq_getElem (Finset.mem_range.mp hj)]
  exact hz j _ (List.getElem?_eq_getElem (Finset.mem_range.mp hj))

theorem census_start {p : Party} {a : Act} (hs : M.step c (.start p a) = some c')
    (hw : LogWithin c) : census g c' = census g c + g (M.thread p a) [] := by
  obtain ⟨-, ht, hl⟩ := step_start hs
  rw [census, ht, hl, List.length_append, List.length_singleton, Finset.sum_range_succ,
    List.getElem?_append_right (Nat.le_refl _), history_of_within hw (Nat.le_refl _),
    Nat.sub_self]
  congr 1
  apply Finset.sum_congr rfl
  intro i hi
  rw [List.getElem?_append_left (Finset.mem_range.mp hi)]

theorem census_env {e : Env} (hs : M.step c (.env e) = some c') : census g c' = census g c := by
  obtain ⟨-, ht, hl⟩ := step_env hs
  rw [census, ht, hl]
  rfl

/-- A step moves its own thread and adds the ones it starts. -/
theorem census_ran {i : ℕ} {ch : Choice} {op : Op} (r : M.Ran c c' i ch op) (hw : LogWithin c) :
    census g c' = census g c +
      (g ⟨r.party, r.act, r.cont r.resp⟩ (⟨op, r.resp⟩ :: history c.log i) -
        g ⟨r.party, r.act, .call op r.cont⟩ (history c.log i)) +
      ((M.spawned op r.resp).map fun a => g (M.thread r.party a) []).sum := by
  obtain ⟨hi, hget⟩ := List.getElem?_eq_some_iff.mp r.was
  have hlen : (c.threads.set i ⟨r.party, r.act, r.cont r.resp⟩).length = c.threads.length :=
    List.length_set
  have hlater (j : ℕ) : history c'.log (c.threads.length + j) = [] := by
    rw [r.log, history_cons_ne _ (by change i ≠ c.threads.length + j; omega),
      history_of_within hw (Nat.le_add_right _ _)]
  have hold (j : ℕ) (hj : j ∈ Finset.range c.threads.length) :
      ((c'.threads[j]?).map fun t => g t (history c'.log j)).getD 0 =
        ((c.threads[j]?).map fun t => g t (history c.log j)).getD 0 + if i = j then
          g ⟨r.party, r.act, r.cont r.resp⟩ (⟨op, r.resp⟩ :: history c.log i) -
            g ⟨r.party, r.act, .call op r.cont⟩ (history c.log i) else 0 := by
    have hj : j < c.threads.length := Finset.mem_range.mp hj
    by_cases hij : i = j
    · subst hij
      obtain ⟨hat, hhist⟩ := r.after
      rw [hat, hhist, r.was, if_pos rfl]
      simp only [Option.map_some, Option.getD_some]
      omega
    · rw [r.threads, r.log, List.getElem?_append_left (hlen.symm ▸ hj), List.getElem?_set_ne hij,
        history_cons_ne _ hij, if_neg hij, Int.add_zero]
  have hnew (j : ℕ) : ((c'.threads[c.threads.length + j]?).map fun t =>
      g t (history c'.log (c.threads.length + j))).getD 0 =
        (((M.spawned op r.resp)[j]?).map fun a => g (M.thread r.party a) []).getD 0 := by
    rw [hlater, r.threads, List.getElem?_append_right (by omega), hlen, Nat.add_sub_cancel_left,
      List.getElem?_map, Option.map_map]
    rfl
  rw [census, r.threads, List.length_append, hlen, List.length_map, Finset.sum_range_add,
    ← r.threads, Finset.sum_congr rfl hold, Finset.sum_add_distrib, Finset.sum_ite_eq,
    if_pos (Finset.mem_range.mpr hi), Finset.sum_congr rfl fun j _ => hnew j, sum_getElem?]
  rfl

end Machine

end Census

variable [DecidableEq Party]

/-- All that the party has done, newest first. -/
def deeds (p : Party) (log : List (Call Op Resp Party)) : List (Entry Op Resp) :=
  (log.filter fun k => k.party = p).map Call.entry

theorem deeds_cons_self (k : Call Op Resp Party) (log : List (Call Op Resp Party)) :
    deeds k.party (k :: log) = k.entry :: deeds k.party log := by
  simp [deeds]

theorem deeds_cons_ne {k : Call Op Resp Party} {p : Party} (log : List (Call Op Resp Party))
    (h : k.party ≠ p) : deeds p (k :: log) = deeds p log := by
  simp [deeds, h]

/-- The party's total, thread by thread. -/
theorem total_deeds (f : Entry Op Resp → ℤ) (p : Party) (n : ℕ) (party : ℕ → Option Party)
    {log : List (Call Op Resp Party)}
    (hn : ∀ k ∈ log, k.thread < n) (hp : ∀ k ∈ log, party k.thread = some k.party) :
    total f (deeds p log) =
      ∑ i ∈ Finset.range n, if party i = some p then total f (history log i) else 0 := by
  induction log with
  | nil => simp [deeds]
  | cons k log ih =>
    have hrest := ih (fun m hm => hn m (List.mem_cons_of_mem k hm))
      fun m hm => hp m (List.mem_cons_of_mem k hm)
    have hparty := hp k List.mem_cons_self
    have hthread (i : ℕ) : (if party i = some p then total f (history (k :: log) i) else 0) =
        (if k.thread = i then (if k.party = p then f k.entry else 0) else 0) +
          if party i = some p then total f (history log i) else 0 := by
      by_cases hi : k.thread = i
      · subst hi
        rw [hparty, history_cons_self, total_cons]
        by_cases hk : k.party = p <;> simp [hk]
      · rw [history_cons_ne log hi, if_neg hi, Int.zero_add]
    rw [Finset.sum_congr rfl fun i _ => hthread i, Finset.sum_add_distrib, ← hrest,
      Finset.sum_ite_eq, if_pos (Finset.mem_range.mpr (hn k List.mem_cons_self))]
    by_cases hk : k.party = p
    · subst hk
      rw [deeds_cons_self, total_cons, if_pos rfl]
    · rw [deeds_cons_ne log hk, if_neg hk, Int.zero_add]

namespace Machine

variable {Act Out State Choice Env : Type} {M : Machine Op Resp Party Act Out State Choice Env}
  {cond : Config Op Resp Party Act Out State → Action Party Act Choice Env → Prop}
  {c₀ c : Config Op Resp Party Act Out State} {f : Entry Op Resp → ℤ} {p : Party}

theorem Reaches.total_deeds (h : M.Reaches cond c₀ c) (h₀ : Fresh c₀) (f : Entry Op Resp → ℤ)
    (p : Party) : total f (deeds p c.log) = ∑ i ∈ Finset.range c.threads.length,
      if (c.threads[i]?).map Thread.party = some p then total f (history c.log i) else 0 := by
  apply Interleaving.total_deeds
  · exact within_of_reaches h₀ h
  · intro k hk
    obtain ⟨t, ht, hp⟩ := logged_party h₀ h k hk
    rw [ht, Option.map_some, hp]

/-- Where every thread of the party leaves nothing, the party leaves nothing. -/
theorem Reaches.total_zero (h : M.Reaches cond c₀ c) (h₀ : Fresh c₀)
    (hz : ∀ (i : ℕ) (t : Thread Op Resp Party Act Out), c.threads[i]? = some t → t.party = p →
      total f (history c.log i) = 0) : total f (deeds p c.log) = 0 := by
  rw [h.total_deeds h₀]
  apply Finset.sum_eq_zero
  intro i _
  split
  · next hp =>
    obtain ⟨t, ht, hpt⟩ := Option.map_eq_some_iff.mp hp
    exact hz i t ht hpt
  · rfl

/-- Where no thread leaves less than nothing, the party leaves as much as any of its threads. -/
theorem Reaches.total_le (h : M.Reaches cond c₀ c) (h₀ : Fresh c₀)
    (hz : ∀ (i : ℕ) (t : Thread Op Resp Party Act Out), c.threads[i]? = some t → t.party = p →
      0 ≤ total f (history c.log i)) {i : ℕ} {t : Thread Op Resp Party Act Out}
    (ht : c.threads[i]? = some t) (hp : t.party = p) :
    total f (history c.log i) ≤ total f (deeds p c.log) := by
  have hi : i ∈ Finset.range c.threads.length :=
    Finset.mem_range.mpr (List.getElem?_eq_some_iff.mp ht).1
  rw [h.total_deeds h₀]
  have hmine : (if (c.threads[i]?).map Thread.party = some p then total f (history c.log i)
      else 0) = total f (history c.log i) := by
    rw [ht, Option.map_some, hp, if_pos rfl]
  rw [← hmine]
  apply Finset.single_le_sum (f := fun i => if (c.threads[i]?).map Thread.party = some p then
    total f (history c.log i) else 0) _ hi
  intro j _
  split
  · next hpj =>
    obtain ⟨u, hu, hpu⟩ := Option.map_eq_some_iff.mp hpj
    exact hz j u hu hpu
  · exact Int.le_refl 0

end Machine

end FleetOrchestrator.Interleaving
