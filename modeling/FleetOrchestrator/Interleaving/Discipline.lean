import FleetOrchestrator.Interleaving.System

/-! What each program does along its own history holds in every interleaving. -/

namespace FleetOrchestrator.Interleaving

namespace Machine

variable {Op : Type} {Resp : Op → Type} {Party Act Out State Choice Env : Type}
  {M : Machine Op Resp Party Act Out State Choice Env}
  {cond : Config Op Resp Party Act Out State → Action Party Act Choice Env → Prop}
  {φ : Party → Act → List (Entry Op Resp) → Op → Prop}
  {Q : Party → Act → Out → List (Entry Op Resp) → Prop}
  {c₀ c c' : Config Op Resp Party Act Out State}

def Disciplined (M : Machine Op Resp Party Act Out State Choice Env)
    (φ : Party → Act → List (Entry Op Resp) → Op → Prop)
    (Q : Party → Act → Out → List (Entry Op Resp) → Prop) : Prop :=
  ∀ p a, Obeys (φ p a) (Q p a) (M.program p a) []

def ThreadsObey (φ : Party → Act → List (Entry Op Resp) → Op → Prop)
    (Q : Party → Act → Out → List (Entry Op Resp) → Prop)
    (c : Config Op Resp Party Act Out State) : Prop :=
  ∀ (i : ℕ) (t : Thread Op Resp Party Act Out), c.threads[i]? = some t →
    Obeys (φ t.party t.act) (Q t.party t.act) t.prog (history c.log i)

/-- Threads beyond the list have done nothing yet. -/
def LogWithin (c : Config Op Resp Party Act Out State) : Prop :=
  ∀ k ∈ c.log, k.thread < c.threads.length

theorem history_of_within (h : LogWithin c) {i : ℕ} (hi : c.threads.length ≤ i) :
    history c.log i = [] := by
  simp only [history, List.map_eq_nil_iff, List.filter_eq_nil_iff, decide_eq_true_eq]
  intro k hk he
  have := h k hk
  omega

theorem within_step {x : Action Party Act Choice Env} (hs : M.step c x = some c')
    (h : LogWithin c) : LogWithin c' := by
  intro k hk
  cases x with
  | start p a =>
    obtain ⟨-, ht, hl⟩ := step_start hs
    rw [hl] at hk
    have := h k hk
    rw [ht, List.length_append]
    omega
  | env e =>
    obtain ⟨-, ht, hl⟩ := step_env hs
    rw [hl] at hk
    rw [ht]
    exact h k hk
  | run i ch =>
    obtain ⟨op, ⟨r⟩⟩ := step_run hs
    have hi := (List.getElem?_eq_some_iff.mp r.was).1
    rw [r.threads, List.length_append, List.length_set]
    rw [r.log, List.mem_cons] at hk
    rcases hk with rfl | hk
    · change i < _
      omega
    · have := h k hk
      omega

theorem obey_step (hD : M.Disciplined φ Q) {x : Action Party Act Choice Env}
    (hs : M.step c x = some c') (hw : LogWithin c) (h : ThreadsObey φ Q c) :
    ThreadsObey φ Q c' := by
  have fresh : ∀ {i : ℕ} {p : Party} {a : Act} {t : Thread Op Resp Party Act Out},
      c.threads.length ≤ i → t = M.thread p a →
      Obeys (φ t.party t.act) (Q t.party t.act) t.prog (history c.log i) := by
    rintro i p a t hi rfl
    rw [history_of_within hw hi]
    exact hD p a
  intro i t ht
  cases x with
  | start p a =>
    obtain ⟨-, hts, hl⟩ := step_start hs
    rw [hl]
    rw [hts] at ht
    rcases Nat.lt_or_ge i c.threads.length with hi | hi
    · exact h i t (by rwa [List.getElem?_append_left hi] at ht)
    · rw [List.getElem?_append_right hi] at ht
      exact fresh hi (List.mem_singleton.mp (List.mem_of_getElem? ht))
  | env e =>
    obtain ⟨-, hts, hl⟩ := step_env hs
    rw [hl]
    rw [hts] at ht
    exact h i t ht
  | run j ch =>
    obtain ⟨op, ⟨r⟩⟩ := step_run hs
    have hj := (List.getElem?_eq_some_iff.mp r.was).1
    rw [r.threads] at ht
    rw [r.log]
    rcases Nat.lt_or_ge i c.threads.length with hi | hi
    · rw [List.getElem?_append_left (by simpa using hi)] at ht
      by_cases hij : j = i
      · subst i
        rw [List.getElem?_set_self hi] at ht
        cases ht
        rw [history_cons_self (⟨j, r.party, op, r.resp⟩ : Call Op Resp Party)]
        exact (h j _ r.was).2 r.resp
      · rw [List.getElem?_set_ne hij] at ht
        rw [history_cons_ne _ hij]
        exact h i t ht
    · have hne : j ≠ i := by omega
      rw [history_cons_ne _ hne]
      rw [List.getElem?_append_right (by simpa using hi)] at ht
      obtain ⟨a, -, ha⟩ := List.mem_map.mp (List.mem_of_getElem? ht)
      exact fresh hi ha.symm

structure Fresh (c₀ : Config Op Resp Party Act Out State) : Prop where
  threads : c₀.threads = []
  log : c₀.log = []

theorem within_of_reaches (h₀ : Fresh c₀) (h : M.Reaches cond c₀ c) : LogWithin c :=
  h.invariant (P := LogWithin) (fun k hk => by rw [h₀.log] at hk; cases hk)
    fun _ _ _ _ _ hs hp => within_step hs hp

/-- In every reachable configuration each activity is still within its discipline. -/
theorem threads_obey (hD : M.Disciplined φ Q) (h₀ : Fresh c₀) (h : M.Reaches cond c₀ c) :
    ThreadsObey φ Q c :=
  h.invariant (P := ThreadsObey φ Q) (fun i t ht => by rw [h₀.threads] at ht; cases ht)
    fun _ _ _ hr _ hs hp => obey_step hD hs (within_of_reaches h₀ hr) hp

/-- The operation a step performs is licensed by what its own activity did before. -/
theorem Ran.licensed (hD : M.Disciplined φ Q) (h₀ : Fresh c₀) (h : M.Reaches cond c₀ c)
    {i : ℕ} {ch : Choice} {op : Op} (r : M.Ran c c' i ch op) :
    φ r.party r.act (history c.log i) op :=
  (threads_obey hD h₀ h i _ r.was).1

/-- The licence of a logged operation, given by what its thread had logged before it. -/
theorem logged_licence (hD : M.Disciplined φ Q) (h₀ : Fresh c₀) (h : M.Reaches cond c₀ c)
    {k : Call Op Resp Party} {l : List (Call Op Resp Party)} (hk : k :: l <:+ c.log) :
    ∃ t, c.threads[k.thread]? = some t ∧ t.party = k.party ∧
      φ k.party t.act (history l k.thread) k.op := by
  have hn : ¬ k :: l <:+ c₀.log := by
    rw [h₀.log, List.suffix_nil]
    exact List.cons_ne_nil k l
  obtain ⟨c₁, c₂, ch, h₁, hc, hs, rfl, ⟨r, hp, -⟩, h₂⟩ := h.step_of_log hk hn
  obtain ⟨t₁, ht₁, hp₁, ha₁⟩ := step_thread hs r.was
  obtain ⟨t₂, ht₂, hp₂, ha₂⟩ := h₂.thread ht₁
  refine ⟨t₂, ht₂, (hp₂.trans hp₁).trans hp, ?_⟩
  rw [ha₂, ha₁, ← hp]
  exact r.licensed hD h₀ h₁

/-- What a finished activity returned is justified by what it did. -/
theorem returned (hD : M.Disciplined φ Q) (h₀ : Fresh c₀) (h : M.Reaches cond c₀ c)
    {i : ℕ} {p : Party} {a : Act} {out : Out} (ht : c.threads[i]? = some ⟨p, a, .ret out⟩) :
    Q p a out (history c.log i) :=
  threads_obey hD h₀ h i _ ht

/-- A fact about every logged operation: it holds once the operation is done, and stays. -/
theorem Reaches.logged {P : Config Op Resp Party Act Out State → Call Op Resp Party → Prop}
    (h : M.Reaches cond c₀ c) (h₀ : Fresh c₀)
    (done : ∀ c c' i ch op (r : M.Ran c c' i ch op), M.Reaches cond c₀ c → cond c (.run i ch) →
      M.step c (.run i ch) = some c' → P c' ⟨i, r.party, op, r.resp⟩)
    (stays : ∀ c x c' k, M.Reaches cond c₀ c → cond c x → M.step c x = some c' → k ∈ c.log →
      P c k → P c' k) :
    ∀ k ∈ c.log, P c k := by
  apply h.invariant (P := fun c => ∀ k ∈ c.log, P c k)
  · intro k hk
    rw [h₀.log] at hk
    cases hk
  · intro c x c' hr hx hs ih k hk
    cases x with
    | start p a =>
      rw [(step_start hs).2.2] at hk
      exact stays c _ c' k hr hx hs hk (ih k hk)
    | env e =>
      rw [(step_env hs).2.2] at hk
      exact stays c _ c' k hr hx hs hk (ih k hk)
    | run i ch =>
      obtain ⟨op, ⟨r⟩⟩ := step_run hs
      rw [r.log] at hk
      rcases List.mem_cons.mp hk with rfl | hk
      · exact done c c' i ch op r hr hx hs
      · exact stays c _ c' k hr hx hs hk (ih k hk)

/-- A logged operation was done at the party of its thread. -/
theorem logged_party (h₀ : Fresh c₀) (h : M.Reaches cond c₀ c) :
    ∀ k ∈ c.log, ∃ t, c.threads[k.thread]? = some t ∧ t.party = k.party := by
  apply h.logged (P := fun c k => ∃ t, c.threads[k.thread]? = some t ∧ t.party = k.party) h₀
  · intro c c' i ch op r _ _ hs
    obtain ⟨t', ht', hp, -⟩ := step_thread hs r.was
    exact ⟨t', ht', hp⟩
  · rintro c x c' k - - hs - ⟨t, ht, hp⟩
    obtain ⟨t', ht', hp', -⟩ := step_thread hs ht
    exact ⟨t', ht', hp'.trans hp⟩

/-- What a thread's history holds was logged by it, at its party. -/
theorem of_history (h₀ : Fresh c₀) (h : M.Reaches cond c₀ c) {i : ℕ}
    {t : Thread Op Resp Party Act Out} (ht : c.threads[i]? = some t) {e : Entry Op Resp}
    (he : e ∈ history c.log i) : (⟨i, t.party, e.op, e.resp⟩ : Call Op Resp Party) ∈ c.log := by
  obtain ⟨k, hk, rfl, rfl⟩ := mem_history.mp he
  obtain ⟨t', ht', hp⟩ := logged_party h₀ h k hk
  rw [ht] at ht'
  cases ht'
  rw [hp]
  exact hk

/-- Every logged operation was a step of a run that began with an empty log. -/
theorem Reaches.at_call (h : M.Reaches cond c₀ c) (h₀ : Fresh c₀) {l : List (Call Op Resp Party)}
    {k : Call Op Resp Party} (hk : k :: l <:+ c.log) :
    ∃ c₁ c₂ ch, M.Reaches cond c₀ c₁ ∧ cond c₁ (.run k.thread ch) ∧
      M.step c₁ (.run k.thread ch) = some c₂ ∧ c₁.log = l ∧
      (∃ r : M.Ran c₁ c₂ k.thread ch k.op, r.party = k.party ∧ r.resp = k.resp) ∧
      M.Reaches cond c₂ c := by
  apply h.step_of_log hk
  rw [h₀.log]
  simp

/-- What a history holds was done by a step of the run, with exactly that behind it. -/
theorem Reaches.step_history (h : M.Reaches cond c₀ c) (h₀ : Fresh c₀) {i : ℕ} {e : Entry Op Resp}
    {h' : List (Entry Op Resp)} (hs : e :: h' <:+ history c.log i) :
    ∃ c₁ c₂ ch, ∃ r : M.Ran c₁ c₂ i ch e.op, r.resp = e.resp ∧ history c₁.log i = h' ∧
      M.Reaches cond c₀ c₁ ∧ cond c₁ (.run i ch) ∧ M.step c₁ (.run i ch) = some c₂ ∧
      M.Reaches cond c₂ c := by
  obtain ⟨k, l, hl, rfl, rfl, rfl⟩ := of_history_at hs
  have hn : ¬ k :: l <:+ c₀.log := by
    rw [h₀.log]
    simp
  obtain ⟨c₁, c₂, ch, h₁, hc, hs₁, rfl, ⟨r, -, hr⟩, h₂⟩ := h.step_of_log hl hn
  exact ⟨c₁, c₂, ch, r, hr, rfl, h₁, hc, hs₁, h₂⟩

theorem Reaches.at_history (h : M.Reaches cond c₀ c) (h₀ : Fresh c₀) {i : ℕ} {e : Entry Op Resp}
    {h' : List (Entry Op Resp)} (hs : e :: h' <:+ history c.log i) :
    ∃ c₁ c₂ ch, ∃ r : M.Ran c₁ c₂ i ch e.op, r.resp = e.resp ∧ history c₁.log i = h' ∧
      M.Reaches cond c₀ c₁ ∧ M.Reaches cond c₁ c₂ ∧ M.Reaches cond c₂ c := by
  obtain ⟨c₁, c₂, ch, r, hr, hh, h₁, hc, hs₁, h₂⟩ := h.step_history h₀ hs
  exact ⟨c₁, c₂, ch, r, hr, hh, h₁, .single hc hs₁, h₂⟩

section Replay

def replay (M : Machine Op Resp Party Act Out State Choice Env)
    (c : Config Op Resp Party Act Out State) :
    List (Action Party Act Choice Env) → Option (Config Op Resp Party Act Out State)
  | [] => some c
  | x :: xs => (M.step c x).bind fun c' => M.replay c' xs

theorem replay_reaches {xs : List (Action Party Act Choice Env)} (h : M.replay c xs = some c') :
    M.Reaches always c c' := by
  induction xs generalizing c with
  | nil => cases h; exact .refl
  | cons x xs ih =>
    simp only [replay, Option.bind_eq_some_iff] at h
    obtain ⟨c₁, hs, h⟩ := h
    exact (Reaches.single (M := M) (x := x) trivial hs).trans (ih h)

theorem replay_append (xs ys : List (Action Party Act Choice Env)) :
    M.replay c (xs ++ ys) = (M.replay c xs).bind fun c' => M.replay c' ys := by
  induction xs generalizing c with
  | nil => rfl
  | cons x xs ih =>
    simp only [List.cons_append, replay, ih, Option.bind_assoc]

/-- The same, as long as every step meets a condition. -/
def replayWhile (M : Machine Op Resp Party Act Out State Choice Env)
    (ok : Config Op Resp Party Act Out State → Action Party Act Choice Env → Bool)
    (c : Config Op Resp Party Act Out State) :
    List (Action Party Act Choice Env) → Option (Config Op Resp Party Act Out State)
  | [] => some c
  | x :: xs => if ok c x then (M.step c x).bind fun c' => M.replayWhile ok c' xs else none

theorem replayWhile_reaches
    {ok : Config Op Resp Party Act Out State → Action Party Act Choice Env → Bool}
    {xs : List (Action Party Act Choice Env)} (h : M.replayWhile ok c xs = some c') :
    M.Reaches (fun c x => ok c x = true) c c' := by
  induction xs generalizing c with
  | nil => cases h; exact .refl
  | cons x xs ih =>
    simp only [replayWhile, Option.ite_none_right_eq_some, Option.bind_eq_some_iff] at h
    obtain ⟨hok, c₁, hs, h⟩ := h
    exact (Reaches.single hok hs).trans (ih h)

/-- Where a list of actions leads; the list is replayed as far as it goes. -/
def after (M : Machine Op Resp Party Act Out State Choice Env)
    (c : Config Op Resp Party Act Out State) (xs : List (Action Party Act Choice Env)) :
    Config Op Resp Party Act Out State :=
  (M.replay c xs).getD c

theorem after_reaches (xs : List (Action Party Act Choice Env)) :
    M.Reaches always c (M.after c xs) := by
  unfold after
  cases h : M.replay c xs with
  | none => exact .refl
  | some c' => exact replay_reaches h

theorem after_step {xs : List (Action Party Act Choice Env)} {x : Action Party Act Choice Env}
    (h : (M.replay c (xs ++ [x])).isSome = true) :
    M.step (M.after c xs) x = some (M.after c (xs ++ [x])) := by
  rw [replay_append] at h
  unfold after
  rw [replay_append]
  cases hr : M.replay c xs with
  | none =>
    rw [hr] at h
    cases h
  | some c₁ =>
    rw [hr] at h
    simp only [Option.bind_some, Option.getD_some, replay] at h ⊢
    cases hs : M.step c₁ x with
    | none =>
      rw [hs] at h
      cases h
    | some c₂ => rfl

end Replay

end Machine

end FleetOrchestrator.Interleaving
