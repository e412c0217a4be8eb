import FleetOrchestrator.Interleaving.Program

/-! Any number of activities, each running its program at some party, interleaved one operation
at a time over a shared state. -/

namespace FleetOrchestrator.Interleaving

structure Machine (Op : Type) (Resp : Op → Type) (Party Act Out State Choice Env : Type) where
  program : Party → Act → Prog Op Resp Out
  /-- One atomic operation, with the answers of the outside world taken from the choice; `none`
  while the operation has to wait. -/
  exec : Choice → Party → (op : Op) → State → Option (Resp op × State)
  /-- The activities the operation leaves behind at the same party. -/
  spawned : (op : Op) → Resp op → List Act
  accept : Party → Act → State → Option State
  disturb : Env → State → Option State

structure Thread (Op : Type) (Resp : Op → Type) (Party Act Out : Type) where
  party : Party
  act : Act
  prog : Prog Op Resp Out

structure Call (Op : Type) (Resp : Op → Type) (Party : Type) where
  thread : ℕ
  party : Party
  op : Op
  resp : Resp op

structure Config (Op : Type) (Resp : Op → Type) (Party Act Out State : Type) where
  state : State
  threads : List (Thread Op Resp Party Act Out)
  /-- Every operation done so far, newest first. -/
  log : List (Call Op Resp Party)

inductive Action (Party Act Choice Env : Type) where
  | start (p : Party) (a : Act)
  | run (i : ℕ) (ch : Choice)
  | env (e : Env)

variable {Op : Type} {Resp : Op → Type} {Party Act Out State Choice Env : Type}

/-- What the thread `i` does next, if it is not at its end. -/
def Config.next (c : Config Op Resp Party Act Out State) (i : ℕ) : Option Op :=
  match c.threads[i]? with
  | some ⟨_, _, .call op _⟩ => some op
  | _ => none

def Call.entry (c : Call Op Resp Party) : Entry Op Resp := ⟨c.op, c.resp⟩

def history (log : List (Call Op Resp Party)) (i : ℕ) : List (Entry Op Resp) :=
  (log.filter fun c => c.thread = i).map Call.entry

@[simp] theorem history_nil (i : ℕ) : history ([] : List (Call Op Resp Party)) i = [] := rfl

theorem history_cons_self (c : Call Op Resp Party) (log : List (Call Op Resp Party)) :
    history (c :: log) c.thread = c.entry :: history log c.thread := by
  simp [history]

theorem history_cons_ne {c : Call Op Resp Party} {i : ℕ} (log : List (Call Op Resp Party))
    (h : c.thread ≠ i) : history (c :: log) i = history log i := by
  simp [history, h]

theorem mem_history {log : List (Call Op Resp Party)} {i : ℕ} {e : Entry Op Resp} :
    e ∈ history log i ↔ ∃ c ∈ log, c.thread = i ∧ c.entry = e := by
  simp only [history, List.mem_map, List.mem_filter, decide_eq_true_eq, and_assoc]

theorem history_suffix {l₁ l₂ : List (Call Op Resp Party)} (h : l₁ <:+ l₂) (i : ℕ) :
    history l₁ i <:+ history l₂ i := by
  obtain ⟨t, rfl⟩ := h
  exact ⟨history t i, by simp [history, List.filter_append]⟩

/-- A logged operation is where it is in the history of its thread. -/
theorem history_at {log l : List (Call Op Resp Party)} {k : Call Op Resp Party}
    (h : k :: l <:+ log) : k.entry :: history l k.thread <:+ history log k.thread := by
  have hs := history_suffix h k.thread
  rwa [history_cons_self] at hs

/-- And what a history holds was logged, with exactly that behind it. -/
theorem of_history_at {log : List (Call Op Resp Party)} {i : ℕ} {e : Entry Op Resp}
    {h : List (Entry Op Resp)} (hs : e :: h <:+ history log i) :
    ∃ k l, k :: l <:+ log ∧ k.thread = i ∧ k.entry = e ∧ history l i = h := by
  induction log with
  | nil =>
    rw [history_nil, List.suffix_nil] at hs
    cases hs
  | cons k log ih =>
    have below (hs : e :: h <:+ history log i) : ∃ k₁ l, k₁ :: l <:+ k :: log ∧ k₁.thread = i ∧
        k₁.entry = e ∧ history l i = h := by
      obtain ⟨k₁, l, hl, hk⟩ := ih hs
      exact ⟨k₁, l, hl.trans (List.suffix_cons _ _), hk⟩
    by_cases hi : k.thread = i
    · subst hi
      rw [history_cons_self] at hs
      rcases List.suffix_cons_iff.mp hs with he | hs
      · cases he
        exact ⟨k, log, List.suffix_rfl, rfl, rfl, rfl⟩
      · exact below hs
    · rw [history_cons_ne log hi] at hs
      exact below hs

namespace Machine

variable (M : Machine Op Resp Party Act Out State Choice Env)

def thread (p : Party) (a : Act) : Thread Op Resp Party Act Out := ⟨p, a, M.program p a⟩

def startIn (c : Config Op Resp Party Act Out State) (p : Party) (a : Act) :
    Option (Config Op Resp Party Act Out State) :=
  (M.accept p a c.state).map fun s =>
    { state := s, threads := c.threads ++ [M.thread p a], log := c.log }

def callIn (c : Config Op Resp Party Act Out State) (i : ℕ) (ch : Choice) (p : Party) (a : Act)
    (op : Op) (k : Resp op → Prog Op Resp Out) : Option (Config Op Resp Party Act Out State) :=
  (M.exec ch p op c.state).map fun rs =>
    { state := rs.2,
      threads := c.threads.set i ⟨p, a, k rs.1⟩ ++ (M.spawned op rs.1).map (M.thread p),
      log := ⟨i, p, op, rs.1⟩ :: c.log }

def runIn (c : Config Op Resp Party Act Out State) (i : ℕ) (ch : Choice) :
    Option (Config Op Resp Party Act Out State) :=
  match c.threads[i]? with
  | some ⟨p, a, .call op k⟩ => M.callIn c i ch p a op k
  | _ => none

def step (c : Config Op Resp Party Act Out State) :
    Action Party Act Choice Env → Option (Config Op Resp Party Act Out State)
  | .start p a => M.startIn c p a
  | .run i ch => M.runIn c i ch
  | .env e => (M.disturb e c.state).map fun s => { c with state := s }

/-- What a step of the thread `i` does. -/
structure Ran (c c' : Config Op Resp Party Act Out State) (i : ℕ) (ch : Choice) (op : Op) where
  party : Party
  act : Act
  cont : Resp op → Prog Op Resp Out
  resp : Resp op
  was : c.threads[i]? = some ⟨party, act, .call op cont⟩
  done : M.exec ch party op c.state = some (resp, c'.state)
  threads : c'.threads =
    c.threads.set i ⟨party, act, cont resp⟩ ++ (M.spawned op resp).map (M.thread party)
  log : c'.log = ⟨i, party, op, resp⟩ :: c.log

variable {M} {c c' : Config Op Resp Party Act Out State}

theorem step_start {p : Party} {a : Act} (h : M.step c (.start p a) = some c') :
    M.accept p a c.state = some c'.state ∧ c'.threads = c.threads ++ [M.thread p a] ∧
      c'.log = c.log := by
  simp only [step, startIn, Option.map_eq_some_iff] at h
  obtain ⟨s, hs, rfl⟩ := h
  exact ⟨hs, rfl, rfl⟩

theorem step_run {i : ℕ} {ch : Choice} (h : M.step c (.run i ch) = some c') :
    ∃ op, Nonempty (M.Ran c c' i ch op) := by
  simp only [step, runIn] at h
  split at h
  · next p a op k hi =>
    simp only [callIn, Option.map_eq_some_iff] at h
    obtain ⟨⟨r, s⟩, hs, rfl⟩ := h
    exact ⟨op, ⟨⟨p, a, k, r, hi, hs, rfl, rfl⟩⟩⟩
  · cases h

theorem step_env {e : Env} (h : M.step c (.env e) = some c') :
    M.disturb e c.state = some c'.state ∧ c'.threads = c.threads ∧ c'.log = c.log := by
  simp only [step, Option.map_eq_some_iff] at h
  obtain ⟨s, hs, rfl⟩ := h
  exact ⟨hs, rfl, rfl⟩

/-- Where the step leaves its own thread. -/
theorem Ran.after {i : ℕ} {ch : Choice} {op : Op} (r : M.Ran c c' i ch op) :
    c'.threads[i]? = some ⟨r.party, r.act, r.cont r.resp⟩ ∧
      history c'.log i = ⟨op, r.resp⟩ :: history c.log i := by
  have hi := (List.getElem?_eq_some_iff.mp r.was).1
  constructor
  · rw [r.threads, List.getElem?_append_left (by simpa using hi), List.getElem?_set_self hi]
  · rw [r.log, history_cons_self (⟨i, r.party, op, r.resp⟩ : Call Op Resp Party)]
    rfl

/-- An operation that can be done is a step of its thread. -/
theorem step_call (ch : Choice) {i : ℕ} {p : Party} {a : Act} {op : Op}
    {k : Resp op → Prog Op Resp Out} {r : Resp op} {s : State}
    (ht : c.threads[i]? = some ⟨p, a, .call op k⟩) (he : M.exec ch p op c.state = some (r, s)) :
    ∃ c', M.step c (.run i ch) = some c' ∧ c'.state = s ∧ c'.threads[i]? = some ⟨p, a, k r⟩ ∧
      history c'.log i = ⟨op, r⟩ :: history c.log i := by
  have hi := (List.getElem?_eq_some_iff.mp ht).1
  refine ⟨⟨s, c.threads.set i ⟨p, a, k r⟩ ++ (M.spawned op r).map (M.thread p),
    ⟨i, p, op, r⟩ :: c.log⟩, ?_, rfl, ?_, history_cons_self _ _⟩
  · simp only [step, runIn, ht, callIn, he, Option.map_some]
  · rw [List.getElem?_append_left (by simpa using hi), List.getElem?_set_self hi]

/-- A step of a thread before an operation does that operation. -/
theorem step_at {i : ℕ} {ch : Choice} {p : Party} {a : Act} {op : Op}
    {k : Resp op → Prog Op Resp Out} (ht : c.threads[i]? = some ⟨p, a, .call op k⟩)
    (hs : M.step c (.run i ch) = some c') :
    ∃ r, M.exec ch p op c.state = some (r, c'.state) ∧ c'.threads[i]? = some ⟨p, a, k r⟩ ∧
      history c'.log i = ⟨op, r⟩ :: history c.log i := by
  obtain ⟨op', ⟨r⟩⟩ := step_run hs
  obtain ⟨hafter, hhist⟩ := r.after
  have hwas := r.was
  rw [ht] at hwas
  cases hwas
  exact ⟨r.resp, r.done, hafter, hhist⟩

theorem Ran.next {i : ℕ} {ch : Choice} {op : Op} (r : M.Ran c c' i ch op) :
    c.next i = some op := by
  simp only [Config.next, r.was]

theorem Ran.op_eq {c₁ c₂ : Config Op Resp Party Act Out State} {i : ℕ} {ch ch' : Choice}
    {op op' : Op} (r : M.Ran c c₁ i ch op) (r' : M.Ran c c₂ i ch' op') : op = op' :=
  Option.some.inj (r.next.symm.trans r'.next)

/-- The configurations reached from `c₀` by steps that all meet `cond`. -/
inductive Reaches (M : Machine Op Resp Party Act Out State Choice Env)
    (cond : Config Op Resp Party Act Out State → Action Party Act Choice Env → Prop) :
    Config Op Resp Party Act Out State → Config Op Resp Party Act Out State → Prop
  | refl {c₀ : Config Op Resp Party Act Out State} : Reaches M cond c₀ c₀
  | tail {c₀ c c' : Config Op Resp Party Act Out State} (x : Action Party Act Choice Env)
      (h : Reaches M cond c₀ c) (hx : cond c x) (hs : M.step c x = some c') :
      Reaches M cond c₀ c'

def always : Config Op Resp Party Act Out State → Action Party Act Choice Env → Prop :=
  fun _ _ => True

variable {cond cond' : Config Op Resp Party Act Out State → Action Party Act Choice Env → Prop}
  {c₀ c₁ c₂ : Config Op Resp Party Act Out State}

theorem Reaches.single {x : Action Party Act Choice Env} (hx : cond c x)
    (hs : M.step c x = some c') : M.Reaches cond c c' := .tail x .refl hx hs

theorem Reaches.trans (h₁ : M.Reaches cond c₀ c₁) (h₂ : M.Reaches cond c₁ c₂) :
    M.Reaches cond c₀ c₂ := by
  induction h₂ with
  | refl => exact h₁
  | tail x h hx hs ih => exact .tail x ih hx hs

theorem Reaches.mono (h : M.Reaches cond c₀ c) (hc : ∀ c x, cond c x → cond' c x) :
    M.Reaches cond' c₀ c := by
  induction h with
  | refl => exact .refl
  | tail x h hx hs ih => exact .tail x ih (hc _ _ hx) hs

theorem Reaches.any (h : M.Reaches cond c₀ c) : M.Reaches always c₀ c :=
  h.mono fun _ _ _ => trivial

/-- The induction rule for invariants: reachability and the condition are at hand in the step. -/
theorem Reaches.invariant {P : Config Op Resp Party Act Out State → Prop}
    (h : M.Reaches cond c₀ c) (h₀ : P c₀)
    (hstep : ∀ c x c', M.Reaches cond c₀ c → cond c x → M.step c x = some c' → P c → P c') :
    P c := by
  induction h with
  | refl => exact h₀
  | tail x h hx hs ih => exact hstep _ x _ h hx hs ih

theorem step_log {x : Action Party Act Choice Env} (hs : M.step c x = some c') :
    c.log <:+ c'.log := by
  cases x with
  | start p a => rw [(step_start hs).2.2]
  | env e => rw [(step_env hs).2.2]
  | run i ch =>
    obtain ⟨op, ⟨r⟩⟩ := step_run hs
    rw [r.log]
    exact List.suffix_cons _ _

theorem Reaches.log_suffix (h : M.Reaches cond c₀ c) : c₀.log <:+ c.log := by
  induction h with
  | refl => exact List.suffix_rfl
  | tail x h hx hs ih => exact ih.trans (step_log hs)

theorem step_threads_le {x : Action Party Act Choice Env} (hs : M.step c x = some c') :
    c.threads.length ≤ c'.threads.length := by
  cases x with
  | start p a => simp [(step_start hs).2.1]
  | env e => rw [(step_env hs).2.1]
  | run i ch =>
    obtain ⟨op, ⟨r⟩⟩ := step_run hs
    simp [r.threads]

/-- A thread keeps its party and its activity. -/
theorem step_thread {x : Action Party Act Choice Env} (hs : M.step c x = some c') {i : ℕ}
    {t : Thread Op Resp Party Act Out} (ht : c.threads[i]? = some t) :
    ∃ t', c'.threads[i]? = some t' ∧ t'.party = t.party ∧ t'.act = t.act := by
  obtain ⟨hi, -⟩ := List.getElem?_eq_some_iff.mp ht
  cases x with
  | start p a =>
    rw [(step_start hs).2.1, List.getElem?_append_left hi]
    exact ⟨t, ht, rfl, rfl⟩
  | env e => rw [(step_env hs).2.1]; exact ⟨t, ht, rfl, rfl⟩
  | run j ch =>
    obtain ⟨op, ⟨r⟩⟩ := step_run hs
    rw [r.threads, List.getElem?_append_left (by simpa using hi)]
    by_cases hij : j = i
    · subst j
      have h := r.was
      rw [ht] at h
      cases h
      exact ⟨_, List.getElem?_set_self hi, rfl, rfl⟩
    · exact ⟨t, by rw [List.getElem?_set_ne hij, ht], rfl, rfl⟩

/-- Threads are continued, started from outside, or left behind by an operation. -/
theorem thread_origin {x : Action Party Act Choice Env} (hs : M.step c x = some c') {i : ℕ}
    {t : Thread Op Resp Party Act Out} (ht : c'.threads[i]? = some t) :
    (∃ t₀, c.threads[i]? = some t₀ ∧ t₀.party = t.party ∧ t₀.act = t.act) ∨
      c.threads.length ≤ i ∧
        ((∃ p a, x = .start p a ∧ t = M.thread p a ∧ i = c.threads.length) ∨
          ∃ j ch op, ∃ r : M.Ran c c' j ch op, ∃ a ∈ M.spawned op r.resp,
            x = .run j ch ∧ t = M.thread r.party a) := by
  by_cases hi : i < c.threads.length
  · obtain ⟨t', ht', hp, ha⟩ := step_thread hs (List.getElem?_eq_getElem hi)
    rw [ht] at ht'
    cases ht'
    exact .inl ⟨_, List.getElem?_eq_getElem hi, hp.symm, ha.symm⟩
  · have hge : c.threads.length ≤ i := Nat.le_of_not_lt hi
    refine .inr ⟨hge, ?_⟩
    cases x with
    | start p a =>
      rw [(step_start hs).2.1, List.getElem?_append_right hge] at ht
      have hz : i - c.threads.length = 0 := by
        have := (List.getElem?_eq_some_iff.mp ht).1
        simpa using this
      refine .inl ⟨p, a, rfl, List.mem_singleton.mp (List.mem_of_getElem? ht), ?_⟩
      omega
    | env e =>
      rw [(step_env hs).2.1] at ht
      exact absurd (List.getElem?_eq_some_iff.mp ht).1 hi
    | run j ch =>
      obtain ⟨op, ⟨r⟩⟩ := step_run hs
      rw [r.threads, List.getElem?_append_right (by simpa using hge)] at ht
      obtain ⟨a, ha, rfl⟩ := List.mem_map.mp (List.mem_of_getElem? ht)
      exact .inr ⟨j, ch, op, r, a, ha, rfl, rfl⟩

theorem Reaches.thread (h : M.Reaches cond c c') {i : ℕ} {t : Thread Op Resp Party Act Out}
    (ht : c.threads[i]? = some t) :
    ∃ t', c'.threads[i]? = some t' ∧ t'.party = t.party ∧ t'.act = t.act := by
  induction h with
  | refl => exact ⟨t, ht, rfl, rfl⟩
  | tail x h hx hs ih =>
    obtain ⟨t₁, ht₁, hp₁, ha₁⟩ := ih
    obtain ⟨t₂, ht₂, hp₂, ha₂⟩ := step_thread hs ht₁
    exact ⟨t₂, ht₂, hp₂.trans hp₁, ha₂.trans ha₁⟩

/-- Who took a step, and in which activity, is still told by the thread. -/
theorem Ran.still {i : ℕ} {ch : Choice} {op : Op} (r : M.Ran c₁ c₂ i ch op)
    (h : M.Reaches cond c₂ c) {t : Thread Op Resp Party Act Out} (ht : c.threads[i]? = some t) :
    t.party = r.party ∧ t.act = r.act := by
  obtain ⟨t', ht', hp, ha⟩ := h.thread r.after.1
  rw [ht] at ht'
  cases ht'
  exact ⟨hp, ha⟩

/-- A thread stays where it is while others run. -/
theorem step_idle {x : Action Party Act Choice Env} (hs : M.step c x = some c') {i : ℕ}
    {t : Thread Op Resp Party Act Out} (ht : c.threads[i]? = some t) (hx : ∀ ch, x ≠ .run i ch) :
    c'.threads[i]? = some t ∧ history c'.log i = history c.log i := by
  have hi := (List.getElem?_eq_some_iff.mp ht).1
  cases x with
  | start q b =>
    obtain ⟨-, hts, hl⟩ := step_start hs
    rw [hts, hl, List.getElem?_append_left hi]
    exact ⟨ht, rfl⟩
  | env e =>
    obtain ⟨-, hts, hl⟩ := step_env hs
    rw [hts, hl]
    exact ⟨ht, rfl⟩
  | run j ch =>
    obtain ⟨op, ⟨r⟩⟩ := step_run hs
    have hij : j ≠ i := by
      rintro rfl
      exact hx ch rfl
    rw [r.threads, r.log, List.getElem?_append_left (by simpa using hi), List.getElem?_set_ne hij,
      history_cons_ne _ hij]
    exact ⟨ht, rfl⟩

/-- A thread whose history is still the same has not moved. -/
theorem Reaches.idle (h : M.Reaches cond c c') {i : ℕ} {t : Thread Op Resp Party Act Out}
    (ht : c.threads[i]? = some t) (hh : history c'.log i = history c.log i) :
    c'.threads[i]? = some t := by
  induction h with
  | refl => exact ht
  | @tail c₁ c₂ x h hx hs ih =>
    have hfirst := history_suffix h.log_suffix i
    have hlast := history_suffix (step_log hs) i
    have hsame : history c₁.log i = history c.log i := by
      apply List.IsSuffix.eq_of_length_le
      · exact hh ▸ hlast
      · exact hfirst.length_le
    refine (step_idle hs (ih hsame) ?_).1
    rintro ch rfl
    obtain ⟨op, ⟨r⟩⟩ := step_run hs
    have hlonger := r.after.2
    rw [hh, hsame] at hlonger
    exact List.cons_ne_self _ _ hlonger.symm

/-- A thread that has returned does nothing any more. -/
theorem step_finished {x : Action Party Act Choice Env} (hs : M.step c x = some c') {i : ℕ}
    {p : Party} {a : Act} {out : Out} (ht : c.threads[i]? = some ⟨p, a, .ret out⟩) :
    c'.threads[i]? = some ⟨p, a, .ret out⟩ ∧ history c'.log i = history c.log i := by
  apply step_idle hs ht
  rintro ch rfl
  obtain ⟨op, ⟨r⟩⟩ := step_run hs
  have h := r.was
  rw [ht] at h
  cases h

theorem Reaches.finished (h : M.Reaches cond c c') {i : ℕ} {p : Party} {a : Act} {out : Out}
    (ht : c.threads[i]? = some ⟨p, a, .ret out⟩) :
    c'.threads[i]? = some ⟨p, a, .ret out⟩ ∧ history c'.log i = history c.log i := by
  induction h with
  | refl => exact ⟨ht, rfl⟩
  | tail x h hx hs ih =>
    obtain ⟨ht', hh⟩ := step_finished hs ih.1
    exact ⟨ht', hh.trans ih.2⟩

/-- Every logged operation was a step of the run. -/
theorem Reaches.step_of_log (h : M.Reaches cond c₀ c) {l : List (Call Op Resp Party)}
    {k : Call Op Resp Party} (hk : k :: l <:+ c.log) (hn : ¬ k :: l <:+ c₀.log) :
    ∃ c₁ c₂ ch, M.Reaches cond c₀ c₁ ∧ cond c₁ (.run k.thread ch) ∧
      M.step c₁ (.run k.thread ch) = some c₂ ∧ c₁.log = l ∧
      (∃ r : M.Ran c₁ c₂ k.thread ch k.op, r.party = k.party ∧ r.resp = k.resp) ∧
      M.Reaches cond c₂ c := by
  induction h with
  | refl => exact absurd hk hn
  | @tail c c' x h hx hs ih =>
    by_cases hc : k :: l <:+ c.log
    · obtain ⟨c₁, c₂, ch, h₁, hch, hs₁, hl, hr, h₂⟩ := ih hc
      exact ⟨c₁, c₂, ch, h₁, hch, hs₁, hl, hr, .tail x h₂ hx hs⟩
    · cases x with
      | start p a => rw [(step_start hs).2.2] at hk; exact absurd hk hc
      | env e => rw [(step_env hs).2.2] at hk; exact absurd hk hc
      | run i ch =>
        obtain ⟨op, ⟨r⟩⟩ := step_run hs
        rw [r.log] at hk
        rcases List.suffix_cons_iff.mp hk with he | he
        · cases he
          exact ⟨c, c', ch, h, hx, hs, rfl, ⟨r, rfl, rfl⟩, .refl⟩
        · exact absurd he hc

end Machine

end FleetOrchestrator.Interleaving
