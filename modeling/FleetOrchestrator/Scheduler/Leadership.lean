import FleetOrchestrator.Scheduler.Process
import FleetOrchestrator.Store.LeaseRuns

/-! Any number of instances compete for the control lease of a cluster, each in the loop of its lease
manager, and hand out fences while they believe to hold it. -/

namespace FleetOrchestrator.Scheduler.Leadership

open Core Store Tables

/-- Where the loop of a lease manager stands. An answer of the store is there before it is looked
at. -/
inductive Phase where
  | ready
  | acquired (answer : Except StoreError ControlLease)
  | holding (epoch : ℤ)
  | renewed (epoch : ℤ) (answer : Except StoreError ControlLease)
  | waiting
  | releasing (epoch : Option ℤ)
  | ended
  | dead

structure Manager where
  status : LeaseStatus := .stopped
  phase : Phase := .ready
  cancelled : Bool := false

def Manager.enter (m : Manager) (phase : Phase) : Manager := { m with phase }

@[simp] theorem Manager.enter_phase (m : Manager) (x : Phase) : (m.enter x).phase = x := rfl

@[simp] theorem Manager.enter_status (m : Manager) (x : Phase) : (m.enter x).status = m.status := rfl

@[simp] theorem Manager.enter_cancelled (m : Manager) (x : Phase) :
    (m.enter x).cancelled = m.cancelled := rfl

/-- What becomes of a call of the store: it may fail before it has an effect, or after. -/
inductive Fate where
  | served
  | failed (e : StoreError)
  | lost (e : StoreError)

def Fate.of {α : Type} (f : Fate) (s : StoreState) (r : Except StoreError α × StoreState) :
    Except StoreError α × StoreState :=
  match f with
  | .served => r
  | .failed e => (.error e, s)
  | .lost e => (.error e, r.2)

inductive Deed where
  | attempt (f : Fate)
  | look
  | tick (f : Fate)
  | leave
  | wake
  | release (f : Fate)
  | cancel
  | die

def acquire (b : Backend) (K : LeaseIdentity) (s : StoreState) (f : Fate) :=
  f.of s (b.acquireControlLease s K.clusterId K.instanceId K.ttl (some K.binaryVersion))

def renew (b : Backend) (K : LeaseIdentity) (s : StoreState) (epoch : ℤ) (f : Fate) :=
  f.of s (b.renewControlLease s K.clusterId K.instanceId epoch K.ttl)

def releaseLease (b : Backend) (K : LeaseIdentity) (s : StoreState) (epoch : ℤ) (f : Fate) :=
  f.of s (b.releaseControlLease s K.clusterId K.instanceId epoch)

/-- What the manager makes of an answer of the store. -/
def Manager.look (m : Manager) : Option Manager :=
  match m.phase with
  | .acquired (.ok l) => some { m with status := .active l.epoch, phase := .holding l.epoch }
  | .acquired (.error _) => some { m with status := .stopped, phase := .waiting }
  | .renewed epoch (.ok l) => some { m with status := .active l.epoch, phase := .holding epoch }
  | .renewed _ (.error _) => some { m with status := .fenced, phase := .waiting }
  | _ => none

def Manager.turn (b : Backend) (K : LeaseIdentity) (s : StoreState) (m : Manager) :
    Deed → Option (Manager × StoreState)
  | .attempt f =>
    match m.phase with
    | .ready =>
      -- a cancelled loop ends, and gives back what it still believes to hold
      if m.cancelled then
        some ({ m with status := .stopped, phase := .releasing m.status.epoch }, s)
      else
        let r := acquire b K s f
        some (m.enter (.acquired r.1), r.2)
    | _ => none
  | .look => m.look.map fun m' => (m', s)
  | .tick f =>
    match m.phase with
    | .holding epoch =>
      let r := renew b K s epoch f
      some (m.enter (.renewed epoch r.1), r.2)
    | _ => none
  | .leave =>
    match m.phase with
    | .holding _ => if m.cancelled then some (m.enter .waiting, s) else none
    | _ => none
  | .wake =>
    match m.phase with
    | .waiting => some (m.enter .ready, s)
    | _ => none
  | .release f =>
    match m.phase with
    | .releasing none => some (m.enter .ended, s)
    | .releasing (some epoch) => some (m.enter .ended, (releaseLease b K s epoch f).2)
    | _ => none
  | .cancel => some ({ m with cancelled := true }, s)
  -- the process is gone, or its loop was aborted and its status stays what it was
  | .die => some (m.enter .dead, s)

structure Election where
  store : StoreState
  managers : ℕ → Manager := fun _ => {}

inductive ElectionAction where
  | turn (i : ℕ) (d : Deed)
  /-- A write of a task's status by anybody, with whatever fence. -/
  | write (id : TaskId) (expected : List TaskPhase) (new : TaskStatus) (fence : Option ControlFence)
      (origin : TransitionOrigin)
  | elapse (d : ℕ)

def Election.step (b : Backend) (K : ℕ → LeaseIdentity) (c : Election) :
    ElectionAction → Option Election
  | .turn i d => ((c.managers i).turn b (K i) c.store d).map fun r =>
    { store := r.2, managers := Function.update c.managers i r.1 }
  | .write id expected new fence origin =>
    some { c with store := (b.compareAndSetTaskStatus c.store id expected new fence origin).2 }
  | .elapse d => some { c with store := { c.store with now := c.store.now + d } }

/-- Runs whose steps all meet a condition. -/
inductive Leads (b : Backend) (K : ℕ → LeaseIdentity) (cond : ElectionAction → Prop)
    (c₀ : Election) : Election → Prop
  | refl : Leads b K cond c₀ c₀
  | tail {c c' : Election} (x : ElectionAction) (h : Leads b K cond c₀ c) (hx : cond x)
      (hs : c.step b K x = some c') : Leads b K cond c₀ c'

/-- The store answers the call, whatever it says. -/
def Deed.Answered : Deed → Prop
  | .attempt f | .tick f | .release f => f = .served
  | _ => True

/-- The store answers all the calls of the instance. -/
def AnswersTo (i : ℕ) (x : ElectionAction) : Prop := ∀ d, x = .turn i d → d.Answered

/-- Instances start with nothing, one after another. -/
def beginning (s : StoreState) : Election := { store := s }

/-- The fence that the observer of an instance hands out. -/
def Election.fence (K : ℕ → LeaseIdentity) (c : Election) (i : ℕ) : Option ControlFence :=
  (c.managers i).status.epoch.map fun epoch => ⟨(K i).clusterId, epoch⟩

/-- The store lets some write with that fence pass. -/
def Honoured (b : Backend) (s : StoreState) (fence : ControlFence) : Prop :=
  ∃ id expected new origin,
    (b.compareAndSetTaskStatus s id expected new (some fence) origin).1 ≠ .ok .fenced

/-- No two instances have one name. -/
def Named (K : ℕ → LeaseIdentity) : Prop := ∀ i j, (K i).instanceId = (K j).instanceId → i = j

/-- The epoch was granted to the instance: the row has gone further, or is still the instance's. -/
def Granted (s : StoreState) (K : LeaseIdentity) (epoch : ℤ) : Prop :=
  ∃ l, s.controlLeases.get K.clusterId = some l ∧ epoch ≤ l.epoch ∧
    (l.epoch = epoch → l.activeInstanceId = K.instanceId)

section Steps

variable {b : Backend} {K : LeaseIdentity} {s s' : StoreState} {f : Fate} {epoch : ℤ} {k : String}

theorem of_row {α : Type} {r : Except StoreError α × StoreState} (f : Fate)
    (hr : RowStep s.now (s.controlLeases.get k) (r.2.controlLeases.get k)) :
    RowStep s.now (s.controlLeases.get k) ((f.of s r).2.controlLeases.get k) := by
  cases f with
  | served => exact hr
  | failed e => exact .same _
  | lost e => exact hr

theorem of_now {α : Type} {r : Except StoreError α × StoreState} (f : Fate)
    (hr : r.2.now = s.now) : (f.of s r).2.now = s.now := by
  cases f with
  | served => exact hr
  | failed e => rfl
  | lost e => exact hr

theorem of_ok {α : Type} {r : Except StoreError α × StoreState} {a : α}
    (h : (f.of s r).1 = .ok a) : f.of s r = r := by
  cases f with
  | served => rfl
  | failed e => cases h
  | lost e => cases h

/-- What a manager can do, and what becomes of the store. -/
inductive Turned (b : Backend) (K : LeaseIdentity) (s : StoreState) (m : Manager) :
    Deed → Manager → StoreState → Prop
  | stops (f : Fate) (hp : m.phase = .ready) (hc : m.cancelled = true) :
      Turned b K s m (.attempt f)
        { m with status := .stopped, phase := .releasing m.status.epoch } s
  | attempts (f : Fate) (hp : m.phase = .ready) (hc : ¬ m.cancelled = true) :
      Turned b K s m (.attempt f) (m.enter (.acquired (acquire b K s f).1)) (acquire b K s f).2
  | looks (m' : Manager) (hm : m.look = some m') : Turned b K s m .look m' s
  | renews (f : Fate) (epoch : ℤ) (hp : m.phase = .holding epoch) :
      Turned b K s m (.tick f) (m.enter (.renewed epoch (renew b K s epoch f).1))
        (renew b K s epoch f).2
  | leaves (epoch : ℤ) (hp : m.phase = .holding epoch) (hc : m.cancelled = true) :
      Turned b K s m .leave (m.enter .waiting) s
  | wakes (hp : m.phase = .waiting) : Turned b K s m .wake (m.enter .ready) s
  | ends (f : Fate) (hp : m.phase = .releasing none) :
      Turned b K s m (.release f) (m.enter .ended) s
  | releases (f : Fate) (epoch : ℤ) (hp : m.phase = .releasing (some epoch)) :
      Turned b K s m (.release f) (m.enter .ended) (releaseLease b K s epoch f).2
  | cancels : Turned b K s m .cancel { m with cancelled := true } s
  | dies : Turned b K s m .die (m.enter .dead) s

theorem turned {m m' : Manager} {d : Deed} (h : m.turn b K s d = some (m', s')) :
    Turned b K s m d m' s' := by
  cases d with
  | attempt f =>
    simp only [Manager.turn] at h
    split at h
    case h_2 => cases h
    case h_1 hp =>
      split_ifs at h with hc
      · cases h
        exact .stops f hp hc
      · cases h
        exact .attempts f hp hc
  | look =>
    obtain ⟨x, hx, he⟩ := Option.map_eq_some_iff.mp h
    cases he
    exact .looks m' hx
  | tick f =>
    simp only [Manager.turn] at h
    split at h
    case h_2 => cases h
    case h_1 epoch hp =>
      cases h
      exact .renews f epoch hp
  | leave =>
    simp only [Manager.turn] at h
    split at h
    case h_2 => cases h
    case h_1 epoch hp =>
      split_ifs at h with hc
      cases h
      exact .leaves epoch hp hc
  | wake =>
    simp only [Manager.turn] at h
    split at h
    case h_2 => cases h
    case h_1 hp =>
      cases h
      exact .wakes hp
  | release f =>
    simp only [Manager.turn] at h
    split at h
    case h_1 hp =>
      cases h
      exact .ends f hp
    case h_2 epoch hp =>
      cases h
      exact .releases f epoch hp
    case h_3 => cases h
  | cancel =>
    cases h
    exact .cancels
  | die =>
    cases h
    exact .dies

theorem turn_row {m m' : Manager} {d : Deed} (h : m.turn b K s d = some (m', s')) :
    RowStep s.now (s.controlLeases.get k) (s'.controlLeases.get k) ∧ s'.now = s.now := by
  cases turned h with
  | attempts f => exact ⟨of_row f acquire_row, of_now f acquire_now⟩
  | renews f epoch => exact ⟨of_row f renew_row, of_now f renew_now⟩
  | releases f epoch => exact ⟨of_row f release_row, of_now f release_now⟩
  | stops | looks | leaves | wakes | ends | cancels | dies => exact ⟨.same _, rfl⟩

theorem Granted.step (h : Granted s K epoch)
    (hr : RowStep s.now (s.controlLeases.get K.clusterId) (s'.controlLeases.get K.clusterId)) :
    Granted s' K epoch := by
  obtain ⟨l, hl, he, hown⟩ := h
  unfold Granted
  rw [hl] at hr
  generalize s'.controlLeases.get K.clusterId = row at hr ⊢
  cases hr with
  | same => exact ⟨l, rfl, he, hown⟩
  | next _ l' _ hnext =>
    refine ⟨l', rfl, by omega, fun heq => ?_⟩
    omega
  | renewed _ ttl => exact ⟨_, rfl, he, hown⟩
  | released => exact ⟨_, rfl, he, hown⟩

end Steps

/-- The epochs that a manager goes by. -/
inductive Relies (m : Manager) (epoch : ℤ) : Prop where
  | status (h : m.status = .active epoch)
  | acquired (l : ControlLease) (h : m.phase = .acquired (.ok l)) (he : l.epoch = epoch)
  | holding (h : m.phase = .holding epoch)
  | renewing (r : Except StoreError ControlLease) (h : m.phase = .renewed epoch r)
  | renewed (e : ℤ) (l : ControlLease) (h : m.phase = .renewed e (.ok l)) (he : l.epoch = epoch)

/-- The manager is not amid a tenure. -/
def Phase.isIdle : Phase → Bool
  | .acquired _ | .holding _ | .renewed .. => false
  | _ => true

theorem Relies.idle {m m' : Manager} {epoch : ℤ} (h : Relies m' epoch)
    (hp : m'.phase.isIdle = true) (hs : m'.status = m.status) : Relies m epoch := by
  cases h with
  | status h => exact .status (hs ▸ h)
  | acquired l h | holding h | renewing r h | renewed e l h =>
    rw [h] at hp
    cases hp

theorem Relies.same {m m' : Manager} {epoch : ℤ} (h : Relies m' epoch)
    (hp : m'.phase = m.phase) (hs : m'.status = m.status) : Relies m epoch := by
  cases h with
  | status h => exact .status (hs ▸ h)
  | acquired l h he => exact .acquired l (hp ▸ h) he
  | holding h => exact .holding (hp ▸ h)
  | renewing r h => exact .renewing r (hp ▸ h)
  | renewed e l h he => exact .renewed e l (hp ▸ h) he

section Grants

variable {b : Backend} {K : LeaseIdentity} {s s' : StoreState} {m m' : Manager} {epoch : ℤ}

theorem acquired_granted {f : Fate} {l : ControlLease} (h : (acquire b K s f).1 = .ok l) :
    Granted (acquire b K s f).2 K l.epoch := by
  unfold acquire at h ⊢
  have hs := of_ok h
  rw [hs] at h ⊢
  obtain ⟨⟨-, hown⟩, hget, -⟩ := acquired (Prod.ext h rfl)
  exact ⟨l, hget, Int.le_refl _, fun _ => hown⟩

theorem renewed_epoch {f : Fate} {l : ControlLease} (h : (renew b K s epoch f).1 = .ok l) :
    l.epoch = epoch := by
  unfold renew at h
  rw [of_ok h] at h
  rcases renew_cases b s K.clusterId K.instanceId epoch K.ttl with ⟨x, -, -, he, -, hr⟩ | ⟨-, hr⟩
  · rw [hr] at h
    cases h
    exact he
  · rw [hr] at h
    cases h

/-- What a manager makes of an answer rests on an epoch that it was told. -/
theorem relies_look (h : m.look = some m') (hr : Relies m' epoch) : Relies m epoch := by
  simp only [Manager.look] at h
  split at h
  case h_1 l hp =>
    cases h
    apply Relies.acquired l hp
    cases hr with
    | status h => exact LeaseStatus.active.inj h
    | holding h => exact Phase.holding.inj h
    | acquired l h | renewing r h | renewed e l h => cases h
  case h_2 =>
    cases h
    cases hr <;> contradiction
  case h_3 e l hp =>
    cases h
    cases hr with
    | status h => exact .renewed e l hp (LeaseStatus.active.inj h)
    | holding h =>
      obtain rfl := Phase.holding.inj h
      exact .renewing _ hp
    | acquired l h | renewing r h | renewed e l h => cases h
  case h_4 =>
    cases h
    cases hr <;> contradiction
  case h_5 => cases h

/-- An epoch that a manager goes by it has gone by before, or it was granted now. -/
theorem relies_turn {d : Deed} (h : m.turn b K s d = some (m', s')) (hr : Relies m' epoch) :
    Relies m epoch ∨ Granted s' K epoch := by
  cases turned h with
  | stops => cases hr <;> contradiction
  | attempts f =>
    cases hr with
    | status h => exact .inl (.status h)
    | acquired l h he =>
      rw [← he]
      exact .inr (acquired_granted (Phase.acquired.inj h))
    | holding h | renewing r h | renewed e l h => cases h
  | looks _ hm => exact .inl (relies_look hm hr)
  | renews f e hp =>
    left
    cases hr with
    | status h => exact .status h
    | renewing r h =>
      obtain rfl := (Phase.renewed.inj h).1
      exact .holding hp
    | renewed e' l h he =>
      obtain ⟨rfl, hr⟩ := Phase.renewed.inj h
      rw [← he, renewed_epoch hr]
      exact .holding hp
    | acquired l h | holding h => cases h
  | leaves | wakes | ends | releases | dies => exact .inl (hr.idle rfl rfl)
  | cancels => exact .inl (hr.same rfl rfl)

end Grants

section Runs

variable {b : Backend} {K : ℕ → LeaseIdentity} {cond : ElectionAction → Prop} {s : StoreState}
  {c c' c₁ c₂ : Election} {i j : ℕ} {epoch : ℤ} {k : String}

theorem step_row {x : ElectionAction} (h : c.step b K x = some c') :
    RowStep c.store.now (c.store.controlLeases.get k) (c'.store.controlLeases.get k) := by
  cases x with
  | turn i d =>
    obtain ⟨r, ht, rfl⟩ := Option.map_eq_some_iff.mp h
    exact (turn_row ht).1
  | write id expected new fence origin =>
    cases h
    simp only [(cas_frame c.store id expected new fence origin).1]
    exact .same _
  | elapse d =>
    cases h
    exact .same _

theorem granted_step {x : ElectionAction} (h : c.step b K x = some c')
    (hg : ∀ i e, Relies (c.managers i) e → Granted c.store (K i) e) (i : ℕ) (e : ℤ)
    (hr : Relies (c'.managers i) e) : Granted c'.store (K i) e := by
  have keep (hr : Relies (c.managers i) e) : Granted c'.store (K i) e :=
    (hg i e hr).step (step_row h)
  cases x with
  | turn j d =>
    obtain ⟨r, ht, rfl⟩ := Option.map_eq_some_iff.mp h
    by_cases hij : i = j
    · subst hij
      simp only [Function.update_self] at hr
      rcases relies_turn ht hr with hr | hnew
      · exact keep hr
      · exact hnew
    · simp only [Function.update_of_ne hij] at hr
      exact keep hr
  | write id expected new fence origin =>
    cases h
    exact keep hr
  | elapse d =>
    cases h
    exact keep hr

/-- Whatever epoch a manager goes by, it was granted to its instance. -/
theorem granted_run (h : Leads b K cond (beginning s) c) :
    ∀ i e, Relies (c.managers i) e → Granted c.store (K i) e := by
  induction h with
  | refl =>
    intro i e hr
    cases hr <;> contradiction
  | tail x _ _ hs ih => exact granted_step hs ih

theorem Granted.run {identity : LeaseIdentity} (hg : Granted c.store identity epoch)
    (h : Leads b K cond c c') : Granted c'.store identity epoch := by
  induction h with
  | refl => exact hg
  | tail x _ _ hs ih => exact ih.step (step_row hs)

theorem reached_run (hr : EpochReached c.store k epoch) (h : Leads b K cond c c') :
    EpochReached c'.store k epoch := by
  induction h with
  | refl => exact hr
  | tail x _ _ hs ih => exact ih.step (step_row hs)

/-- The store asks for the epoch of the row, and not whether the lease has run out. -/
theorem honoured_iff {fence : ControlFence} :
    Honoured b s fence ↔ s.heldEpoch fence.clusterId = some fence.epoch := by
  have fenced (id : TaskId) (expected : List TaskPhase) (new : TaskStatus)
      (origin : TransitionOrigin) :
      (b.compareAndSetTaskStatus s id expected new (some fence) origin).1 = .ok .fenced ↔
        s.heldEpoch fence.clusterId ≠ some fence.epoch := by
    rw [backend_cas, (memStore_meets_contract s id expected new (some fence) origin).fenced]
    constructor
    · rintro ⟨f, hf, hn⟩
      cases hf
      exact hn
    · exact fun hn => ⟨fence, rfl, hn⟩
  constructor
  · rintro ⟨id, expected, new, origin, hne⟩
    by_contra hn
    exact hne ((fenced id expected new origin).mpr hn)
  · intro hh
    exact ⟨⟨0⟩, [], .pending, .controlDecision, fun hf => (fenced _ _ _ _).mp hf hh⟩

theorem Granted.held {identity : LeaseIdentity} (hg : Granted s identity epoch)
    (hh : Honoured b s ⟨identity.clusterId, epoch⟩) :
    Held s identity.clusterId identity.instanceId epoch := by
  obtain ⟨l, hl, -, hown⟩ := hg
  have he : l.epoch = epoch := by simpa [honoured_iff, StoreState.heldEpoch, hl] using hh
  exact ⟨l, hl, hown he, he⟩

/-- An honoured fence was honoured ever since its epoch was granted. -/
theorem Granted.honoured {identity : LeaseIdentity} (hg : Granted c.store identity epoch)
    (h : Leads b K cond c c') (hh : Honoured b c'.store ⟨identity.clusterId, epoch⟩) :
    Honoured b c.store ⟨identity.clusterId, epoch⟩ := by
  obtain ⟨l, hl, hle, -⟩ := hg
  have hreached : EpochReached c.store identity.clusterId l.epoch := ⟨l, hl, Int.le_refl _⟩
  obtain ⟨l', hl', hle'⟩ := reached_run hreached h
  have he' : l'.epoch = epoch := by simpa [honoured_iff, StoreState.heldEpoch, hl'] using hh
  have he : l.epoch = epoch := by omega
  simp [honoured_iff, StoreState.heldEpoch, hl, he]

theorem fence_relies {fence : ControlFence} (h : c.fence K i = some fence) :
    fence = ⟨(K i).clusterId, fence.epoch⟩ ∧ Relies (c.managers i) fence.epoch := by
  obtain ⟨e, he, rfl⟩ := Option.map_eq_some_iff.mp h
  refine ⟨rfl, .status ?_⟩
  generalize (c.managers i).status = st at he
  cases st with
  | active e' =>
    cases he
    rfl
  | stopped | fenced => cases he

/-- Of all the fences that the instances have ever handed out, the store honours at a time those of
one instance, and of one epoch; and a fence that it once refuses it refuses for good. -/
theorem fences_exclusive (hK : Named K) {f₁ f₂ : ControlFence}
    (h₁ : Leads b K cond (beginning s) c₁) (hf₁ : c₁.fence K i = some f₁)
    (hc₁ : Leads b K cond c₁ c) (h₂ : Leads b K cond (beginning s) c₂)
    (hf₂ : c₂.fence K j = some f₂) (hc₂ : Leads b K cond c₂ c)
    (hsame : f₁.clusterId = f₂.clusterId) :
    (Honoured b c.store f₁ → Honoured b c.store f₂ → i = j ∧ f₁ = f₂) ∧
      ∀ c', Leads b K cond c c' → Honoured b c'.store f₁ → Honoured b c.store f₁ := by
  obtain ⟨he₁, hr₁⟩ := fence_relies hf₁
  obtain ⟨he₂, hr₂⟩ := fence_relies hf₂
  have hg₁ := (granted_run h₁ i _ hr₁).run hc₁
  have hg₂ := (granted_run h₂ j _ hr₂).run hc₂
  constructor
  · intro hh₁ hh₂
    rw [he₁] at hh₁
    rw [he₂] at hh₂
    obtain ⟨l, hl, ha, he⟩ := hg₁.held hh₁
    obtain ⟨l', hl', ha', he'⟩ := hg₂.held hh₂
    have hcluster : (K i).clusterId = (K j).clusterId := by
      rw [he₁, he₂] at hsame
      exact hsame
    rw [← hcluster, hl] at hl'
    cases hl'
    refine ⟨hK i j (ha.symm.trans ha'), ?_⟩
    rw [he₁, he₂, hcluster, ← he, ← he']
  · intro c' h' hh
    rw [he₁] at hh ⊢
    exact hg₁.honoured h' hh

end Runs

section Contenders

def contender (i : ℕ) : LeaseIdentity where
  clusterId := "fleet"
  instanceId := String.ofList (List.replicate i 'i')
  binaryVersion := "1"

theorem contender_named : Named contender := by
  intro i j h
  have hlength := congrArg (fun name : String => name.toList.length) h
  simpa [contender] using hlength

/-- A step that is not possible is left out. -/
def Election.after (b : Backend) (K : ℕ → LeaseIdentity) (c : Election)
    (xs : List ElectionAction) : Election :=
  xs.foldl (fun c x => (c.step b K x).getD c) c

theorem after_leads {b : Backend} {K : ℕ → LeaseIdentity} {cond : ElectionAction → Prop}
    {c₀ c : Election} {xs : List ElectionAction} (h : Leads b K cond c₀ c)
    (hx : ∀ x ∈ xs, cond x) : Leads b K cond c₀ (c.after b K xs) := by
  induction xs generalizing c with
  | nil => exact h
  | cons x xs ih =>
    rw [List.forall_mem_cons] at hx
    have hone : Leads b K cond c₀ ((c.step b K x).getD c) := by
      cases hs : c.step b K x with
      | none => exact h
      | some c' => exact h.tail x hx.1 hs
    exact ih hone hx.2

/-- The first instance is paused past the end of its lease, and still hands out its fence. -/
theorem overtaken_refused : ∃ c : Election, c.fence contender 0 = some ⟨"fleet", 1⟩ ∧
    c.fence contender 1 = some ⟨"fleet", 2⟩ ∧ Honoured .pg c.store ⟨"fleet", 2⟩ ∧
      ¬ Honoured .pg c.store ⟨"fleet", 1⟩ := by
  let taken (i : ℕ) : List ElectionAction := [.turn i (.attempt .served), .turn i .look]
  let c := (beginning .empty).after .pg contender (taken 0 ++ .elapse (secs 20) :: taken 1)
  have hrun : Leads .pg contender (fun _ => True) (beginning .empty) c :=
    after_leads .refl fun _ _ => trivial
  have hold : c.fence contender 0 = some ⟨"fleet", 1⟩ := rfl
  have hnew : c.fence contender 1 = some ⟨"fleet", 2⟩ := rfl
  have hpasses : Honoured .pg c.store ⟨"fleet", 2⟩ := honoured_iff.mpr rfl
  refine ⟨c, hold, hnew, hpasses, fun hh => ?_⟩
  have hone := (fences_exclusive contender_named hrun hold .refl hrun hnew .refl rfl).1 hh hpasses
  exact absurd hone.1 (by decide)

end Contenders

section Tenures

variable {b : Backend} {K : LeaseIdentity} {s s' : StoreState} {m m' : Manager} {epoch : ℤ}
  {k holder : String}

theorem acquire_live {cluster instanceId : String} {ttl : ℕ} {version : Option String}
    (h : Live (b.acquireControlLease s cluster instanceId ttl version).2 k holder epoch)
    (hne : holder ≠ instanceId) : Live s k holder epoch := by
  rcases acquire_cases b s cluster instanceId ttl version with ⟨l, hr, hc, ha, -⟩ | ⟨e, hr⟩
  · rw [hr] at h
    obtain ⟨l', hl', ha', he, hx⟩ := h
    by_cases hk : k = cluster
    · have hself : (s.controlLeases.put l).get k = some l := by
        rw [hk, ← hc]
        exact Keyed.get_put_self
      cases hself.symm.trans hl'
      exact absurd (ha'.symm.trans ha) hne
    · have hother : (s.controlLeases.put l).get k = s.controlLeases.get k :=
        Keyed.get_put_ne (by rwa [hc])
      exact ⟨l', hother.symm.trans hl', ha', he, hx⟩
  · rwa [hr] at h

theorem renew_live {cluster instanceId : String} {ttl : ℕ} {e : ℤ}
    (h : Live (b.renewControlLease s cluster instanceId e ttl).2 k holder epoch) :
    Live s k holder epoch := by
  rcases renew_cases b s cluster instanceId e ttl with ⟨l, hl, -, -, hx, hr⟩ | ⟨-, hr⟩
  · rw [hr] at h
    obtain ⟨l', hl', ha', he', hx'⟩ := h
    by_cases hk : k = cluster
    · subst hk
      rw [Keyed.get_modify_self, hl] at hl'
      cases hl'
      exact ⟨l, hl, ha', he', hx⟩
    · rw [Keyed.get_modify_ne hk] at hl'
      exact ⟨l', hl', ha', he', hx'⟩
  · rwa [hr] at h

theorem release_live {cluster instanceId : String} {e : ℤ}
    (h : Live (b.releaseControlLease s cluster instanceId e).2 k holder epoch) :
    Live s k holder epoch ∧ ¬ (k = cluster ∧ holder = instanceId ∧ epoch = e) := by
  rcases release_cases b s cluster instanceId e with ⟨l, hl, -, -, hr⟩ | ⟨hn, hr⟩
  · rw [hr] at h
    obtain ⟨l', hl', ha', he', hx'⟩ := h
    by_cases hk : k = cluster
    · subst hk
      rw [Keyed.get_modify_self, hl] at hl'
      cases hl'
      exact absurd hx' (Int.lt_irrefl _)
    · rw [Keyed.get_modify_ne hk] at hl'
      exact ⟨⟨l', hl', ha', he', hx'⟩, fun h => hk h.1⟩
  · rw [hr] at h
    refine ⟨h, ?_⟩
    rintro ⟨rfl, rfl, rfl⟩
    obtain ⟨l, hl, ha, he, -⟩ := h
    exact hn ⟨l, hl, ha, he⟩

theorem of_live {α : Type} {r : Except StoreError α × StoreState} {f : Fate}
    (h : Live (f.of s r).2 k holder epoch) : Live s k holder epoch ∨ Live r.2 k holder epoch := by
  cases f with
  | served | lost => exact .inr h
  | failed => exact .inl h

/-- A manager makes no lease of anybody else. -/
theorem turn_live {d : Deed} (h : m.turn b K s d = some (m', s'))
    (hl : Live s' k holder epoch) (hne : holder ≠ K.instanceId) : Live s k holder epoch := by
  cases turned h with
  | attempts f => exact (of_live hl).elim id fun hl => acquire_live hl hne
  | renews f e => exact (of_live hl).elim id renew_live
  | releases f e => exact (of_live hl).elim id fun hl => (release_live hl).1
  | stops | looks | leaves | wakes | ends | cancels | dies => exact hl

/-- A manager knows of an epoch that it is its own. -/
def Manager.Knows (m : Manager) (epoch : ℤ) : Prop :=
  match m.phase with
  | .ready | .waiting => m.status = .active epoch ∧ m.cancelled = true
  | .acquired (.ok l) => l.epoch = epoch
  | .holding e | .renewed e (.ok _) => e = epoch
  | .releasing e => e = some epoch
  | .acquired (.error _) | .renewed _ (.error _) | .ended => False
  | .dead => True

/-- The status of a manager fits where its loop stands. -/
def Manager.Sound (m : Manager) : Prop :=
  match m.phase with
  | .holding e => m.status = .active e
  | .renewed e r => m.status = .active e ∧ ∀ l, r = .ok l → l.epoch = e
  | .releasing _ | .ended => m.status = .stopped
  | .ready | .acquired _ | .waiting | .dead => True

/-- No lease of the instance runs that its manager does not know of. -/
def Tracked (s : StoreState) (K : LeaseIdentity) (m : Manager) : Prop :=
  m.Sound ∧ ∀ e, Live s K.clusterId K.instanceId e → m.Knows e

theorem Tracked.back (h : Tracked s K m)
    (hb : ∀ e, Live s' K.clusterId K.instanceId e → Live s K.clusterId K.instanceId e) :
    Tracked s' K m :=
  ⟨h.1, fun e he => h.2 e (hb e he)⟩

theorem acquired_tracked (h : ∀ e, ¬ Live s K.clusterId K.instanceId e) :
    Tracked (acquire b K s .served).2 K (m.enter (.acquired (acquire b K s .served).1)) := by
  refine ⟨trivial, fun e he => ?_⟩
  unfold acquire Fate.of at he ⊢
  rcases acquire_cases b s K.clusterId K.instanceId K.ttl (some K.binaryVersion) with
    ⟨l, hr, hc, -⟩ | ⟨err, hr⟩
  · simp only [hr] at he ⊢
    obtain ⟨l', hl', -, he', -⟩ := he
    have hself : (s.controlLeases.put l).get K.clusterId = some l := by
      rw [← hc]
      exact Keyed.get_put_self
    cases hself.symm.trans hl'
    exact he'
  · simp only [hr] at he
    exact absurd he (h e)

theorem renewed_tracked {e₀ : ℤ} (hs : m.status = .active e₀)
    (h : ∀ e, Live s K.clusterId K.instanceId e → e₀ = e) :
    Tracked (renew b K s e₀ .served).2 K (m.enter (.renewed e₀ (renew b K s e₀ .served).1)) := by
  refine ⟨⟨hs, fun l hl => renewed_epoch hl⟩, fun e he => ?_⟩
  unfold renew Fate.of at he ⊢
  have hbefore := h e (renew_live he)
  rcases renew_cases b s K.clusterId K.instanceId e₀ K.ttl with ⟨l, -, -, -, -, hr⟩ | ⟨hn, hr⟩
  · simp only [hr]
    exact hbefore
  · simp only [hr] at he
    rw [← hbefore] at he
    exact absurd he hn

theorem look_tracked (hm : m.look = some m') (h : Tracked s K m) : Tracked s K m' := by
  obtain ⟨hsound, hknows⟩ := h
  simp only [Manager.look] at hm
  unfold Manager.Sound at hsound
  unfold Manager.Knows at hknows
  split at hm
  case h_1 l hp =>
    cases hm
    simp only [hp] at hknows
    exact ⟨rfl, hknows⟩
  case h_2 hp =>
    cases hm
    simp only [hp] at hknows
    exact ⟨trivial, fun e he => (hknows e he).elim⟩
  case h_3 e l hp =>
    cases hm
    simp only [hp] at hsound hknows
    refine ⟨?_, hknows⟩
    rw [Manager.Sound, hsound.2 l rfl]
  case h_4 hp =>
    cases hm
    simp only [hp] at hknows
    exact ⟨trivial, fun e he => (hknows e he).elim⟩
  case h_5 => cases hm

theorem cancel_tracked (h : Tracked s K m) : Tracked s K { m with cancelled := true } := by
  refine ⟨h.1, fun e he => ?_⟩
  have hk := h.2 e he
  unfold Manager.Knows at hk ⊢
  dsimp only
  split at hk <;> simp_all

/-- What a manager does itself, its calls answered, it knows of. -/
theorem turn_tracked {d : Deed} (h : m.turn b K s d = some (m', s')) (hd : d.Answered)
    (ht : Tracked s K m) : Tracked s' K m' := by
  obtain ⟨hsound, hknows⟩ := id ht
  unfold Manager.Sound at hsound
  unfold Manager.Knows at hknows
  cases turned h with
  | stops f hp =>
    simp only [hp] at hknows
    refine ⟨rfl, fun e he => ?_⟩
    simp only [Manager.Knows, (hknows e he).1, LeaseStatus.epoch]
  | attempts f hp hc =>
    obtain rfl : f = .served := hd
    simp only [hp] at hknows
    exact acquired_tracked fun e he => hc (hknows e he).2
  | looks _ hm => exact look_tracked hm ht
  | renews f e hp =>
    obtain rfl : f = .served := hd
    simp only [hp] at hsound hknows
    exact renewed_tracked hsound hknows
  | leaves e hp hc =>
    simp only [hp] at hsound hknows
    refine ⟨trivial, fun e' he => ⟨?_, hc⟩⟩
    rw [← hknows e' he]
    exact hsound
  | wakes hp =>
    simp only [hp] at hknows
    exact ⟨trivial, hknows⟩
  | ends f hp =>
    simp only [hp] at hsound hknows
    exact ⟨hsound, fun e he => nomatch hknows e he⟩
  | releases f e hp =>
    obtain rfl : f = .served := hd
    simp only [hp] at hsound hknows
    refine ⟨hsound, fun e' he => ?_⟩
    obtain ⟨hl, hn⟩ := release_live he
    exact hn ⟨rfl, rfl, (Option.some.inj (hknows e' hl)).symm⟩
  | cancels => exact cancel_tracked ht
  | dies => exact ⟨trivial, fun _ _ => trivial⟩

theorem elapse_live {d : ℕ} (h : Live { s with now := s.now + d } k holder epoch) :
    Live s k holder epoch := by
  obtain ⟨l, hl, ha, he, hx⟩ := h
  exact ⟨l, hl, ha, he, Int.lt_of_le_of_lt (Int.le_add_of_nonneg_right (Int.natCast_nonneg d)) hx⟩

end Tenures

section Ends

variable {b : Backend} {K : ℕ → LeaseIdentity} {s : StoreState} {c c' : Election} {i : ℕ}

theorem tracked_step (hK : Named K) {x : ElectionAction} (hx : AnswersTo i x)
    (h : c.step b K x = some c') (ht : Tracked c.store (K i) (c.managers i)) :
    Tracked c'.store (K i) (c'.managers i) := by
  cases x with
  | turn j d =>
    obtain ⟨r, hr, rfl⟩ := Option.map_eq_some_iff.mp h
    by_cases hij : i = j
    · subst hij
      simp only [Function.update_self]
      exact turn_tracked hr (hx d rfl) ht
    · simp only [Function.update_of_ne hij]
      exact ht.back fun e he => turn_live hr he fun hname => hij (hK i j hname)
  | write id expected new fence origin =>
    cases h
    obtain ⟨hleases, hnow⟩ := cas_frame (b := b) c.store id expected new fence origin
    refine ht.back fun e he => ?_
    simpa only [Live, hleases, hnow] using he
  | elapse d =>
    cases h
    exact ht.back fun e he => elapse_live he

theorem tracked_run (hK : Named K)
    (h₀ : ∀ e, ¬ Live s (K i).clusterId (K i).instanceId e)
    (h : Leads b K (AnswersTo i) (beginning s) c) : Tracked c.store (K i) (c.managers i) := by
  induction h with
  | refl => exact ⟨trivial, fun e he => absurd he (h₀ e)⟩
  | tail x _ hx hs ih => exact tracked_step hK hx hs ih

/-- An instance that was shut down leaves no lease running behind it, if the store has answered its
calls: whoever waits for the lease need not wait for it to run out. -/
theorem graceful_end_frees (hK : Named K)
    (h₀ : ∀ e, ¬ Live s (K i).clusterId (K i).instanceId e)
    (h : Leads b K (AnswersTo i) (beginning s) c) (he : (c.managers i).phase = .ended) :
    c.fence K i = none ∧ ∀ e, ¬ Live c.store (K i).clusterId (K i).instanceId e := by
  obtain ⟨hsound, hknows⟩ := tracked_run hK h₀ h
  simp only [Manager.Sound, Manager.Knows, he] at hsound hknows
  refine ⟨?_, hknows⟩
  rw [Election.fence, hsound]
  rfl

def shutDown : List Deed :=
  [.attempt .served, .look, .tick .served, .look, .cancel, .leave, .wake, .attempt .served,
    .release .served]

theorem shutDown_frees : ∃ c : Election, (∃ l, c.store.controlLeases.get "fleet" = some l) ∧
    (c.managers 0).phase = .ended ∧ c.fence contender 0 = none ∧
      ∀ e, ¬ Live c.store "fleet" (contender 0).instanceId e := by
  let c := (beginning .empty).after .mem contender (shutDown.map (.turn 0))
  have hrun : Leads .mem contender (AnswersTo 0) (beginning .empty) c := by
    apply after_leads .refl
    intro x hx d hd
    obtain ⟨d', hd', rfl⟩ := List.mem_map.mp hx
    cases hd
    revert d
    simp [shutDown, Deed.Answered]
  have hended : (c.managers 0).phase = .ended := rfl
  have hfree := graceful_end_frees contender_named (by rintro e ⟨l, hl, -⟩; cases hl) hrun hended
  exact ⟨c, ⟨_, rfl⟩, hended, hfree⟩

end Ends

end FleetOrchestrator.Scheduler.Leadership
