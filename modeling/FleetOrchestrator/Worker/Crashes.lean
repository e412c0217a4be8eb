import FleetOrchestrator.Worker.Converging
import Mathlib.Logic.Function.Basic

/-! What is left of the agent processes when the worker is killed between two of its steps. -/

namespace FleetOrchestrator.Worker

open Core

/-- The children that live, with the agents they were started for, and the process id in the
readable record of each agent's workspace. -/
structure Site where
  alive : List (AgentId × ℕ)
  records : AgentId → Option ℕ

namespace Site

def perform (s : Site) : MachineCall → Site
  | .killOnDrop id child => { s with alive := s.alive.filter fun c => c ≠ (id, child) }
  | .removeSpawnRecord id => { s with records := Function.update s.records id none }
  | .terminateAll doomed =>
    { s with alive := s.alive.filter fun c => c ∉ doomed.map fun r => (r.1, r.2.child) }
  | .removeWorkspace id => { s with records := Function.update s.records id none }
  | .spawn id _ child => { s with alive := child.toList.map (fun pid => (id, pid)) ++ s.alive }
  | .writeSpawnRecord id child _ written =>
    { s with records := Function.update s.records id (if written then some child else none) }

/-- Children die on their own. -/
def Fades (s s' : Site) : Prop := s'.records = s.records ∧ ∀ c ∈ s'.alive, c ∈ s.alive

def Recorded (s : Site) : Prop := ∀ c ∈ s.alive, s.records c.1 = some c.2

/-- `sweep_stale_incarnation`, which kills what a record names and is still that child. -/
def sweep (ours : AgentId × ℕ → Bool) (s : Site) : Site where
  alive := s.alive.filter fun c => ¬ (s.records c.1 = some c.2 ∧ ours c = true)
  records := fun _ => none

theorem sweep_recorded {s : Site} (h : s.Recorded) {ours : AgentId × ℕ → Bool}
    (hours : ∀ c ∈ s.alive, ours c = true) : (s.sweep ours).alive = [] := by
  apply List.filter_eq_nil_iff.mpr
  intro c hc
  simp [h c hc, hours c hc]

end Site

/-- The calls done one after the other, with the site before and after. -/
inductive Performs : List MachineCall → Site → Site → Prop
  | nil {s s' : Site} (h : s.Fades s') : Performs [] s s'
  | call {c : MachineCall} {calls : List MachineCall} {s s₁ s' : Site}
      (h : (s.perform c).Fades s₁) (hs : Performs calls s₁ s') : Performs (c :: calls) s s'

theorem performs_append {a b : List MachineCall} {s s' : Site} (h : Performs (a ++ b) s s') :
    ∃ s₁, Performs a s s₁ ∧ Performs b s₁ s' := by
  induction a generalizing s with
  | nil => exact ⟨s, .nil ⟨rfl, fun _ h => h⟩, h⟩
  | cons c a ih =>
    cases h with
    | call h hs =>
      obtain ⟨s₁, ha, hb⟩ := ih hs
      exact ⟨s₁, .call h ha, hb⟩

/-- The kill comes neither between a start and the write of its record, nor between the removal of
the records of the doomed and the end of their termination. -/
structure Closed (done rest : List MachineCall) : Prop where
  written : ∀ id child port w, rest.head? ≠ some (.writeSpawnRecord id child port w)
  terminated : ∀ doomed, .terminateAll doomed ∈ rest →
    ∀ r ∈ doomed, .removeSpawnRecord r.1 ∉ done

/-- Only the children of `K` may live, and all that live are recorded. -/
structure Kept (K : AgentId × ℕ → Prop) (s : Site) : Prop where
  recorded : s.Recorded
  known : ∀ c ∈ s.alive, K c

/-- From one set of children to another, whatever closed cut the kill makes. -/
def Safe (K : AgentId × ℕ → Prop) (calls : List MachineCall) (K' : AgentId × ℕ → Prop) : Prop :=
  ∀ s s' done rest, Kept K s → calls = done ++ rest → Closed done rest → Performs done s s' →
    s'.Recorded ∧ (rest = [] → ∀ c ∈ s'.alive, K' c)

section Safety

variable {K K' K'' : AgentId × ℕ → Prop} {a b : List MachineCall} {s s' : Site}

theorem Kept.fades (h : Kept K s) (hs : s.Fades s') : Kept K s' :=
  ⟨fun c hc => by rw [hs.1, h.recorded c (hs.2 c hc)], fun c hc => h.known c (hs.2 c hc)⟩

theorem safe_nil (h : ∀ c, K c → K' c) : Safe K [] K' := by
  intro s s' done rest hs hcut _ hp
  obtain ⟨rfl, rfl⟩ := List.append_eq_nil_iff.mp hcut.symm
  cases hp with
  | nil hf => exact ⟨(hs.fades hf).recorded, fun _ c hc => h c ((hs.fades hf).known c hc)⟩

theorem Safe.imp (h : Safe K a K') (himp : ∀ c, K' c → K'' c) : Safe K a K'' := by
  intro s s' done rest hs hcut hclosed hp
  obtain ⟨hrecorded, hknown⟩ := h s s' done rest hs hcut hclosed hp
  exact ⟨hrecorded, fun hrest c hc => himp c (hknown hrest c hc)⟩

theorem safe_append (ha : Safe K a K') (hb : Safe K' b K'') : Safe K (a ++ b) K'' := by
  intro s s' done rest hs hcut hclosed hp
  rcases List.append_eq_append_iff.mp hcut with ⟨more, rfl, rfl⟩ | ⟨more, rfl, rfl⟩
  · -- the kill comes in the second part
    obtain ⟨s₁, h₁, h₂⟩ := performs_append hp
    have hmid := ha s s₁ a [] hs (List.append_nil a).symm ⟨nofun, nofun⟩ h₁
    refine hb s₁ s' more rest ⟨hmid.1, hmid.2 rfl⟩ rfl ⟨hclosed.written, ?_⟩ h₂
    intro doomed hmem r hr hdone
    exact hclosed.terminated doomed hmem r hr (List.mem_append_right _ hdone)
  · cases more with
    | nil =>
      have hmid := ha s s' done [] hs rfl ⟨nofun, nofun⟩ hp
      refine ⟨hmid.1, fun hrest => ?_⟩
      subst hrest
      exact (hb s' s' [] [] ⟨hmid.1, hmid.2 rfl⟩ rfl ⟨nofun, nofun⟩
        (.nil ⟨rfl, fun _ h => h⟩)).2 rfl
    | cons c more =>
      refine ⟨(ha s s' done (c :: more) hs rfl ⟨hclosed.written, ?_⟩ hp).1, nofun⟩
      intro doomed hmem
      exact hclosed.terminated doomed (List.mem_append_left _ hmem)

theorem safe_one {c : MachineCall} (h : ∀ s, Kept K s → Kept K' (s.perform c)) :
    Safe K [c] K' := by
  intro s s' done rest hs hcut hclosed hp
  cases done with
  | nil =>
    cases hp with
    | nil hf =>
      refine ⟨(hs.fades hf).recorded, fun hrest => ?_⟩
      rw [hrest] at hcut
      cases hcut
  | cons d done =>
    obtain ⟨rfl, hnil⟩ := List.cons.inj hcut
    obtain ⟨rfl, rfl⟩ := List.append_eq_nil_iff.mp hnil.symm
    cases hp with
    | call hf hp =>
      cases hp with
      | nil hf' =>
        have hkept := ((h s hs).fades hf).fades hf'
        exact ⟨hkept.recorded, fun _ => hkept.known⟩

/-- Forgetting the record of an agent without a living child. -/
theorem Kept.forget {id : AgentId} (h : Kept K s) (hid : ∀ c, K c → c.1 ≠ id) :
    Kept K { s with records := Function.update s.records id none } := by
  refine ⟨fun c hc => ?_, h.known⟩
  change Function.update s.records id none c.1 = some c.2
  rw [Function.update_of_ne (hid c (h.known c hc))]
  exact h.recorded c hc

variable {rows : List (AgentId × AgentProc)} {ids : List AgentId}

/-- The children of the table's dead, killed at the latest here, lose their records. -/
theorem safe_dead (h : ∀ r ∈ rows, ∀ c, K c → c.1 = r.1 → c = (r.1, r.2.child)) :
    Safe K (rows.flatMap fun r => [.killOnDrop r.1 r.2.child, .removeSpawnRecord r.1])
      (fun c => K c ∧ ∀ r ∈ rows, c ≠ (r.1, r.2.child)) := by
  induction rows generalizing K with
  | nil => exact safe_nil fun c hc => ⟨hc, nofun⟩
  | cons r rows ih =>
    have hkill : Safe K [.killOnDrop r.1 r.2.child] fun c => K c ∧ c ≠ (r.1, r.2.child) := by
      apply safe_one
      intro s hs
      constructor
      · exact fun c hc => hs.recorded c (List.mem_of_mem_filter hc)
      · intro c hc
        obtain ⟨hc, hne⟩ := List.mem_filter.mp hc
        exact ⟨hs.known c hc, by simpa using hne⟩
    have hforget : Safe (fun c => K c ∧ c ≠ (r.1, r.2.child)) [.removeSpawnRecord r.1]
        fun c => K c ∧ c ≠ (r.1, r.2.child) :=
      safe_one fun s hs => hs.forget fun c hc hid => hc.2 (h r List.mem_cons_self c hc.1 hid)
    have hrest := ih (K := fun c => K c ∧ c ≠ (r.1, r.2.child)) fun r' hr' c hc =>
      h r' (List.mem_cons_of_mem _ hr') c hc.1
    rw [List.flatMap_cons, ← List.singleton_append, List.append_assoc]
    refine safe_append hkill (safe_append hforget (hrest.imp fun c hc => ?_))
    exact ⟨hc.1.1, List.forall_mem_cons.mpr ⟨hc.1.2, hc.2⟩⟩

theorem performs_removals (h : Performs (ids.map .removeSpawnRecord) s s') :
    (∀ c ∈ s'.alive, c ∈ s.alive) ∧ ∀ id ∉ ids, s'.records id = s.records id := by
  induction ids generalizing s with
  | nil =>
    cases h with
    | nil hf => exact ⟨hf.2, fun id _ => by rw [hf.1]⟩
  | cons a ids ih =>
    cases h with
    | call hf hs =>
      obtain ⟨halive, hrecords⟩ := ih hs
      refine ⟨fun c hc => hf.2 c (halive c hc), fun id hid => ?_⟩
      rw [hrecords id (List.not_mem_of_not_mem_cons hid), hf.1]
      exact Function.update_of_ne (List.ne_of_not_mem_cons hid) _ _

/-- The doomed lose their records before they are terminated. -/
theorem safe_stop (h : ∀ r ∈ rows, ∀ c, K c → c.1 = r.1 → c = (r.1, r.2.child)) :
    Safe K ((rows.map Prod.fst).map .removeSpawnRecord ++ [.terminateAll rows])
      (fun c => K c ∧ ∀ r ∈ rows, c ≠ (r.1, r.2.child)) := by
  intro s s' done rest hs hcut hclosed hp
  cases rest with
  | nil =>
    rw [List.append_nil] at hcut
    rw [← hcut] at hp
    obtain ⟨s₁, hremove, hterminate⟩ := performs_append hp
    obtain ⟨halive, hrecords⟩ := performs_removals hremove
    cases hterminate with
    | call hf hnil =>
      cases hnil with
      | nil hf' =>
        have hmem : ∀ c ∈ s'.alive, c ∈ s.alive ∧ ∀ r ∈ rows, c ≠ (r.1, r.2.child) := by
          intro c hc
          obtain ⟨hc, hne⟩ := List.mem_filter.mp (hf.2 c (hf'.2 c hc))
          refine ⟨halive c hc, fun r hr heq => ?_⟩
          simp only [List.mem_map, not_exists, not_and, decide_eq_true_eq] at hne
          exact hne r hr heq.symm
        refine ⟨fun c hc => ?_, fun _ c hc => ⟨hs.known c (hmem c hc).1, (hmem c hc).2⟩⟩
        have hid : c.1 ∉ rows.map Prod.fst := by
          intro hid
          obtain ⟨r, hr, hid⟩ := List.mem_map.mp hid
          exact (hmem c hc).2 r hr (h r hr c (hs.known c (hmem c hc).1) hid.symm)
        rw [hf'.1, hf.1]
        exact (hrecords _ hid).trans (hs.recorded c (hmem c hc).1)
  | cons d rest =>
    cases done with
    | nil =>
      cases hp with
      | nil hf => exact ⟨(hs.fades hf).recorded, nofun⟩
    | cons e done =>
      -- a record is gone and the termination is still to come
      have hlast : .terminateAll rows ∈ d :: rest := by
        have hend := congrArg List.getLast? hcut
        rw [List.getLast?_append_of_ne_nil _ (List.cons_ne_nil _ _),
          List.getLast?_append_of_ne_nil _ (List.cons_ne_nil _ _)] at hend
        exact List.mem_of_getLast? hend.symm
      cases rows with
      | nil =>
        have hlength := congrArg List.length hcut
        simp only [List.map_nil, List.nil_append, List.length_append, List.length_cons,
          List.length_nil] at hlength
        omega
      | cons r rows =>
        obtain ⟨hhead, -⟩ := List.cons.inj hcut
        exact absurd (hhead ▸ List.mem_cons_self)
          (hclosed.terminated _ hlast r List.mem_cons_self)

theorem safe_workspaces (h : ∀ id ∈ ids, ∀ c, K c → c.1 ≠ id) :
    Safe K (ids.map .removeWorkspace) K := by
  induction ids with
  | nil => exact safe_nil fun _ h => h
  | cons id ids ih =>
    rw [List.map_cons, ← List.singleton_append]
    refine safe_append (safe_one fun s hs => ?_)
      (ih fun id hid => h id (List.mem_cons_of_mem _ hid))
    exact hs.forget (h id List.mem_cons_self)

end Safety

/-- The children of the table. -/
def Processes.Child {range : PortRange} (t : Processes range) (c : AgentId × ℕ) : Prop :=
  ∃ port, (c.1, (⟨c.2, port⟩ : AgentProc)) ∈ t.rows

section Tables

variable {range : PortRange} {t : Processes range} {c : AgentId × ℕ} {p : AgentId → Bool}

theorem Processes.child_filter : (t.filter p).Child c ↔ t.Child c ∧ p c.1 := by
  simp [Child, filter]

/-- An agent has one child. -/
theorem Processes.child_eq {r : AgentId × AgentProc} (hr : r ∈ t.rows) (hc : t.Child c)
    (hid : c.1 = r.1) : c = (r.1, r.2.child) := by
  obtain ⟨port, hc⟩ := hc
  have heq := List.inj_on_of_nodup_map t.ids hc hr hid
  rw [← heq]

/-- Who is not among the rows of one part is in the other. -/
theorem Processes.child_rest {q : AgentId → Bool} (hpq : ∀ id, q id = false → p id = true)
    (h : t.Child c) (hgone : ∀ r ∈ (t.filter q).rows, c ≠ (r.1, r.2.child)) :
    (t.filter p).Child c := by
  refine child_filter.mpr ⟨h, hpq _ ?_⟩
  obtain ⟨port, hrow⟩ := h
  rw [← Bool.not_eq_true]
  intro hq
  exact hgone _ (List.mem_filter.mpr ⟨hrow, hq⟩) rfl

theorem Processes.mem_of_child (h : t.Child c) : c.1 ∈ t.agents := by
  obtain ⟨port, h⟩ := h
  exact List.mem_map_of_mem h

theorem safe_reap (t : Processes range) (p q : AgentId → Bool)
    (hpq : ∀ id, q id = false → p id = true) :
    Safe t.Child ((t.filter q).rows.flatMap fun r =>
      [.killOnDrop r.1 r.2.child, .removeSpawnRecord r.1]) (t.filter p).Child :=
  (safe_dead fun _ hr _ hc hid => Processes.child_eq (List.mem_of_mem_filter hr) hc hid).imp
    fun _ hc => Processes.child_rest hpq hc.1 hc.2

theorem safe_retire (t : Processes range) (p q : AgentId → Bool)
    (hpq : ∀ id, q id = false → p id = true) :
    Safe t.Child ((t.filter q).agents.map .removeSpawnRecord ++ [.terminateAll (t.filter q).rows])
      (t.filter p).Child :=
  (safe_stop fun _ hr _ hc hid => Processes.child_eq (List.mem_of_mem_filter hr) hc hid).imp
    fun _ hc => Processes.child_rest hpq hc.1 hc.2

theorem safe_empty : Safe t.Child (t.agents.map .removeSpawnRecord ++ [.terminateAll t.rows])
    (Processes.empty : Processes range).Child :=
  (safe_stop fun _ hr _ hc hid => Processes.child_eq hr hc hid).imp fun c hc => by
    obtain ⟨⟨port, hrow⟩, hgone⟩ := hc
    exact absurd rfl (hgone _ hrow)

end Tables

namespace AgentProcessManager

variable {m : AgentProcessManager} {machine : Machine} {t : Processes m.portRange}

theorem safe_start (id : AgentId) (hwrites : ∀ id, machine.writes id = true) :
    Safe t.Child (m.start machine t id).2.2 (m.start machine t id).1.Child := by
  rcases start_cases machine t id with
    ⟨-, h⟩ | ⟨-, reason, calls, hcalls, h⟩ | ⟨-, proc, hid, hport, h⟩
  · rw [h]
    exact safe_nil fun _ h => h
  · rw [h]
    rcases hcalls with rfl | ⟨port, rfl⟩
    · exact safe_nil fun _ h => h
    · exact safe_one fun s hs => ⟨hs.recorded, hs.known⟩
  · rw [h, hwrites id]
    have hmem {c : AgentId × ℕ} (hc : t.Child c ∨ c = (id, proc.child)) :
        (t.insert id proc hid hport).Child c := by
      rcases hc with ⟨port, hc⟩ | rfl
      · exact ⟨port, List.mem_append_left _ hc⟩
      · exact ⟨proc.port, List.mem_append_right _ (List.mem_singleton.mpr rfl)⟩
    intro s s' done rest hs hcut hclosed hp
    cases done with
    | nil =>
      cases hp with
      | nil hf => exact ⟨(hs.fades hf).recorded, fun hrest => by rw [hrest] at hcut; cases hcut⟩
    | cons d done =>
      obtain ⟨rfl, htail⟩ := List.cons.inj hcut
      cases done with
      | nil =>
        -- the child runs and its record is the next thing to be written
        exact absurd (congrArg List.head? htail.symm)
          (hclosed.written id proc.child proc.port true)
      | cons d done =>
        obtain ⟨rfl, hnil⟩ := List.cons.inj htail
        obtain ⟨rfl, rfl⟩ := List.append_eq_nil_iff.mp hnil.symm
        cases hp with
        | call hf₁ hp =>
          cases hp with
          | call hf₂ hp =>
            cases hp with
            | nil hf₃ =>
              have halive : ∀ c ∈ s'.alive, c = (id, proc.child) ∨ c ∈ s.alive := by
                intro c hc
                simpa [Site.perform] using hf₁.2 c (hf₂.2 c (hf₃.2 c hc))
              refine ⟨fun c hc => ?_, fun _ c hc => ?_⟩
              · rw [hf₃.1, hf₂.1]
                change Function.update (_ : AgentId → Option ℕ) id (some proc.child) c.1 = _
                rcases halive c hc with rfl | hc
                · rw [Function.update_self]
                · have hne : c.1 ≠ id := fun heq =>
                    hid (heq ▸ Processes.mem_of_child (hs.known c hc))
                  rw [Function.update_of_ne hne, hf₁.1]
                  exact hs.recorded c hc
              · rcases halive c hc with hc | hc
                · exact hmem (.inr hc)
                · exact hmem (.inl (hs.known c hc))

theorem safe_startAll (ids : List AgentId) (hwrites : ∀ id, machine.writes id = true) :
    Safe t.Child (m.startAll machine t ids).2.2 (m.startAll machine t ids).1.Child := by
  induction ids generalizing t with
  | nil => exact safe_nil fun _ h => h
  | cons id ids ih => exact safe_append (safe_start id hwrites) ih

theorem safe_reconcile {commands : Option (List AgentCommand)}
    (hwrites : ∀ id, machine.writes id = true)
    (hstopped : ∀ cmds, commands = some cmds →
      ∀ id ∈ desired .stopped cmds, id ∉ desired .running cmds) :
    Safe t.Child (m.reconcile machine t commands).2.2
      (m.reconcile machine t commands).2.1.Child := by
  cases commands with
  | none => exact safe_nil fun _ h => h
  | some commands =>
    have hreap := safe_reap t (fun id => machine.polls id = .running)
      (fun id => machine.polls id ≠ .running) fun id hid => by simpa using hid
    have hretire := safe_retire (t.filter fun id => machine.polls id = .running)
      (desired .running commands).contains (fun id => !(desired .running commands).contains id)
      fun id hid => by simpa using hid
    have hworkspaces : Safe ((t.filter fun id => machine.polls id = .running).filter
        (desired .running commands).contains).Child
        ((desired .stopped commands).map .removeWorkspace)
        ((t.filter fun id => machine.polls id = .running).filter
          (desired .running commands).contains).Child := by
      apply safe_workspaces
      intro id hid c hc heq
      have hkeep := (Processes.child_filter.mp hc).2
      exact hstopped commands rfl id hid (by simpa [heq] using hkeep)
    have h := safe_append (safe_append (safe_append hreap hretire) hworkspaces)
      (safe_startAll (m := m) (desired .running commands) hwrites)
    rw [← List.append_assoc (List.flatMap _ _)] at h
    exact h

/-- A call on the manager. -/
inductive ManagerCall where
  | reconcile (machine : Machine) (commands : Option (List AgentCommand))
  | shutdownAll
  | fenceAll

def serve (m : AgentProcessManager) (t : Processes m.portRange) :
    ManagerCall → Processes m.portRange × List MachineCall
  | .reconcile machine commands =>
    ((m.reconcile machine t commands).2.1, (m.reconcile machine t commands).2.2)
  | .shutdownAll => m.shutdownAll t
  | .fenceAll => ((m.fenceAll t).2.1, (m.fenceAll t).2.2)

/-- Every record is written, and no agent is to run and to stop at once. -/
def ManagerCall.Sound : ManagerCall → Prop
  | .reconcile machine commands => (∀ id, machine.writes id = true) ∧
    ∀ cmds, commands = some cmds → ∀ id ∈ desired .stopped cmds, id ∉ desired .running cmds
  | .shutdownAll | .fenceAll => True

theorem safe_serve {c : ManagerCall} (hc : c.Sound) :
    Safe t.Child (m.serve t c).2 (m.serve t c).1.Child := by
  cases c with
  | reconcile machine commands => exact safe_reconcile hc.1 hc.2
  | shutdownAll => exact safe_empty
  | fenceAll => exact safe_empty

/-- What calls on the manager of a new worker, each to its end, leave. -/
inductive Lives (m : AgentProcessManager) : Processes m.portRange → Site → Prop
  | new (records : AgentId → Option ℕ) : Lives m .empty ⟨[], records⟩
  | call {t : Processes m.portRange} {s s' : Site} (h : Lives m t s) {c : ManagerCall}
      (hc : c.Sound) (hp : Performs (m.serve t c).2 s s') : Lives m (m.serve t c).1 s'

theorem lives_kept {s : Site} (h : Lives m t s) : Kept t.Child s := by
  induction h with
  | new records => exact ⟨nofun, nofun⟩
  | call _ hc hp ih =>
    have hsafe := safe_serve hc _ _ _ [] ih (List.append_nil _).symm ⟨nofun, nofun⟩ hp
    exact ⟨hsafe.1, hsafe.2 rfl⟩

/-- Killed at a closed cut, a worker leaves a record of each child that lives on, by which the next
one finds it. -/
theorem killed_recorded {s s' : Site} {c : ManagerCall} {done rest : List MachineCall}
    (h : Lives m t s) (hc : c.Sound) (hcut : (m.serve t c).2 = done ++ rest)
    (hclosed : Closed done rest) (hp : Performs done s s') :
    s'.Recorded ∧ ∀ ours, (∀ c ∈ s'.alive, ours c = true) → (s'.sweep ours).alive = [] := by
  have hrecorded := (safe_serve hc _ _ _ _ (lives_kept h) hcut hclosed hp).1
  exact ⟨hrecorded, fun ours hours => Site.sweep_recorded hrecorded hours⟩

end AgentProcessManager

namespace Starting

open AgentProcessManager

def manager : AgentProcessManager := ⟨.pair, 1⟩

def machine : Machine := ⟨fun _ => .running, fun _ _ => true, fun _ _ => some 72, fun _ => true⟩

def start : ManagerCall := .reconcile machine (some [⟨⟨1⟩, .running, 1⟩])

theorem start_sound : start.Sound :=
  ⟨fun _ => rfl, fun cmds h => by cases h; exact nofun⟩

theorem start_calls : (manager.serve .empty start).2 =
    [.terminateAll [], .spawn ⟨1⟩ 9000 (some 72), .writeSpawnRecord ⟨1⟩ 72 9000 true] := by decide

/-- The child lives, and its record holds what is given. -/
def begun (record : Option ℕ) : Site := ⟨[(⟨1⟩, 72)], Function.update (fun _ => none) ⟨1⟩ record⟩

theorem begun_spawned : Performs [.terminateAll [], .spawn ⟨1⟩ 9000 (some 72)]
    ⟨[], fun _ => none⟩ (begun none) := by
  refine .call ⟨rfl, fun _ h => h⟩ (.call ⟨rfl, fun _ h => h⟩ (.nil ⟨?_, fun _ h => h⟩))
  exact Function.update_eq_self (β := fun _ => Option ℕ) _ _

theorem begun_written : Performs (manager.serve .empty start).2 ⟨[], fun _ => none⟩
    (begun (some 72)) := by
  rw [start_calls]
  exact .call ⟨rfl, fun _ h => h⟩ (.call ⟨rfl, fun _ h => h⟩
    (.call ⟨rfl, fun _ h => h⟩ (.nil ⟨rfl, fun _ h => h⟩)))

theorem written_found : (begun (some 72)).Recorded ∧
    ∀ ours, (∀ c ∈ (begun (some 72)).alive, ours c = true) →
      ((begun (some 72)).sweep ours).alive = [] :=
  killed_recorded (.new _) start_sound (List.append_nil _).symm ⟨nofun, nofun⟩ begun_written

/-- Killed before the record is written, the worker leaves a child that nothing names. -/
theorem spawned_lost : ¬ ∀ (m : AgentProcessManager) (t : Processes m.portRange) (s s' : Site)
    (c : ManagerCall) (done rest : List MachineCall), Lives m t s → c.Sound →
    (m.serve t c).2 = done ++ rest → Performs done s s' → s'.Recorded := by
  intro h
  have hrecorded := h manager .empty _ (begun none) start
    [.terminateAll [], .spawn ⟨1⟩ 9000 (some 72)] _ (.new _) start_sound start_calls begun_spawned
    (⟨1⟩, 72) (List.mem_singleton.mpr rfl)
  cases hrecorded

end Starting

end FleetOrchestrator.Worker
