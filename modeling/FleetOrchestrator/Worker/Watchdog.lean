import Mathlib.Algebra.BigOperators.Intervals
import Mathlib.Algebra.Order.BigOperators.Group.Finset

/-! The watchdog of the heartbeat loop. Times are in nanoseconds. -/

namespace FleetOrchestrator.Worker

inductive Verdict where
  | progressed
  | frozen
  | waiting
  | stalled
  deriving DecidableEq, Repr

def freezeOverrunFactor : ℕ := 2

def judge (advanced : Bool) (slept poll sinceBaseline stallAfter : ℕ) : Verdict :=
  if advanced then .progressed
  else if poll * freezeOverrunFactor < slept then .frozen
  else if stallAfter ≤ sinceBaseline then .stalled
  else .waiting

/-- How long one sleep was, and what the beacon says after it. -/
structure Look where
  slept : ℕ
  disarmed : Bool
  beats : ℕ
  deriving DecidableEq, Repr

/-- The thread between two sleeps, or at its end. -/
inductive Watch where
  | watching (baseline since : ℕ)
  | disarmed
  | stalled (beats stalledFor : ℕ)
  deriving DecidableEq, Repr

def Watch.look (poll stallAfter : ℕ) : Watch → Look → Watch
  | .watching baseline since, x =>
    if x.disarmed then .disarmed
    else match judge (x.beats != baseline) x.slept poll (since + x.slept) stallAfter with
      | .progressed | .frozen => .watching x.beats 0
      | .waiting => .watching baseline (since + x.slept)
      | .stalled => .stalled baseline (since + x.slept)
  | w, _ => w

/-- A thread that goes on starts anew or adds the sleep; one that ends for a stall has seen no beat
and added up to the deadline. -/
theorem Watch.look_cases (poll stallAfter baseline since : ℕ) (x : Look) :
    (Watch.watching baseline since).look poll stallAfter x = .disarmed ∨
      (Watch.watching baseline since).look poll stallAfter x = .watching x.beats 0 ∨
      (Watch.watching baseline since).look poll stallAfter x =
        .watching baseline (since + x.slept) ∨
      ((Watch.watching baseline since).look poll stallAfter x =
        .stalled baseline (since + x.slept) ∧
          x.beats = baseline ∧ stallAfter ≤ since + x.slept) := by
  by_cases ha : x.disarmed = true
  · exact Or.inl (by simp [Watch.look, ha])
  · by_cases hb : x.beats = baseline
    · by_cases hf : poll * freezeOverrunFactor < x.slept
      · exact Or.inr (Or.inl (by simp [Watch.look, judge, ha, hb, hf]))
      · by_cases hs : stallAfter ≤ since + x.slept
        · exact Or.inr (Or.inr (Or.inr ⟨by simp [Watch.look, judge, ha, hb, hf, hs], hb, hs⟩))
        · exact Or.inr (Or.inr (Or.inl (by simp [Watch.look, judge, ha, hb, hf, hs])))
    · exact Or.inr (Or.inl (by simp [Watch.look, judge, ha, hb]))

def pollInterval (stallAfter : ℕ) : ℕ := max 1000000000 (min (stallAfter / 6) 30000000000)

section History

variable (poll stallAfter baseline : ℕ) (looks : ℕ → Look)

/-- The thread after so many looks. -/
def watch : ℕ → Watch
  | 0 => .watching baseline 0
  | n + 1 => (watch n).look poll stallAfter (looks n)

def FiresAt (n : ℕ) : Prop :=
  (∃ b s, watch poll stallAfter baseline looks n = .watching b s) ∧
    ∃ b s, watch poll stallAfter baseline looks (n + 1) = .stalled b s

/-- What the beacon said last before a look. -/
def lastBeats : ℕ → ℕ
  | 0 => baseline
  | n + 1 => (looks n).beats

def Moved (n : ℕ) : Prop := (looks n).beats ≠ lastBeats baseline looks n

/-- The look sees progress, or that the process stood still. -/
def Restarts (n : ℕ) : Prop :=
  Moved baseline looks n ∨ poll * freezeOverrunFactor < (looks n).slept

/-- The first look behind the last one before `n` that restarts, or the very first. -/
structure Stretch (r n : ℕ) : Prop where
  le : r ≤ n
  start : r = 0 ∨ Restarts poll baseline looks (r - 1)
  quiet : ∀ i, r ≤ i → i < n → ¬Restarts poll baseline looks i

/-- The look sees nothing new, and the sleeps of its stretch reach the deadline. -/
def Due (n : ℕ) : Prop :=
  ¬Restarts poll baseline looks n ∧
    ∃ r, Stretch poll baseline looks r n ∧ stallAfter ≤ ∑ i ∈ Finset.Ico r (n + 1), (looks i).slept

variable {poll stallAfter baseline looks} {r r' n : ℕ}

theorem Stretch.unique (h : Stretch poll baseline looks r n)
    (h' : Stretch poll baseline looks r' n) : r = r' := by
  have hle {r r' : ℕ} (h : Stretch poll baseline looks r n)
      (h' : Stretch poll baseline looks r' n) : r' ≤ r := by
    by_contra hlt
    have hn := h'.le
    cases h'.start with
    | inl hzero => omega
    | inr hrestarts => exact h.quiet (r' - 1) (by omega) (by omega) hrestarts
  exact Nat.le_antisymm (hle h' h) (hle h h')

theorem Stretch.succ (h : Stretch poll baseline looks r n)
    (hn : ¬Restarts poll baseline looks n) : Stretch poll baseline looks r (n + 1) := by
  refine ⟨Nat.le_succ_of_le h.le, h.start, ?_⟩
  intro i hr hi
  by_cases hin : i = n
  · rw [hin]
    exact hn
  · exact h.quiet i hr (by omega)

theorem stretch_restarts (hn : Restarts poll baseline looks n) :
    Stretch poll baseline looks (n + 1) (n + 1) := by
  refine ⟨le_refl _, Or.inr hn, ?_⟩
  intro i hr hi
  omega

theorem exists_stretch (poll baseline : ℕ) (looks : ℕ → Look) (n : ℕ) :
    ∃ r, Stretch poll baseline looks r n := by
  induction n with
  | zero => exact ⟨0, le_refl _, Or.inl rfl, by omega⟩
  | succ n ih =>
    obtain ⟨r, hr⟩ := ih
    by_cases hn : Restarts poll baseline looks n
    · exact ⟨n + 1, stretch_restarts hn⟩
    · exact ⟨r, hr.succ hn⟩

/-- What the thread holds between two sleeps. -/
structure Counted (poll baseline : ℕ) (looks : ℕ → Look) (n b s : ℕ) : Prop where
  beats : b = lastBeats baseline looks n
  since : ∃ r, Stretch poll baseline looks r n ∧ s = ∑ i ∈ Finset.Ico r n, (looks i).slept

variable {b s : ℕ}

theorem Counted.due_iff (h : Counted poll baseline looks n b s)
    (hn : ¬Restarts poll baseline looks n) :
    Due poll stallAfter baseline looks n ↔ stallAfter ≤ s + (looks n).slept := by
  obtain ⟨r, hr, hs⟩ := h.since
  have hsum : s + (looks n).slept = ∑ i ∈ Finset.Ico r (n + 1), (looks i).slept := by
    rw [Finset.sum_Ico_succ_top hr.le, ← hs]
  constructor
  · rintro ⟨-, r', hr', hdue⟩
    rw [hsum, hr.unique hr']
    exact hdue
  · intro hdue
    exact ⟨hn, r, hr, hsum ▸ hdue⟩

/-- One look of the thread, whatever came before. -/
theorem Counted.look (h : Counted poll baseline looks n b s) (ha : (looks n).disarmed = false) :
    (Due poll stallAfter baseline looks n →
      (Watch.watching b s).look poll stallAfter (looks n) =
        .stalled b (s + (looks n).slept)) ∧
    (¬Due poll stallAfter baseline looks n →
      ∃ b' s', (Watch.watching b s).look poll stallAfter (looks n) = .watching b' s' ∧
        Counted poll baseline looks (n + 1) b' s') := by
  have hbeats := h.beats
  obtain ⟨r, hr, hs⟩ := h.since
  by_cases hmoved : (looks n).beats = b
  · by_cases hfrozen : poll * freezeOverrunFactor < (looks n).slept
    · have hrestarts : Restarts poll baseline looks n := Or.inr hfrozen
      refine ⟨fun hdue => absurd hrestarts hdue.1, fun _ => ⟨(looks n).beats, 0, ?_, rfl, ?_⟩⟩
      · simp [Watch.look, judge, ha, hmoved, hfrozen]
      · exact ⟨n + 1, stretch_restarts hrestarts, by simp⟩
    · have hquiet : ¬Restarts poll baseline looks n := by
        rintro (hnot | hnot)
        · exact hnot (hmoved.trans hbeats)
        · exact hfrozen hnot
      rw [h.due_iff hquiet]
      constructor
      · intro hdue
        simp [Watch.look, judge, ha, hmoved, hfrozen, hdue]
      · intro hdue
        refine ⟨b, s + (looks n).slept, ?_, hmoved.symm, r, hr.succ hquiet, ?_⟩
        · simp [Watch.look, judge, ha, hmoved, hfrozen, hdue]
        · rw [Finset.sum_Ico_succ_top hr.le, ← hs]
  · have hrestarts : Restarts poll baseline looks n := Or.inl fun hsame => hmoved (hsame.trans hbeats.symm)
    refine ⟨fun hdue => absurd hrestarts hdue.1, fun _ => ⟨(looks n).beats, 0, ?_, rfl, ?_⟩⟩
    · simp [Watch.look, judge, ha, hmoved]
    · exact ⟨n + 1, stretch_restarts hrestarts, by simp⟩

/-- The thread goes on as long as nothing disarms it and no deadline is reached. -/
theorem watching_of_quiet (ha : ∀ i < n, (looks i).disarmed = false)
    (hd : ∀ i < n, ¬Due poll stallAfter baseline looks i) :
    ∃ b s, watch poll stallAfter baseline looks n = .watching b s ∧
      Counted poll baseline looks n b s := by
  induction n with
  | zero =>
    refine ⟨baseline, 0, rfl, rfl, 0, ⟨le_refl _, Or.inl rfl, ?_⟩, by simp⟩
    intro i hr hi
    omega
  | succ n ih =>
    obtain ⟨b, s, hwatch, hholds⟩ :=
      ih (fun i hi => ha i (by omega)) fun i hi => hd i (by omega)
    rw [watch, hwatch]
    exact (hholds.look (ha n (by omega))).2 (hd n (by omega))

theorem quiet_of_watching (h : watch poll stallAfter baseline looks n = .watching b s) :
    (∀ i < n, (looks i).disarmed = false) ∧ (∀ i < n, ¬Due poll stallAfter baseline looks i) ∧
      Counted poll baseline looks n b s := by
  induction n generalizing b s with
  | zero =>
    cases h
    refine ⟨by simp, by simp, rfl, 0, ⟨le_refl _, Or.inl rfl, ?_⟩, by simp⟩
    intro i hr hi
    omega
  | succ n ih =>
    rw [watch] at h
    cases hn : watch poll stallAfter baseline looks n with
    | disarmed => simp [hn, Watch.look] at h
    | stalled beats stalledFor => simp [hn, Watch.look] at h
    | watching b₀ s₀ =>
      obtain ⟨ha, hd, hholds⟩ := ih hn
      rw [hn] at h
      have harmed : (looks n).disarmed = false := by
        cases hdis : (looks n).disarmed with
        | false => rfl
        | true => simp [Watch.look, hdis] at h
      obtain ⟨hdue, hnot⟩ :=
        @Counted.look poll stallAfter baseline looks n _ _ hholds harmed
      have hquiet : ¬Due poll stallAfter baseline looks n := by
        intro hn
        rw [hdue hn] at h
        cases h
      obtain ⟨b', s', hlook, hholds'⟩ := hnot hquiet
      rw [hlook] at h
      cases h
      refine ⟨?_, ?_, hholds'⟩
      · intro i hi
        obtain hi | rfl := Nat.lt_succ_iff_lt_or_eq.mp hi
        · exact ha i hi
        · exact harmed
      · intro i hi
        obtain hi | rfl := Nat.lt_succ_iff_lt_or_eq.mp hi
        · exact hd i hi
        · exact hquiet

theorem firesAt_iff : FiresAt poll stallAfter baseline looks n ↔
    (∀ i ≤ n, (looks i).disarmed = false) ∧ Due poll stallAfter baseline looks n ∧
      ∀ i < n, ¬Due poll stallAfter baseline looks i := by
  constructor
  · rintro ⟨⟨b, s, hwatch⟩, b', s', hfired⟩
    obtain ⟨ha, hd, hholds⟩ := quiet_of_watching hwatch
    rw [watch, hwatch] at hfired
    have harmed : (looks n).disarmed = false := by
      cases hdis : (looks n).disarmed with
      | false => rfl
      | true => simp [Watch.look, hdis] at hfired
    refine ⟨?_, ?_, hd⟩
    · intro i hi
      obtain hi | rfl := Nat.lt_or_eq_of_le hi
      · exact ha i hi
      · exact harmed
    · by_contra hquiet
      obtain ⟨b'', s'', hlook, -⟩ := (hholds.look harmed).2 hquiet
      rw [hlook] at hfired
      cases hfired
  · rintro ⟨ha, hdue, hd⟩
    obtain ⟨b, s, hwatch, hholds⟩ := watching_of_quiet (fun i hi => ha i (by omega)) hd
    refine ⟨⟨b, s, hwatch⟩, b, s + (looks n).slept, ?_⟩
    rw [watch, hwatch]
    exact (hholds.look (ha n (le_refl n))).1 hdue

/-- So many sleeps of some length reach the deadline. -/
theorem due_of_quiet {k d : ℕ} (hstall : 0 < stallAfter) (hpos : 0 < d)
    (hquiet : ∀ i, k ≤ i → ¬Restarts poll baseline looks i ∧ d ≤ (looks i).slept) :
    Due poll stallAfter baseline looks (k + (stallAfter + d - 1) / d - 1) := by
  obtain ⟨r, hr⟩ := exists_stretch poll baseline looks k
  have hceil : stallAfter ≤ (stallAfter + d - 1) / d * d := by
    have hdiv := Nat.lt_div_mul_add hpos (a := stallAfter + d - 1)
    omega
  generalize hc : (stallAfter + d - 1) / d = c at *
  have hc : 0 < c := by
    by_contra hzero
    rw [Nat.eq_zero_of_not_pos hzero, Nat.zero_mul] at hceil
    omega
  have hlast : k + c - 1 + 1 = k + c := by omega
  refine ⟨(hquiet _ (by omega)).1, r, ⟨by have := hr.le; omega, hr.start, ?_⟩, ?_⟩
  · intro i hri hi
    by_cases hik : i < k
    · exact hr.quiet i hri hik
    · exact (hquiet i (by omega)).1
  · rw [hlast]
    calc stallAfter ≤ c * d := hceil
      _ = ∑ i ∈ Finset.Ico k (k + c), d := by
        rw [Finset.sum_const, Nat.card_Ico, Nat.add_sub_cancel_left]
        rfl
      _ ≤ ∑ i ∈ Finset.Ico k (k + c), (looks i).slept :=
        Finset.sum_le_sum fun i hi => (hquiet i (Finset.mem_Ico.mp hi).1).2
      _ ≤ ∑ i ∈ Finset.Ico r (k + c), (looks i).slept :=
        Finset.sum_le_sum_of_subset (Finset.Ico_subset_Ico_left hr.le)

theorem exists_first {k : ℕ} (h : Due poll stallAfter baseline looks k) :
    ∃ n ≤ k, Due poll stallAfter baseline looks n ∧
      ∀ i < n, ¬Due poll stallAfter baseline looks i := by
  induction k using Nat.strong_induction_on with
  | _ k ih =>
    by_cases hearlier : ∃ i < k, Due poll stallAfter baseline looks i
    · obtain ⟨i, hi, hdue⟩ := hearlier
      obtain ⟨n, hn, hfirst⟩ := ih i hi hdue
      exact ⟨n, by omega, hfirst⟩
    · exact ⟨k, le_refl k, h, fun i hi hdue => hearlier ⟨i, hi, hdue⟩⟩

end History

/-- The watchdog fires at the first look that is due, once, unless it is disarmed by then, and does
so when nothing moves for long enough. -/
theorem watch_exact (poll stallAfter baseline : ℕ) (looks : ℕ → Look) :
    (∀ n, FiresAt poll stallAfter baseline looks n ↔
      (∀ i ≤ n, (looks i).disarmed = false) ∧ Due poll stallAfter baseline looks n ∧
        ∀ i < n, ¬Due poll stallAfter baseline looks i) ∧
    (∀ m n, FiresAt poll stallAfter baseline looks m → FiresAt poll stallAfter baseline looks n →
      m = n) ∧
    (∀ n, FiresAt poll stallAfter baseline looks n →
      (∀ i ≤ n, (looks i).disarmed = false) ∧ ¬Moved baseline looks n) ∧
    ∀ k d, 0 < stallAfter → 0 < d →
      (∀ i, (looks i).disarmed = true → (looks (i + 1)).disarmed = true) →
      (∀ i, k ≤ i → ¬Restarts poll baseline looks i ∧ (looks i).disarmed = false ∧
        d ≤ (looks i).slept) →
      ∃ n < k + (stallAfter + d - 1) / d, FiresAt poll stallAfter baseline looks n := by
  refine ⟨fun n => firesAt_iff, ?_, ?_, ?_⟩
  · intro m n hm hn
    obtain ⟨-, hdm, hbm⟩ := firesAt_iff.mp hm
    obtain ⟨-, hdn, hbn⟩ := firesAt_iff.mp hn
    by_contra hne
    obtain hlt | hlt := Nat.lt_or_gt_of_ne hne
    · exact hbn m hlt hdm
    · exact hbm n hlt hdn
  · intro n hn
    obtain ⟨harmed, hdue, -⟩ := firesAt_iff.mp hn
    exact ⟨harmed, fun hmoved => hdue.1 (Or.inl hmoved)⟩
  · intro k d hstall hpos hstays hquiet
    have harmed (i : ℕ) : (looks i).disarmed = false := by
      by_contra hdis
      have hlater (j : ℕ) : (looks (i + j)).disarmed = true := by
        induction j with
        | zero => simpa using hdis
        | succ j ih => exact hstays _ ih
      have hk := (hquiet (i + k) (by omega)).2.1
      rw [hlater k] at hk
      cases hk
    obtain ⟨n, hn, hdue, hfirst⟩ := exists_first
      (due_of_quiet hstall hpos fun i hi => ⟨(hquiet i hi).1, (hquiet i hi).2.2⟩)
    have hceil : 0 < (stallAfter + d - 1) / d := Nat.div_pos (by omega) hpos
    exact ⟨n, by omega, firesAt_iff.mpr ⟨fun i _ => harmed i, hdue, hfirst⟩⟩

theorem watch_exact_still : ∃ n < 0 + (12 + 5 - 1) / 5, FiresAt 4 12 3 (fun _ => ⟨5, false, 3⟩) n := by
  have hquiet (i : ℕ) : ¬Restarts 4 3 (fun _ => ⟨5, false, 3⟩) i := by
    rintro (hmoved | hfrozen)
    · cases i <;> exact hmoved rfl
    · exact absurd (show 4 * freezeOverrunFactor < 5 from hfrozen) (by decide)
  exact (watch_exact 4 12 3 fun _ => ⟨5, false, 3⟩).2.2.2 0 5 (by decide) (by decide)
    (fun i h => h) fun i _ => ⟨hquiet i, rfl, le_refl 5⟩

end FleetOrchestrator.Worker
