import FleetOrchestrator.Dashboard.EventView
import FleetOrchestrator.Output.Cursors

/-! The listener of the event channel over whole runs: what it has yielded, and how soon. -/

namespace FleetOrchestrator.Output

open Core Tables Store
open Dashboard (Wake)

/-- What comes next, to the log or to the listener, whose fetch may fail. -/
inductive Beat where
  | insert (e : FleetEvent)
  | commit (n : ℕ)
  | abort (n : ℕ)
  | wake (k : Wake) (fault : Option StoreError)

namespace EventWatch

def beat (w : EventWatch) : Beat → EventWatch
  | .insert e => w.step (.insert e)
  | .commit n => w.step (.commit n)
  | .abort n => w.step (.abort n)
  | .wake k fault => if k.isDue w.lastSeq && fault.isNone then w.fetch 100 else w

def beats (w : EventWatch) (bs : List Beat) : EventWatch := bs.foldl beat w

/-- By waiting long enough from here on, the listener yields every committed event once, in order. -/
def Delivers (w : EventWatch) : Prop :=
  ∃ n, (w.beats (List.replicate n (.wake .timedOut none))).yielded = w.committed

def HasYielded (w : EventWatch) (s : ℕ) : Prop := ∀ e ∈ w.committed, e.seq ≤ s → e ∈ w.yielded

/-- Nothing is lost to the stream, and what a notification told of is in it once that was handled
without an error. -/
def Prompt (w : EventWatch) (b : Beat) : Prop :=
  (w.beat b).Delivers ∧
    ∀ s, b = .wake (.notified (some s)) none → (w.beat b).HasYielded s

/-- No append is committed behind the cursor, and where a notification is handled there are no more
events up to its own than one page takes. -/
def KeepsUp (w : EventWatch) : Beat → Prop
  | .commit n => ¬ w.Overtaken (.commit n)
  | .wake (.notified (some s)) none =>
    w.committed.countP (fun e => w.lastSeq < e.seq && e.seq ≤ s) ≤ 100
  | _ => True

/-- Every beat of the run meets the condition, in the state that it finds. -/
def Throughout (C : EventWatch → Beat → Prop) : EventWatch → List Beat → Prop
  | _, [] => True
  | w, b :: bs => C w b ∧ Throughout C (w.beat b) bs

section Beats

variable {w : EventWatch} {b : Beat} {s : ℕ}

/-- The committed events beyond the cursor. -/
def rest (w : EventWatch) : List EventEntry :=
  (w.events.after (fun _ => true) w.lastSeq).map fun x => ⟨x.seq, x.row⟩

theorem fetch_eq (w : EventWatch) : w.fetch 100 = w.step (.read (some 100)) := rfl

theorem sound_beat (h : w.reading.Sound fun _ => true) (b : Beat) :
    (w.beat b).reading.Sound fun _ => true := by
  have hstep (m : Reading.Move FleetEvent) : (w.step m).reading.Sound fun _ => true := by
    rw [step_reading]
    exact Reading.sound_move h _
  cases b with
  | insert e => exact hstep _
  | commit n => exact hstep _
  | abort n => exact hstep _
  | wake k fault =>
    rw [beat]
    split
    · exact hstep (.read (some 100))
    · exact h

theorem sees_step (h : w.reading.Sound fun _ => true) (hs : w.reading.SeesAll fun _ => true)
    (m : Reading.Move FleetEvent) :
    ((w.step m).reading.SeesAll fun _ => true) ↔ ¬ w.Overtaken m := by
  rw [step_reading, Reading.seesAll_move h, overtaken_iff, and_iff_right hs]

theorem sees_beat (h : w.reading.Sound fun _ => true) (hs : w.reading.SeesAll fun _ => true)
    (b : Beat) : ((w.beat b).reading.SeesAll fun _ => true) ↔
      ∀ n, b = .commit n → ¬ w.Overtaken (.commit n) := by
  cases b with
  | commit n =>
    refine (sees_step h hs (.commit n)).trans ⟨?_, fun hall => hall n rfl⟩
    rintro hn _ ⟨⟩
    exact hn
  | insert e => exact iff_of_true ((sees_step h hs (.insert e)).mpr nofun) nofun
  | abort n => exact iff_of_true ((sees_step h hs (.abort n)).mpr nofun) nofun
  | wake k fault =>
    refine iff_of_true ?_ nofun
    rw [beat]
    split
    · exact (sees_step h hs (.read (some 100))).mpr nofun
    · exact hs

theorem committed_split (hs : w.reading.SeesAll fun _ => true) :
    w.committed = w.yielded ++ w.rest := by
  have hrows : w.events.rows (fun _ => true) =
      w.yielded.map ofEntry ++ w.events.after (fun _ => true) w.lastSeq := hs.symm
  have hback : (w.yielded.map ofEntry).map (fun x => (⟨x.seq, x.row⟩ : EventEntry)) = w.yielded := by
    rw [List.map_map]
    exact List.map_id _
  rw [committed, hrows, List.map_append, hback]
  rfl

theorem yielded_le (h : w.reading.Sound fun _ => true) : ∀ e ∈ w.yielded, e.seq ≤ w.lastSeq := by
  intro e he
  exact (h.seen (ofEntry e) (List.mem_map_of_mem he)).2

theorem rest_gt : ∀ e ∈ w.rest, w.lastSeq < e.seq := by
  intro e he
  obtain ⟨x, hx, rfl⟩ := List.mem_map.mp he
  exact (Reading.mem_after (s := w.reading).mp hx).2

theorem rest_sorted (h : w.reading.Sound fun _ => true) :
    w.rest.Pairwise fun x y => x.seq < y.seq :=
  (Reading.after_sorted (s := w.reading) h.feed).map _ fun _ _ hxy => hxy

/-- The events up to a number that are still to come are those that a page has to hold. -/
theorem count_committed (h : w.reading.Sound fun _ => true)
    (hs : w.reading.SeesAll fun _ => true) (s : ℕ) :
    w.committed.countP (fun e => w.lastSeq < e.seq && e.seq ≤ s) =
      w.rest.countP fun e => e.seq ≤ s := by
  have hseen : w.yielded.countP (fun e => w.lastSeq < e.seq && e.seq ≤ s) = 0 := by
    apply List.countP_eq_zero.mpr
    intro e he hcounted
    have hle := yielded_le h e he
    simp only [Bool.and_eq_true, decide_eq_true_eq] at hcounted
    omega
  rw [committed_split hs, List.countP_append, hseen, Nat.zero_add]
  apply List.countP_congr
  intro e he
  simp [rest_gt e he]

theorem hasYielded_iff (h : w.reading.Sound fun _ => true) (hs : w.reading.SeesAll fun _ => true)
    (s : ℕ) : (w.beat (.wake (.notified (some s)) none)).HasYielded s ↔
      w.committed.countP (fun e => w.lastSeq < e.seq && e.seq ≤ s) ≤ 100 := by
  rw [count_committed h hs]
  by_cases hdue : w.lastSeq < s
  · have hbeat : w.beat (.wake (.notified (some s)) none) = w.fetch 100 := by
      simp [beat, Wake.isDue, hdue]
    have hpage : (w.fetch 100).yielded = w.yielded ++ w.rest.take 100 := by
      rw [rest, ← List.map_take]
      rfl
    have hsorted := rest_sorted h
    have hnodup : w.rest.Nodup := by
      apply hsorted.imp
      rintro x _ hxy rfl
      exact lt_irrefl _ hxy
    have hfirst : w.rest.Pairwise fun x y =>
        decide (y.seq ≤ s) = true → decide (x.seq ≤ s) = true := by
      apply hsorted.imp
      intro x y hxy hy
      simp only [decide_eq_true_eq] at hy ⊢
      omega
    rw [hbeat, ← all_taken_iff hnodup hfirst 100]
    simp only [HasYielded, hpage, decide_eq_true_eq]
    rw [show (w.fetch 100).committed = w.committed from rfl, committed_split hs]
    constructor
    · intro hall e he hle
      rcases List.mem_append.mp (hall e (List.mem_append_right _ he) hle) with hold | hnew
      · have hlate := rest_gt e he
        have hearly := yielded_le h e hold
        omega
      · exact hnew
    · intro hall e he hle
      rcases List.mem_append.mp he with hold | hnew
      · exact List.mem_append_left _ hold
      · exact List.mem_append_right _ (hall e hnew hle)
  · have hbeat : w.beat (.wake (.notified (some s)) none) = w := by
      simp [beat, Wake.isDue, hdue]
    have hnone : w.rest.countP (fun e => e.seq ≤ s) = 0 := by
      apply List.countP_eq_zero.mpr
      intro e he hcounted
      have hlate := rest_gt e he
      simp only [decide_eq_true_eq] at hcounted
      omega
    rw [hbeat, hnone]
    refine iff_of_true ?_ (Nat.zero_le _)
    intro e he hle
    rw [committed_split hs] at he
    rcases List.mem_append.mp he with hold | hnew
    · exact hold
    · have hlate := rest_gt e hnew
      omega

theorem beats_timeouts (w : EventWatch) (n : ℕ) :
    w.beats (List.replicate n (.wake .timedOut none)) =
      w.run ((List.replicate n (some 100)).map .read) := by
  induction n generalizing w with
  | zero => rfl
  | succ n ih => exact ih (w.fetch 100)

theorem delivers_of_sees (h : w.reading.Sound fun _ => true)
    (hs : w.reading.SeesAll fun _ => true) : w.Delivers := by
  induction hk : w.rest.length using Nat.strong_induction_on generalizing w with
  | _ k ih =>
    subst hk
    by_cases hrest : w.rest = []
    · refine ⟨0, ?_⟩
      rw [committed_split hs, hrest, List.append_nil]
      rfl
    · have hsound := sound_beat h (.wake .timedOut none)
      have hsees := (sees_beat h hs (.wake .timedOut none)).mpr nofun
      have hbeat : w.beat (.wake .timedOut none) = w.fetch 100 := rfl
      rw [hbeat] at hsound hsees
      have hsplit := committed_split hsees
      have hpage : (w.fetch 100).yielded = w.yielded ++ w.rest.take 100 := by
        rw [rest, ← List.map_take]
        rfl
      rw [show (w.fetch 100).committed = w.committed from rfl, committed_split hs, hpage,
        List.append_assoc] at hsplit
      have hlength := congrArg List.length (List.append_cancel_left hsplit)
      have hpos := List.length_pos_iff.mpr hrest
      rw [List.length_append, List.length_take] at hlength
      obtain ⟨n, hn⟩ := ih (w.fetch 100).rest.length (by omega) hsound hsees rfl
      exact ⟨n + 1, hn⟩

theorem delivers_iff (h : w.reading.Sound fun _ => true) :
    w.Delivers ↔ w.reading.SeesAll fun _ => true := by
  constructor
  · rintro ⟨n, hn⟩
    rw [beats_timeouts] at hn
    exact (seesAll_iff h).mp ⟨_, hn⟩
  · exact delivers_of_sees h

theorem prompt_iff (h : w.reading.Sound fun _ => true) (hs : w.reading.SeesAll fun _ => true)
    (b : Beat) : w.Prompt b ↔ w.KeepsUp b := by
  rw [Prompt, delivers_iff (sound_beat h b), sees_beat h hs]
  cases b with
  | insert e => exact iff_of_true ⟨nofun, nofun⟩ trivial
  | abort n => exact iff_of_true ⟨nofun, nofun⟩ trivial
  | commit n =>
    constructor
    · rintro ⟨hn, -⟩
      exact hn n rfl
    · intro hn
      refine ⟨?_, nofun⟩
      rintro _ ⟨⟩
      exact hn
  | wake k fault =>
    rw [and_iff_right (by nofun)]
    cases fault with
    | some e => exact iff_of_true nofun (by cases k <;> (try cases ‹Option ℕ›) <;> trivial)
    | none =>
      cases k with
      | failed => exact iff_of_true nofun trivial
      | timedOut => exact iff_of_true nofun trivial
      | notified payload =>
        cases payload with
        | none => exact iff_of_true nofun trivial
        | some s =>
          refine Iff.trans ⟨fun hall => hall s rfl, ?_⟩ (hasYielded_iff h hs s)
          rintro hy _ ⟨⟩
          exact hy

end Beats

/-- Over every run the stream is prompt exactly if the listener keeps up at every beat. -/
theorem prompt_throughout_iff (bs : List Beat) :
    Throughout Prompt {} bs ↔ Throughout KeepsUp {} bs := by
  have hall (w : EventWatch) (h : w.reading.Sound fun _ => true)
      (hs : w.reading.SeesAll fun _ => true) :
      Throughout Prompt w bs ↔ Throughout KeepsUp w bs := by
    induction bs generalizing w with
    | nil => exact Iff.rfl
    | cons b bs ih =>
      rw [Throughout, Throughout, prompt_iff h hs b]
      apply and_congr_right
      intro hb
      have hsees : (w.beat b).reading.SeesAll fun _ => true :=
        (delivers_iff (sound_beat h b)).mp ((prompt_iff h hs b).mpr hb).1
      exact ih (w.beat b) (sound_beat h b) hsees
  exact hall {} Reading.sound_start Reading.seesAll_start

theorem throughout_append {C : EventWatch → Beat → Prop} {w : EventWatch} {bs bs' : List Beat} :
    Throughout C w (bs ++ bs') ↔ Throughout C w bs ∧ Throughout C (w.beats bs) bs' := by
  induction bs generalizing w with
  | nil => exact (and_iff_right trivial).symm
  | cons b bs ih =>
    rw [List.cons_append, Throughout, Throughout, ih, and_assoc]
    rfl

theorem sound_beats {w : EventWatch} (h : w.reading.Sound fun _ => true) (bs : List Beat) :
    (w.beats bs).reading.Sound fun _ => true := by
  induction bs generalizing w with
  | nil => exact h
  | cons b bs ih => exact ih (sound_beat h b)

theorem delivers_beats {w : EventWatch} (h : w.Delivers) {bs : List Beat}
    (hall : Throughout Prompt w bs) : (w.beats bs).Delivers := by
  induction bs generalizing w with
  | nil => exact h
  | cons b bs ih => exact ih hall.1.1 hall.2

section Backlog

/-- One event after the other, each committed before the next. -/
def backlog (e : FleetEvent) : ℕ → List Beat
  | 0 => []
  | n + 1 => backlog e n ++ [.insert e, .commit (n + 1)]

theorem beats_backlog (e : FleetEvent) (n : ℕ) : ({} : EventWatch).beats (backlog e n) =
    { events := { drawn := n, committed := (List.range n).reverse.map fun i => ⟨i + 1, e⟩ } } := by
  induction n with
  | zero => rfl
  | succ n ih =>
    have hstep : ({} : EventWatch).beats (backlog e (n + 1)) =
        ((({} : EventWatch).beats (backlog e n)).beat (.insert e)).beat (.commit (n + 1)) :=
      List.foldl_append
    rw [hstep, ih, List.range_succ, List.reverse_append, List.reverse_singleton,
      List.singleton_append, List.map_cons]
    simp [beat, step, PgStore.insertEvent, Feed.insert, Feed.commit, Feed.written, Feed.abort]

theorem count_backlog (e : FleetEvent) (n : ℕ) :
    (({} : EventWatch).beats (backlog e n)).committed.countP (fun x => 0 < x.seq && x.seq ≤ n) = n := by
  have hperm : (({} : EventWatch).beats (backlog e n)).committed.Perm
      ((List.range n).reverse.map fun i => ⟨i + 1, e⟩) := by
    rw [beats_backlog, committed, Feed.rows, List.filter_eq_self.mpr fun _ _ => rfl]
    have hmap : ((List.range n).reverse.map fun i => (⟨i + 1, e⟩ : EventEntry)) =
        ((List.range n).reverse.map fun i => (⟨i + 1, e⟩ : Numbered FleetEvent)).map
          fun x => ⟨x.seq, x.row⟩ := by
      rw [List.map_map]
      rfl
    rw [hmap]
    exact (List.perm_insertionSort _ _).map _
  rw [hperm.countP_eq, List.countP_eq_length.mpr]
  · simp
  · intro x hx
    obtain ⟨i, hi, rfl⟩ := List.mem_map.mp hx
    have hlt := List.mem_range.mp (List.mem_reverse.mp hi)
    simp only [Bool.and_eq_true, decide_eq_true_eq]
    omega

/-- Of more events than a page takes, the last wait beyond the first notification. -/
theorem backlog_late (e : FleetEvent) {n : ℕ} (hn : 100 < n) :
    ¬ Throughout Prompt {} (backlog e n ++ [.wake (.notified (some n)) none]) := by
  intro hall
  obtain ⟨hbefore, hwake, -⟩ := throughout_append.mp hall
  have hsound : (({} : EventWatch).beats (backlog e n)).reading.Sound fun _ => true :=
    sound_beats Reading.sound_start (backlog e n)
  have hsees : (({} : EventWatch).beats (backlog e n)).reading.SeesAll fun _ => true :=
    (delivers_iff hsound).mp (delivers_beats ⟨0, rfl⟩ hbefore)
  have hpage := (prompt_iff hsound hsees _).mp hwake
  have hlast : (({} : EventWatch).beats (backlog e n)).lastSeq = 0 := by rw [beats_backlog]
  rw [KeepsUp, hlast, count_backlog] at hpage
  omega

theorem backlog_waits : ¬ ∀ bs : List Beat, Throughout Prompt {} bs := by
  intro hall
  obtain ⟨n, hn⟩ : ∃ n, 100 < n := ⟨101, by decide⟩
  exact backlog_late (.workerLeft ⟨1⟩ "gone" 0) hn (hall _)

end Backlog

section Program

open Interleaving

/-- Calls of the listener, the first at the first moment. -/
def amidMoments (p : Dashboard.Reading (List EventEntry)) (run : ℕ → Dashboard.Moment) :
    List EventEntry :=
  (p.amid (fun m op (u : Unit) => (Dashboard.Moment.answer m op, u)) run ()).1

def wakes : List Beat → ℕ
  | [] => 0
  | .wake _ _ :: bs => wakes bs + 1
  | _ :: bs => wakes bs

def first (m : Dashboard.Moment) (run : ℕ → Dashboard.Moment) : ℕ → Dashboard.Moment
  | 0 => m
  | n + 1 => run n

theorem amidMoments_wake (run : ℕ → Dashboard.Moment) (more lastSeq : ℕ) (sent : List EventEntry) :
    amidMoments (Dashboard.listenEvents true (more + 1) lastSeq sent) run =
      if (run 0).wake.isDue lastSeq then
        match (run 1).answer (.listEvents lastSeq 100) with
        | .error _ =>
          amidMoments (Dashboard.listenEvents true more lastSeq sent) fun n => run (n + 2)
        | .ok events =>
          amidMoments (Dashboard.listenEvents true more
            ((events.getLast?.map EventEntry.seq).getD lastSeq) (sent ++ events))
            fun n => run (n + 2)
      else amidMoments (Dashboard.listenEvents true more lastSeq sent) fun n => run (n + 1) := by
  have hreceive : amidMoments (Dashboard.listenEvents true (more + 1) lastSeq sent) run =
      amidMoments (if !(run 0).wake.isDue lastSeq then Dashboard.listenEvents true more lastSeq sent
        else do
          match ← Dashboard.execute (.listEvents lastSeq 100) with
          | .error _ => Dashboard.listenEvents true more lastSeq sent
          | .ok events =>
            Dashboard.listenEvents true more ((events.getLast?.map EventEntry.seq).getD lastSeq)
              (sent ++ events.map fun e => Dashboard.filterEvent e true))
        fun n => run (n + 1) := rfl
  have hshown (events : List EventEntry) :
      (events.map fun e => Dashboard.filterEvent e true) = events := List.map_id _
  rw [hreceive]
  cases (run 0).wake.isDue lastSeq with
  | false => rfl
  | true =>
    change amidMoments (Prog.call (.listEvents lastSeq 100) _) _ = _
    simp only [hshown, if_true]
    change amidMoments (match (run 1).answer (.listEvents lastSeq 100) with
      | .error _ => _
      | .ok events => _) (fun n => run (n + 2)) = _
    cases (run 1).answer (.listEvents lastSeq 100) with
    | error e => rfl
    | ok events => rfl

/-- Every run is one of the listener's program, which sends what the run yields. -/
theorem listenEvents_beats (w : EventWatch) (bs : List Beat) : ∃ run,
    amidMoments (Dashboard.listenEvents true (wakes bs) w.lastSeq w.yielded) run =
      (w.beats bs).yielded := by
  induction bs generalizing w with
  | nil => exact ⟨fun _ => ⟨.pg .empty w.events {}, none, .timedOut, 0⟩, rfl⟩
  | cons b bs ih =>
    cases b with
    | insert e => exact ih (w.beat (.insert e))
    | commit n => exact ih (w.beat (.commit n))
    | abort n => exact ih (w.beat (.abort n))
    | wake k fault =>
      obtain ⟨run, hrun⟩ := ih (w.beat (.wake k fault))
      let asked : Dashboard.Moment := ⟨.pg .empty w.events {}, none, k, 0⟩
      by_cases hdue : k.isDue w.lastSeq
      · refine ⟨first asked (first ⟨.pg .empty w.events {}, fault, k, 0⟩ run),
          (amidMoments_wake _ _ _ _).trans ((if_pos hdue).trans ?_)⟩
        change _ = ((w.beat (.wake k fault)).beats bs).yielded
        rw [← hrun]
        cases fault with
        | none =>
          have hbeat : w.beat (.wake k none) = w.fetch 100 := if_pos (by rw [hdue]; rfl)
          rw [hbeat]
          rfl
        | some e =>
          have hbeat : w.beat (.wake k (some e)) = w := if_neg (by simp)
          rw [hbeat]
          rfl
      · refine ⟨first asked run, (amidMoments_wake _ _ _ _).trans ((if_neg hdue).trans ?_)⟩
        have hbeat : w.beat (.wake k fault) = w := if_neg (by simp [hdue])
        change _ = ((w.beat (.wake k fault)).beats bs).yielded
        rw [← hrun, hbeat]
        rfl

end Program

end EventWatch

end FleetOrchestrator.Output
