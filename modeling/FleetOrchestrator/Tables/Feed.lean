import FleetOrchestrator.Tables.Paging
import Mathlib.Data.List.Induction

/-! Rows numbered from a sequence when they are written and visible once they are committed, and a
reader that asks for the rows after the greatest number it has seen. -/

namespace FleetOrchestrator.Tables

structure Numbered (ρ : Type) where
  seq : ℕ
  row : ρ
  deriving DecidableEq

structure Feed (ρ : Type) where
  drawn : ℕ := 0
  inFlight : List (Numbered ρ) := []
  /-- In the order of the commits, newest first. -/
  committed : List (Numbered ρ) := []

namespace Feed

variable {ρ : Type} {p : ρ → Bool} {f : Feed ρ}

def insert (f : Feed ρ) (row : ρ) : Feed ρ :=
  { f with drawn := f.drawn + 1, inFlight := f.inFlight ++ [⟨f.drawn + 1, row⟩] }

/-- The row written under the number, while it is not committed. -/
def written (f : Feed ρ) (n : ℕ) : Option (Numbered ρ) := f.inFlight.find? fun x => x.seq = n

def abort (f : Feed ρ) (n : ℕ) : Feed ρ :=
  { f with inFlight := f.inFlight.filter fun x => x.seq ≠ n }

def commit (f : Feed ρ) (n : ℕ) : Feed ρ :=
  match f.written n with
  | none => f
  | some x => { f.abort n with committed := x :: f.committed }

/-- All committed rows of a query, in the order of their numbers. -/
def rows (f : Feed ρ) (p : ρ → Bool) : List (Numbered ρ) :=
  (f.committed.filter fun x => p x.row).insertionSort fun x y => x.seq ≤ y.seq

def after (f : Feed ρ) (p : ρ → Bool) (cursor : ℕ) : List (Numbered ρ) :=
  (f.committed.filter fun x => p x.row && cursor < x.seq).insertionSort fun x y => x.seq ≤ y.seq

/-- No number was given twice, and none beyond the sequence. -/
structure Sound (f : Feed ρ) : Prop where
  distinct : ((f.inFlight ++ f.committed).map Numbered.seq).Nodup
  drawn : ∀ x ∈ f.inFlight ++ f.committed, x.seq ≤ f.drawn

theorem after_eq (f : Feed ρ) (p : ρ → Bool) (cursor : ℕ) :
    f.after p cursor = (f.rows p).filter fun x => cursor < x.seq := by
  have : IsTrans (Numbered ρ) fun x y => x.seq ≤ y.seq := ⟨fun _ _ _ hab hbc => hab.trans hbc⟩
  have : Std.Total fun x y : Numbered ρ => x.seq ≤ y.seq := ⟨fun x y => le_total x.seq y.seq⟩
  rw [after, rows, filter_insertionSort, List.filter_filter]
  congr 1
  apply List.filter_congr
  intro x _
  exact Bool.and_comm _ _

theorem mem_rows {x : Numbered ρ} : x ∈ f.rows p ↔ x ∈ f.committed ∧ p x.row := by
  rw [rows, List.mem_insertionSort, List.mem_filter]

theorem rows_sorted (h : f.Sound) : (f.rows p).Pairwise fun x y => x.seq < y.seq := by
  have : IsTrans (Numbered ρ) fun x y => x.seq ≤ y.seq := ⟨fun _ _ _ hab hbc => hab.trans hbc⟩
  have : Std.Total fun x y : Numbered ρ => x.seq ≤ y.seq := ⟨fun x y => le_total x.seq y.seq⟩
  have hle : (f.rows p).Pairwise fun x y => x.seq ≤ y.seq := List.pairwise_insertionSort _ _
  have hcommitted : (f.committed.map Numbered.seq).Nodup := by
    have hd := h.distinct
    rw [List.map_append] at hd
    exact hd.of_append_right
  have hkept : ((f.committed.filter fun x => p x.row).map Numbered.seq).Nodup :=
    (List.filter_sublist.map Numbered.seq).nodup hcommitted
  have hne : (f.rows p).Pairwise fun x y => x.seq ≠ y.seq := by
    apply List.pairwise_map.mp
    exact ((List.perm_insertionSort _ _).map Numbered.seq).nodup_iff.mpr hkept
  exact (hle.and hne).imp fun ⟨hxy, hn⟩ => lt_of_le_of_ne hxy hn

theorem insert_sound (h : f.Sound) (row : ρ) : (f.insert row).Sound := by
  have hperm : ((f.insert row).inFlight ++ (f.insert row).committed).Perm
      (⟨f.drawn + 1, row⟩ :: (f.inFlight ++ f.committed)) := by
    simp only [insert, List.append_assoc, List.singleton_append]
    exact List.perm_middle
  constructor
  · rw [(hperm.map Numbered.seq).nodup_iff, List.map_cons, List.nodup_cons]
    refine ⟨?_, h.distinct⟩
    intro hm
    obtain ⟨x, hx, he⟩ := List.mem_map.mp hm
    have hle := h.drawn x hx
    have hseq : x.seq = f.drawn + 1 := he
    omega
  · intro x hx
    change x.seq ≤ f.drawn + 1
    rcases List.mem_cons.mp (hperm.mem_iff.mp hx) with rfl | hx
    · exact le_rfl
    · have := h.drawn x hx
      omega

theorem abort_sound (h : f.Sound) (n : ℕ) : (f.abort n).Sound := by
  have hsub : ((f.abort n).inFlight ++ (f.abort n).committed).Sublist
      (f.inFlight ++ f.committed) := List.filter_sublist.append (List.Sublist.refl _)
  exact ⟨(hsub.map Numbered.seq).nodup h.distinct, fun x hx => h.drawn x (hsub.subset hx)⟩

theorem written_some {n : ℕ} {x : Numbered ρ} (h : f.written n = some x) :
    x ∈ f.inFlight ∧ x.seq = n :=
  ⟨List.mem_of_find?_eq_some h, by simpa using List.find?_some h⟩

theorem commit_perm (h : f.Sound) {n : ℕ} {x : Numbered ρ} (hx : f.written n = some x) :
    (x :: (f.abort n).inFlight).Perm f.inFlight := by
  obtain ⟨hmem, hseq⟩ := written_some hx
  obtain ⟨s, t, hst⟩ := List.append_of_mem hmem
  have hd : (f.inFlight.map Numbered.seq).Nodup := by
    have := h.distinct
    rw [List.map_append] at this
    exact this.of_append_left
  rw [hst, List.map_append, List.map_cons, List.nodup_middle, List.nodup_cons] at hd
  have hothers : ∀ y ∈ s ++ t, y.seq ≠ n := by
    intro y hy he
    apply hd.1
    rw [hseq, ← he, ← List.map_append]
    exact List.mem_map_of_mem hy
  have hkeep : (f.abort n).inFlight = s ++ t := by
    change f.inFlight.filter _ = s ++ t
    rw [hst, List.filter_append, List.filter_cons_of_neg (by simp [hseq])]
    rw [← List.filter_append, List.filter_eq_self]
    intro y hy
    simpa using hothers y hy
  rw [hkeep, hst]
  exact List.perm_middle.symm

theorem commit_sound (h : f.Sound) (n : ℕ) : (f.commit n).Sound := by
  unfold commit
  cases hx : f.written n with
  | none => exact h
  | some x =>
    have hperm : ((f.abort n).inFlight ++ x :: f.committed).Perm (f.inFlight ++ f.committed) :=
      List.perm_middle.trans ((commit_perm h hx).append_right f.committed)
    exact ⟨((hperm.map Numbered.seq).nodup_iff).mpr h.distinct,
      fun y hy => h.drawn y (hperm.mem_iff.mp hy)⟩

/-- A row appended with no other in flight is the last one. -/
theorem commit_insert (h : f.inFlight = []) (row : ρ) :
    (f.insert row).commit (f.drawn + 1) =
      ⟨f.drawn + 1, [], ⟨f.drawn + 1, row⟩ :: f.committed⟩ := by
  simp [commit, written, insert, abort, h]

theorem abort_insert (h : f.inFlight = []) (row : ρ) :
    (f.insert row).abort (f.drawn + 1) = { f with drawn := f.drawn + 1 } := by
  simp [insert, abort, h]

theorem rows_cons {g : Feed ρ} {x : Numbered ρ} (hg : g.committed = x :: f.committed)
    (hx : ∀ y ∈ f.committed, y.seq < x.seq) :
    g.rows p = f.rows p ++ if p x.row then [x] else [] := by
  unfold rows
  rw [hg, List.filter_cons]
  cases p x.row with
  | false => simp
  | true =>
    have hlast : ∀ y ∈ f.rows p, ¬ x.seq ≤ y.seq := by
      intro y hy
      exact not_le.mpr (hx y (mem_rows.mp hy).1)
    have hend : ∀ l : List (Numbered ρ), (∀ y ∈ l, ¬ x.seq ≤ y.seq) →
        l.orderedInsert (fun x y => x.seq ≤ y.seq) x = l ++ [x] := by
      intro l hl
      induction l with
      | nil => rfl
      | cons y l ih =>
        obtain ⟨hy, hl⟩ := List.forall_mem_cons.mp hl
        rw [List.orderedInsert_cons, if_neg hy, ih hl]
        rfl
    exact hend (f.rows p) hlast

/-- A row in flight is not committed under the same number. -/
theorem Sound.not_committed (h : f.Sound) {n : ℕ} {x : Numbered ρ} (hx : f.written n = some x) :
    ∀ y ∈ f.committed, y.seq ≠ n := by
  intro y hy he
  obtain ⟨hmem, hseq⟩ := written_some hx
  have hd := h.distinct
  rw [List.map_append, List.nodup_append] at hd
  exact hd.2.2 x.seq (List.mem_map_of_mem hmem) y.seq (List.mem_map_of_mem hy) (hseq.trans he.symm)

end Feed

/-- The greatest number on a page that is in order, and the cursor itself if it is empty. -/
def lastNumber {ρ : Type} (cursor : ℕ) (page : List (Numbered ρ)) : ℕ :=
  (page.getLast?.map Numbered.seq).getD cursor

structure Reader (ρ : Type) where
  cursor : ℕ := 0
  seen : List (Numbered ρ) := []

def Reader.take {ρ : Type} (r : Reader ρ) (page : List (Numbered ρ)) : Reader ρ :=
  ⟨lastNumber r.cursor page, r.seen ++ page⟩

/-- What writers and the reader do next; a read has a limit if it is to be one. -/
inductive Reading.Move (ρ : Type) where
  | insert (row : ρ)
  | commit (n : ℕ)
  | abort (n : ℕ)
  | read (limit : Option ℕ)

structure Reading (ρ : Type) where
  feed : Feed ρ := {}
  reader : Reader ρ := {}

namespace Reading

variable {ρ : Type} {p : ρ → Bool} {s : Reading ρ}

def page (p : ρ → Bool) (s : Reading ρ) : Option ℕ → List (Numbered ρ)
  | none => s.feed.after p s.reader.cursor
  | some limit => (s.feed.after p s.reader.cursor).take limit

def move (p : ρ → Bool) (s : Reading ρ) : Move ρ → Reading ρ
  | .insert row => { s with feed := s.feed.insert row }
  | .commit n => { s with feed := s.feed.commit n }
  | .abort n => { s with feed := s.feed.abort n }
  | .read limit => { s with reader := s.reader.take (s.page p limit) }

def moves (p : ρ → Bool) (s : Reading ρ) (ms : List (Move ρ)) : Reading ρ := ms.foldl (move p) s

/-- The reader, if it now reads on to the end, has seen every committed row once, in order. -/
def SeesAll (p : ρ → Bool) (s : Reading ρ) : Prop :=
  s.reader.seen ++ s.feed.after p s.reader.cursor = s.feed.rows p

/-- The move commits a row of the query that the reader's cursor has passed. -/
def Overtaken (p : ρ → Bool) (s : Reading ρ) : Move ρ → Prop
  | .commit n => (∃ x, s.feed.written n = some x ∧ p x.row) ∧ n ≤ s.reader.cursor
  | _ => False

/-- What was seen is committed, in order, and not beyond the cursor. -/
structure Sound (p : ρ → Bool) (s : Reading ρ) : Prop where
  feed : s.feed.Sound
  seen : ∀ x ∈ s.reader.seen, x ∈ s.feed.rows p ∧ x.seq ≤ s.reader.cursor
  ordered : s.reader.seen.Pairwise fun x y => x.seq < y.seq

theorem page_after (limit : Option ℕ) :
    ∃ rest, s.feed.after p s.reader.cursor = s.page p limit ++ rest := by
  cases limit with
  | none => exact ⟨[], (List.append_nil _).symm⟩
  | some n => exact ⟨_, (List.take_append_drop n _).symm⟩

theorem mem_after {x : Numbered ρ} :
    x ∈ s.feed.after p s.reader.cursor ↔ x ∈ s.feed.rows p ∧ s.reader.cursor < x.seq := by
  rw [Feed.after_eq, List.mem_filter, decide_eq_true_eq]

theorem after_sorted (h : s.feed.Sound) :
    (s.feed.after p s.reader.cursor).Pairwise fun x y => x.seq < y.seq := by
  rw [Feed.after_eq]
  exact (Feed.rows_sorted h).filter _

theorem mem_page {limit : Option ℕ} {x : Numbered ρ} (hx : x ∈ s.page p limit) :
    x ∈ s.feed.rows p ∧ s.reader.cursor < x.seq := by
  obtain ⟨rest, hr⟩ := page_after (p := p) (s := s) limit
  apply mem_after.mp
  rw [hr]
  exact List.mem_append_left rest hx

/-- In a list in order, the last number is reached by its own rows and passed by all others. -/
theorem lastNumber_splits {cursor : ℕ} {page rest : List (Numbered ρ)}
    (hs : (page ++ rest).Pairwise fun x y => x.seq < y.seq)
    (hc : ∀ x ∈ page ++ rest, cursor < x.seq) :
    cursor ≤ lastNumber cursor page ∧ (∀ x ∈ page, x.seq ≤ lastNumber cursor page) ∧
      ∀ x ∈ rest, lastNumber cursor page < x.seq := by
  obtain ⟨hp, -, hpr⟩ := List.pairwise_append.mp hs
  rcases List.eq_nil_or_concat page with rfl | ⟨init, z, rfl⟩
  · refine ⟨le_rfl, by simp, fun x hx => hc x (by simpa using hx)⟩
  · have hl : lastNumber cursor (init.concat z) = z.seq := by simp [lastNumber]
    rw [hl]
    refine ⟨?_, ?_, ?_⟩
    · exact (hc z (by simp)).le
    · intro x hx
      rw [List.concat_eq_append] at hx hp
      rcases List.mem_append.mp hx with hx | hx
      · exact ((List.pairwise_append.mp hp).2.2 x hx z (by simp)).le
      · rw [List.mem_singleton.mp hx]
    · exact fun x hx => hpr z (by simp) x hx

theorem page_splits (h : s.feed.Sound) (limit : Option ℕ) :
    s.reader.cursor ≤ lastNumber s.reader.cursor (s.page p limit) ∧
      (∀ x ∈ s.page p limit, x.seq ≤ lastNumber s.reader.cursor (s.page p limit)) ∧
      ∀ x ∈ s.feed.rows p, s.reader.cursor < x.seq →
        x.seq ≤ lastNumber s.reader.cursor (s.page p limit) → x ∈ s.page p limit := by
  obtain ⟨rest, hr⟩ := page_after (p := p) (s := s) limit
  have hsorted := after_sorted (p := p) h
  rw [hr] at hsorted
  have hlater : ∀ x ∈ s.page p limit ++ rest, s.reader.cursor < x.seq := by
    intro x hx
    rw [← hr] at hx
    exact (mem_after.mp hx).2
  obtain ⟨hcursor, hpage, hrest⟩ := lastNumber_splits hsorted hlater
  refine ⟨hcursor, hpage, fun x hx hlt hle => ?_⟩
  have hx : x ∈ s.feed.after p s.reader.cursor := mem_after.mpr ⟨hx, hlt⟩
  rw [hr] at hx
  rcases List.mem_append.mp hx with hx | hx
  · exact hx
  · exact absurd hle (not_le.mpr (hrest x hx))

theorem sound_move (h : s.Sound p) (m : Move ρ) : (s.move p m).Sound p := by
  have kept {g : Feed ρ} (hg : g.Sound) (hc : ∀ x ∈ s.feed.committed, x ∈ g.committed) :
      Sound p { s with feed := g } := by
    refine ⟨hg, fun x hx => ⟨?_, (h.seen x hx).2⟩, h.ordered⟩
    obtain ⟨hmem, hp⟩ := Feed.mem_rows.mp (h.seen x hx).1
    exact Feed.mem_rows.mpr ⟨hc x hmem, hp⟩
  cases m with
  | insert row => exact kept (Feed.insert_sound h.feed row) fun _ hx => hx
  | abort n => exact kept (Feed.abort_sound h.feed n) fun _ hx => hx
  | commit n =>
    apply kept (Feed.commit_sound h.feed n)
    intro x hx
    unfold Feed.commit
    cases s.feed.written n with
    | none => exact hx
    | some y => exact List.mem_cons_of_mem y hx
  | read limit =>
    obtain ⟨hcursor, hpage, -⟩ := page_splits (p := p) h.feed limit
    refine ⟨h.feed, ?_, ?_⟩
    · intro x hx
      rcases List.mem_append.mp hx with hx | hx
      · exact ⟨(h.seen x hx).1, (h.seen x hx).2.trans hcursor⟩
      · exact ⟨(mem_page hx).1, hpage x hx⟩
    · obtain ⟨rest, hr⟩ := page_after (p := p) (s := s) limit
      have hsorted := after_sorted (p := p) h.feed
      rw [hr] at hsorted
      apply List.pairwise_append.mpr
      refine ⟨h.ordered, (List.pairwise_append.mp hsorted).1, fun x hx y hy => ?_⟩
      exact (h.seen x hx).2.trans_lt (mem_page hy).2

theorem seesAll_iff (h : s.Sound p) :
    s.SeesAll p ↔ ∀ x ∈ s.feed.rows p, x.seq ≤ s.reader.cursor → x ∈ s.reader.seen := by
  constructor
  · intro hs x hx hle
    rw [← hs] at hx
    rcases List.mem_append.mp hx with hx | hx
    · exact hx
    · exact absurd hle (not_le.mpr (mem_after.mp hx).2)
  · intro hall
    have hsorted : (s.reader.seen ++ s.feed.after p s.reader.cursor).Pairwise
        fun x y => x.seq < y.seq := by
      apply List.pairwise_append.mpr
      refine ⟨h.ordered, after_sorted h.feed, fun x hx y hy => ?_⟩
      exact (h.seen x hx).2.trans_lt (mem_after.mp hy).2
    have hnodup {l : List (Numbered ρ)} (hl : l.Pairwise fun x y => x.seq < y.seq) : l.Nodup := by
      apply hl.imp
      rintro x y hxy rfl
      exact lt_irrefl _ hxy
    have hperm : (s.reader.seen ++ s.feed.after p s.reader.cursor).Perm (s.feed.rows p) := by
      apply (List.perm_ext_iff_of_nodup (hnodup hsorted) (hnodup (Feed.rows_sorted h.feed))).mpr
      intro x
      rw [List.mem_append]
      constructor
      · rintro (hx | hx)
        · exact (h.seen x hx).1
        · exact (mem_after.mp hx).1
      · intro hx
        rcases Nat.lt_or_ge s.reader.cursor x.seq with hlt | hle
        · exact .inr (mem_after.mpr ⟨hx, hlt⟩)
        · exact .inl (hall x hx hle)
    refine List.Perm.eq_of_pairwise ?_ hsorted (Feed.rows_sorted h.feed) hperm
    intro x y _ _ hxy hyx
    exact absurd hxy (not_lt.mpr hyx.le)

/-- Only the commit of an overtaken row takes a row from the reader, and for good. -/
theorem seesAll_move (h : s.Sound p) (m : Move ρ) :
    (s.move p m).SeesAll p ↔ s.SeesAll p ∧ ¬ s.Overtaken p m := by
  rw [seesAll_iff (sound_move h m), seesAll_iff h]
  cases m with
  | insert row => simp [move, Overtaken, Feed.insert, Feed.rows]
  | abort n => simp [move, Overtaken, Feed.abort, Feed.rows]
  | commit n =>
    simp only [move, Overtaken, Feed.commit]
    cases hw : s.feed.written n with
    | none => simp
    | some y =>
      have hseq := (Feed.written_some hw).2
      have hnew : y ∉ s.reader.seen := by
        intro hy
        have hc := (Feed.mem_rows.mp (h.seen y hy).1).1
        exact h.feed.not_committed hw y hc hseq
      simp only [Feed.mem_rows, Feed.abort, List.mem_cons]
      constructor
      · intro hall
        refine ⟨fun x hx hle => hall x ⟨.inr hx.1, hx.2⟩ hle, ?_⟩
        rintro ⟨⟨z, hz, hp⟩, hle⟩
        cases hz
        exact hnew (hall y ⟨.inl rfl, hp⟩ (hseq ▸ hle))
      · rintro ⟨hall, hno⟩ x ⟨rfl | hx, hp⟩ hle
        · exact absurd ⟨⟨x, rfl, hp⟩, hseq ▸ hle⟩ hno
        · exact hall x ⟨hx, hp⟩ hle
  | read limit =>
    obtain ⟨hcursor, -, hpage⟩ := page_splits (p := p) h.feed limit
    simp only [move, Overtaken, not_false_eq_true, and_true, Reader.take]
    constructor
    · intro hall x hx hle
      rcases List.mem_append.mp (hall x hx (hle.trans hcursor)) with hs | hs
      · exact hs
      · exact absurd hle (not_le.mpr (mem_page hs).2)
    · intro hall x hx hle
      rcases Nat.lt_or_ge s.reader.cursor x.seq with hlt | hge
      · exact List.mem_append_right _ (hpage x hx hlt hle)
      · exact List.mem_append_left _ (hall x hx hge)

theorem moves_append (ms ns : List (Move ρ)) : s.moves p (ms ++ ns) = (s.moves p ms).moves p ns :=
  List.foldl_append

theorem sound_moves (h : s.Sound p) (ms : List (Move ρ)) : (s.moves p ms).Sound p := by
  induction ms generalizing s with
  | nil => exact h
  | cons m ms ih => exact ih (sound_move h m)

/-- Over a whole run: the reader sees all exactly if no commit came after its cursor. -/
theorem seesAll_moves (h : s.Sound p) (ms : List (Move ρ)) :
    (s.moves p ms).SeesAll p ↔
      s.SeesAll p ∧ ∀ ms₁ m ms₂, ms = ms₁ ++ m :: ms₂ → ¬ (s.moves p ms₁).Overtaken p m := by
  induction ms using List.reverseRecOn with
  | nil => simp [moves]
  | append_singleton ms m ih =>
    rw [moves_append]
    change ((s.moves p ms).move p m).SeesAll p ↔ _
    rw [seesAll_move (sound_moves h ms), ih, and_assoc]
    apply and_congr_right
    intro _
    constructor
    · rintro ⟨hbefore, hlast⟩ ms₁ m' ms₂ he
      rcases List.eq_nil_or_concat ms₂ with rfl | ⟨ms₂, z, rfl⟩
      · obtain ⟨hms, hm⟩ := List.append_inj' he rfl
        rw [← hms, ← List.singleton_inj.mp hm]
        exact hlast
      · rw [List.concat_eq_append, ← List.cons_append, ← List.append_assoc] at he
        exact hbefore ms₁ m' ms₂ (List.append_inj' he rfl).1
    · intro hall
      refine ⟨fun ms₁ m' ms₂ he => hall ms₁ m' (ms₂ ++ [m]) ?_, hall ms m [] rfl⟩
      rw [he, List.append_assoc, List.cons_append]

theorem moves_reads_feed (limits : List (Option ℕ)) :
    (s.moves p (limits.map .read)).feed = s.feed := by
  induction limits generalizing s with
  | nil => rfl
  | cons limit limits ih => exact ih

/-- A reader that ends up with all the rows, by reads alone, has been skipped by none. -/
theorem seesAll_of_seen (h : s.Sound p) {limits : List (Option ℕ)}
    (hs : (s.moves p (limits.map .read)).reader.seen = s.feed.rows p) : s.SeesAll p := by
  have hend : (s.moves p (limits.map .read)).SeesAll p := by
    apply (seesAll_iff (sound_moves h _)).mpr
    intro x hx _
    rw [hs, ← moves_reads_feed limits]
    exact hx
  exact ((seesAll_moves h _).mp hend).1

theorem seen_of_seesAll (h : s.SeesAll p) {limit : Option ℕ}
    (hl : ∀ n ∈ limit, (s.feed.after p s.reader.cursor).length ≤ n) :
    (s.move p (.read limit)).reader.seen = s.feed.rows p := by
  have hall : s.page p limit = s.feed.after p s.reader.cursor := by
    cases limit with
    | none => rfl
    | some n => exact List.take_of_length_le (hl n rfl)
  change s.reader.seen ++ s.page p limit = _
  rw [hall]
  exact h

theorem sound_start : ({} : Reading ρ).Sound p :=
  ⟨⟨List.nodup_nil, by simp⟩, by simp, List.Pairwise.nil⟩

theorem seesAll_start : ({} : Reading ρ).SeesAll p := rfl

end Reading

end FleetOrchestrator.Tables
