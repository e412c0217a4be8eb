import FleetOrchestrator.Output.Streaming

/-! What a client is given that polls the streaming tool to its end. -/

namespace FleetOrchestrator.Output

open Core Tables Store Interleaving

/-- The buffers hold what was appended to the task, under the numbers that were answered. -/
structure Stores.Kept (id : TaskId) (s : Stores) : Prop where
  mem : s.mem id = s.appended.map Appended.chunk
  counted : s.appended.map (fun a => a.seq .mem) = List.range' 1 s.appended.length
  sound : s.pg.Sound
  settled : s.pg.inFlight = []
  stored : (s.pg.rows fun row => row.taskId = id).map (fun x => (x.seq, x.row.chunk)) =
    s.appended.map (Appended.answer .pg)
  numbered : ∀ a ∈ s.appended, 0 < a.seq .pg

/-- The offset of a reader that has been given the first `k` chunks. -/
def Stores.cursor (s : Stores) (k : ℕ) : Backend → ℕ
  | .mem => k
  | .pg => ((s.appended.take k).getLast?.map fun a => a.seq .pg).getD 0

/-- The number that a page gives for a chunk. -/
def Appended.reported : Backend → Appended → ℕ × String
  | .mem, a => (a.seq .mem - 1, a.chunk)
  | .pg, a => a.answer .pg

def Stores.Grown (s s' : Stores) : Prop := ∃ new, s'.appended = s.appended ++ new

variable {id : TaskId} {b : Backend} {s s' : Stores}

theorem kept_start : ({} : Stores).Kept id :=
  ⟨rfl, rfl, ⟨List.nodup_nil, by simp⟩, rfl, rfl, by simp⟩

theorem kept_append (h : s.Kept id) (t : TaskId) (chunk : String) (at_ : ℤ) :
    (s.write id (.append t chunk at_)).Kept id := by
  have hpg : (s.write id (.append t chunk at_)).pg =
      ⟨s.pg.drawn + 1, [], ⟨s.pg.drawn + 1, ⟨t, chunk, at_⟩⟩ :: s.pg.committed⟩ :=
    Feed.commit_insert h.settled _
  have hrows := Feed.rows_cons (f := s.pg) (p := fun row => row.taskId = id)
    (congrArg Feed.committed hpg) (by
      intro y hy
      have := h.sound.drawn y (List.mem_append_right _ hy)
      change y.seq < s.pg.drawn + 1
      omega)
  have hsound : (s.write id (.append t chunk at_)).pg.Sound :=
    Feed.commit_sound (Feed.insert_sound h.sound _) _
  have hsettled : (s.write id (.append t chunk at_)).pg.inFlight = [] := by rw [hpg]
  by_cases ht : t = id
  · subst t
    have hmem : (s.write id (.append id chunk at_)).mem id = s.mem id ++ [chunk] := if_pos rfl
    have happended : (s.write id (.append id chunk at_)).appended =
        s.appended ++ [⟨chunk, fun | .mem => (s.mem id).length + 1 | .pg => s.pg.drawn + 1⟩] :=
      if_pos rfl
    refine ⟨?_, ?_, hsound, hsettled, ?_, ?_⟩
    · rw [hmem, happended, List.map_append, ← h.mem]
      rfl
    · rw [happended, List.map_append, h.counted, List.length_append, List.length_singleton,
        List.range'_concat, h.mem, List.length_map]
      simp [Nat.add_comm]
    · rw [hrows, happended, List.map_append, List.map_append, h.stored]
      simp [Appended.answer]
    · rw [happended]
      intro a ha
      rcases List.mem_append.mp ha with ha | ha
      · exact h.numbered a ha
      · rw [List.mem_singleton.mp ha]
        exact Nat.succ_pos _
  · have hmem : (s.write id (.append t chunk at_)).mem id = s.mem id := if_neg (Ne.symm ht)
    have happended : (s.write id (.append t chunk at_)).appended = s.appended := if_neg ht
    refine ⟨?_, ?_, hsound, hsettled, ?_, ?_⟩
    · rw [hmem, happended, h.mem]
    · rw [happended, h.counted]
    · rw [hrows, happended, ← h.stored]
      simp [ht]
    · rw [happended]
      exact h.numbered

theorem kept_write (h : s.Kept id) (w : Write) : (s.write id w).Kept id := by
  cases w with
  | append t chunk at_ => exact kept_append h t chunk at_
  | failed t chunk at_ =>
    have hpg : (s.write id (.failed t chunk at_)).pg = { s.pg with drawn := s.pg.drawn + 1 } :=
      Feed.abort_insert h.settled _
    refine ⟨h.mem, h.counted, Feed.abort_sound (Feed.insert_sound h.sound _) _, ?_, ?_, h.numbered⟩
    · rw [hpg]
      exact h.settled
    · rw [hpg]
      exact h.stored

theorem Stores.Grown.refl (s : Stores) : s.Grown s := ⟨[], (List.append_nil _).symm⟩

theorem Stores.Grown.trans {s₁ s₂ s₃ : Stores} (h₁₂ : s₁.Grown s₂) (h₂₃ : s₂.Grown s₃) :
    s₁.Grown s₃ := by
  obtain ⟨new, h⟩ := h₁₂
  obtain ⟨new', h'⟩ := h₂₃
  exact ⟨new ++ new', by rw [h', h, List.append_assoc]⟩

theorem grown_write (id : TaskId) (s : Stores) (w : Write) : s.Grown (s.write id w) := by
  cases w with
  | failed t chunk at_ => exact .refl s
  | append t chunk at_ =>
    by_cases ht : t = id
    · exact ⟨[⟨chunk, fun | .mem => (s.mem t).length + 1 | .pg => s.pg.drawn + 1⟩], if_pos ht⟩
    · exact ⟨[], (if_neg ht).trans (List.append_nil _).symm⟩

theorem kept_writes (h : s.Kept id) (ws : List Write) :
    (ws.foldl (Stores.write id) s).Kept id ∧ s.Grown (ws.foldl (Stores.write id) s) := by
  induction ws generalizing s with
  | nil => exact ⟨h, .refl s⟩
  | cons w ws ih =>
    obtain ⟨hk, hg⟩ := ih (kept_write h w)
    exact ⟨hk, (grown_write id s w).trans hg⟩

theorem Stores.Grown.take (h : s.Grown s') {k : ℕ} (hk : k ≤ s.appended.length) :
    s'.appended.take k = s.appended.take k := by
  obtain ⟨new, he⟩ := h
  rw [he, List.take_append_of_le_length hk]

theorem Stores.Grown.cursor (h : s.Grown s') {k : ℕ} (hk : k ≤ s.appended.length) :
    s'.cursor k b = s.cursor k b := by
  cases b with
  | mem => rfl
  | pg => rw [Stores.cursor, Stores.cursor, h.take hk]

theorem mem_numbers (h : s.Kept id) {i : ℕ} {a : Appended} (ha : s.appended[i]? = some a) :
    a.seq .mem = i + 1 := by
  have hi := (List.getElem?_eq_some_iff.mp ha).1
  have hget := congrArg (fun l => l[i]?) h.counted
  simp only [List.getElem?_map, ha, Option.map_some] at hget
  rw [List.getElem?_range' hi] at hget
  have := Option.some.inj hget
  omega

theorem getOutput_mem (h : s.Kept id) {k : ℕ} (hk : k ≤ s.appended.length) (now : ℤ) :
    (s.getOutput now id k .mem).numbered =
        (s.appended.drop k).map (Appended.reported .mem) ∧
      (s.getOutput now id k .mem).nextOffset = s.appended.length := by
  constructor
  · change List.map _ (List.mapIdx _ ((s.mem id).drop k)) = _
    rw [h.mem, ← List.map_drop]
    apply List.ext_getElem?
    intro i
    rw [List.getElem?_map, List.getElem?_mapIdx, List.getElem?_map, List.getElem?_map,
      List.getElem?_drop]
    cases ha : s.appended[k + i]? with
    | none => rfl
    | some a => simp [Appended.reported, mem_numbers h ha]
  · change k + (List.mapIdx _ ((s.mem id).drop k)).length = _
    rw [List.length_mapIdx, h.mem, List.length_drop, List.length_map]
    omega

/-- Read from behind the first `k` rows, the table gives the others. -/
theorem after_drop (h : s.Kept id) (k : ℕ) :
    s.pg.after (fun row => row.taskId = id) (s.cursor k .pg) =
      (s.pg.rows fun row => row.taskId = id).drop k := by
  let rows := s.pg.rows fun row => row.taskId = id
  have hcursor : s.cursor k .pg = lastNumber 0 (rows.take k) := by
    have hseq : (s.appended.take k).map (fun a => a.seq .pg) =
        (rows.take k).map Numbered.seq := by
      have he := congrArg (fun l => (l.take k).map Prod.fst) h.stored
      simp only [← List.map_take, List.map_map] at he
      exact he.symm
    have hlast := congrArg List.getLast? hseq
    rw [List.getLast?_map, List.getLast?_map] at hlast
    exact congrArg (fun o => o.getD 0) hlast
  have hsorted : (rows.take k ++ rows.drop k).Pairwise fun x y => x.seq < y.seq := by
    rw [List.take_append_drop]
    exact Feed.rows_sorted h.sound
  have hpositive : ∀ x ∈ rows.take k ++ rows.drop k, 0 < x.seq := by
    rw [List.take_append_drop]
    intro x hx
    have hm : (x.seq, x.row.chunk) ∈ s.appended.map (Appended.answer .pg) := by
      rw [← h.stored]
      exact List.mem_map_of_mem hx
    obtain ⟨a, ha, he⟩ := List.mem_map.mp hm
    have hs : a.seq .pg = x.seq := congrArg Prod.fst he
    rw [← hs]
    exact h.numbered a ha
  obtain ⟨-, hread, hrest⟩ := Reading.lastNumber_splits hsorted hpositive
  rw [Feed.after_eq, hcursor]
  calc rows.filter (fun x => lastNumber 0 (rows.take k) < x.seq)
      = (rows.take k).filter (fun x => lastNumber 0 (rows.take k) < x.seq) ++
          (rows.drop k).filter (fun x => lastNumber 0 (rows.take k) < x.seq) := filter_split k
    _ = [] ++ rows.drop k := by
        rw [List.filter_eq_nil_iff.mpr, List.filter_eq_self.mpr]
        · intro x hx
          exact decide_eq_true (hrest x hx)
        · intro x hx
          simpa using hread x hx
    _ = rows.drop k := List.nil_append _

theorem getOutput_pg (h : s.Kept id) {k : ℕ} (hk : k ≤ s.appended.length) (now : ℤ) :
    (s.getOutput now id (s.cursor k .pg) .pg).numbered =
        (s.appended.drop k).map (Appended.reported .pg) ∧
      (s.getOutput now id (s.cursor k .pg) .pg).nextOffset = s.cursor s.appended.length .pg := by
  have hnumbered : (PgStore.getOutput s.pg id (s.cursor k .pg)).numbered =
      (s.appended.drop k).map (Appended.answer .pg) := by
    rw [List.map_drop, ← h.stored, ← List.map_drop, ← after_drop h]
    exact List.map_map
  refine ⟨hnumbered, ?_⟩
  have hseq : ((PgStore.getOutput s.pg id (s.cursor k .pg)).chunks.map TaskOutputChunk.seq) =
      (s.appended.drop k).map fun a => a.seq .pg := by
    have he := congrArg (List.map Prod.fst) hnumbered
    rw [List.map_map, TaskOutput.numbered, List.map_map] at he
    exact he
  change ((PgStore.getOutput s.pg id (s.cursor k .pg)).chunks.getLast?.map
    TaskOutputChunk.seq).getD (s.cursor k .pg) = _
  rw [← List.getLast?_map, hseq, List.getLast?_map, Stores.cursor, Stores.cursor,
    List.take_length]
  rcases Nat.lt_or_ge k s.appended.length with hlt | hge
  · rw [List.getLast?_drop, if_neg (not_le.mpr hlt)]
    cases hl : s.appended.getLast? with
    | none =>
      rw [List.getLast?_eq_none_iff] at hl
      rw [hl] at hlt
      simp at hlt
    | some a => rfl
  · have he : k = s.appended.length := le_antisymm hk hge
    subst he
    simp

/-- A page read from behind the first `k` chunks has all the others. -/
theorem getOutput_from (h : s.Kept id) {k : ℕ} (hk : k ≤ s.appended.length) (now : ℤ) :
    (s.getOutput now id (s.cursor k b) b).taskId = id ∧
      (s.getOutput now id (s.cursor k b) b).numbered =
        (s.appended.drop k).map (Appended.reported b) ∧
      (s.getOutput now id (s.cursor k b) b).nextOffset = s.cursor s.appended.length b := by
  cases b with
  | mem => exact ⟨rfl, getOutput_mem h hk now⟩
  | pg => exact ⟨rfl, getOutput_pg h hk now⟩

/-- The chunks appended after the one view was read and before the other was. -/
def gap (v v' : View) : List Appended := (v'.stores.appended.take v'.readTo).drop v.readTo

/-- The reader's offset is that of what it has read. -/
structure Stands (b : Backend) (id : TaskId) (v : View) (offset : ℕ) : Prop where
  kept : v.stores.Kept id
  within : v.readTo ≤ v.stores.appended.length
  offset : offset = v.stores.cursor v.readTo b

/-- On from one view to another the reader was given exactly the chunks between them. -/
structure Fed (b : Backend) (id : TaskId) (v : View) (t : Tail) (v' : View) (t' : Tail) : Prop where
  stands : Stands b id v' t'.offset
  grown : v.stores.Grown v'.stores
  further : v.readTo ≤ v'.readTo
  pages : ∃ new, v'.pages = v.pages ++ new ∧
    new.flatMap TaskOutput.numbered = (gap v v').map (Appended.reported b) ∧
    ∀ o ∈ new, o.taskId = id ∧ ∃ j ≤ v'.readTo, o.nextOffset = v'.stores.cursor j b
  buffer : t'.buffer = (gap v v').foldl (fun buffer a => buffer ++ a.chunk) t.buffer

variable {v v₁ v₂ : View} {t t₁ t₂ : Tail}

theorem gap_trans {v₀ : View} (h₀ : v₀.readTo ≤ v₁.readTo) (h : v₁.readTo ≤ v₂.readTo)
    (hw : v₁.readTo ≤ v₁.stores.appended.length) (hg : v₁.stores.Grown v₂.stores) :
    gap v₀ v₂ = gap v₀ v₁ ++ gap v₁ v₂ := by
  have hfirst : v₁.stores.appended.take v₁.readTo =
      (v₂.stores.appended.take v₂.readTo).take v₁.readTo := by
    rw [List.take_take, Nat.min_eq_left h, hg.take hw]
  unfold gap
  rw [hfirst]
  generalize hl : v₂.stores.appended.take v₂.readTo = l
  have hlen := Nat.lt_or_ge l.length v₁.readTo
  calc l.drop v₀.readTo = (l.take v₁.readTo ++ l.drop v₁.readTo).drop v₀.readTo := by
        rw [List.take_append_drop]
    _ = (l.take v₁.readTo).drop v₀.readTo ++ l.drop v₁.readTo := by
        rw [List.drop_append, List.length_take]
        rcases hlen with hlen | hlen
        · rw [List.drop_eq_nil_of_le hlen.le, List.drop_nil]
        · have hz : v₀.readTo - min v₁.readTo l.length = 0 := by omega
          rw [hz, List.drop_zero]

theorem Fed.trans (h₁ : Fed b id v t v₁ t₁) (h₂ : Fed b id v₁ t₁ v₂ t₂) : Fed b id v t v₂ t₂ := by
  have hgap := gap_trans h₁.further h₂.further h₁.stands.within h₂.grown
  obtain ⟨new₁, hp₁, hn₁, ho₁⟩ := h₁.pages
  obtain ⟨new₂, hp₂, hn₂, ho₂⟩ := h₂.pages
  refine ⟨h₂.stands, h₁.grown.trans h₂.grown, h₁.further.trans h₂.further,
    ⟨new₁ ++ new₂, ?_, ?_, ?_⟩, ?_⟩
  · rw [hp₂, hp₁, List.append_assoc]
  · rw [List.flatMap_append, hn₁, hn₂, hgap, List.map_append]
  · intro o ho
    rcases List.mem_append.mp ho with ho | ho
    · obtain ⟨hid, j, hj, hnext⟩ := ho₁ o ho
      refine ⟨hid, j, hj.trans h₂.further, ?_⟩
      rw [hnext, h₂.grown.cursor (hj.trans h₁.stands.within)]
    · exact ho₂ o ho
  · rw [h₂.buffer, h₁.buffer, hgap, List.foldl_append]

/-- Appends alone give the reader nothing. -/
theorem fed_writes (h : Stands b id v t.offset) (ws : List Write) :
    Fed b id v t { v with stores := ws.foldl (Stores.write id) v.stores } t := by
  obtain ⟨hk, hg⟩ := kept_writes h.kept ws
  have hgap : gap v { v with stores := ws.foldl (Stores.write id) v.stores } = [] :=
    List.drop_eq_nil_of_le (List.length_take_le _ _)
  refine ⟨⟨hk, ?_, ?_⟩, hg, le_rfl, ⟨[], (List.append_nil _).symm, ?_, by simp⟩, ?_⟩
  · obtain ⟨new, hnew⟩ := hg
    have := h.within
    change v.readTo ≤ (ws.foldl (Stores.write id) v.stores).appended.length
    rw [hnew, List.length_append]
    omega
  · rw [h.offset]
    exact (hg.cursor h.within).symm
  · rw [hgap]
    rfl
  · rw [hgap]
    rfl

theorem fed_page (h : Stands b id v t.offset) (now : ℤ) :
    Fed b id v t
      ⟨v.stores, v.pages ++ [v.stores.getOutput now id t.offset b], v.stores.appended.length⟩
      (t.push (v.stores.getOutput now id t.offset b)) := by
  obtain ⟨hid, hnumbered, hnext⟩ := getOutput_from (b := b) h.kept h.within now
  rw [← h.offset] at hid hnumbered hnext
  have hgap : gap v ⟨v.stores, v.pages ++ [v.stores.getOutput now id t.offset b],
      v.stores.appended.length⟩ = v.stores.appended.drop v.readTo := by
    rw [gap, List.take_length]
  refine ⟨⟨h.kept, le_rfl, hnext⟩, .refl _, h.within, ⟨[_], rfl, ?_, ?_⟩, ?_⟩
  · rw [hgap, List.flatMap_singleton, hnumbered]
  · intro o ho
    rw [List.mem_singleton.mp ho]
    exact ⟨hid, _, le_rfl, hnext⟩
  · have htexts : (v.stores.getOutput now id t.offset b).chunks.map TaskOutputChunk.chunk =
        (v.stores.appended.drop v.readTo).map Appended.chunk := by
      have he := congrArg (List.map Prod.snd) hnumbered
      rw [TaskOutput.numbered, List.map_map, List.map_map] at he
      cases b with
      | mem => exact he
      | pg => exact he
    rw [hgap]
    change (v.stores.getOutput now id t.offset b).chunks.foldl _ t.buffer = _
    rw [← List.foldl_map (f := TaskOutputChunk.chunk) (g := fun buffer c => buffer ++ c), htexts,
      List.foldl_map]

/-- What a part of the tool leaves: whatever it answers the buffers are kept, and where it goes on
the reader was fed. -/
structure Runs {α : Type} (b : Backend) (id : TaskId) (v : View) (t : Tail) (on : α → Tail)
    (r : Except JsonRpcError α × (ℕ → Interim) × View) : Prop where
  kept : r.2.2.stores.Kept id
  grown : v.stores.Grown r.2.2.stores
  fed : ∀ a, r.1 = .ok a → Fed b id v t r.2.2 (on a)

section Running

variable {α β : Type} {on : α → Tail} {on' : β → Tail}

theorem runs_ret {a : α} (h : Fed b id v t v₁ (on a)) (env : ℕ → Interim) :
    Runs b id v t on ((Prog.ret (.ok a) : Handler α).amid (execute b id) env v₁) := by
  refine ⟨h.stands.kept, h.grown, ?_⟩
  rintro _ ⟨⟩
  exact h

theorem runs_later {r : Except JsonRpcError α × (ℕ → Interim) × View} (h : Fed b id v t v₁ t₁)
    (hr : Runs b id v₁ t₁ on r) : Runs b id v t on r :=
  ⟨hr.kept, h.grown.trans hr.grown, fun a ha => h.trans (hr.fed a ha)⟩

theorem runs_andThen {p : Handler α} {f : α → Handler β} {env : ℕ → Interim}
    (hp : Runs b id v t on (p.amid (execute b id) env v))
    (hf : ∀ a env' v', Fed b id v t v' (on a) →
      Runs b id v' (on a) on' ((f a).amid (execute b id) env' v')) :
    Runs b id v t on' ((p.andThen f).amid (execute b id) env v) := by
  rw [Prog.amid_andThen]
  cases hr : (p.amid (execute b id) env v).1 with
  | error e =>
    refine ⟨hp.kept, hp.grown, ?_⟩
    rintro _ ⟨⟩
  | ok a =>
    have hfed := hp.fed a hr
    exact runs_later hfed (hf a _ _ hfed)

theorem runs_getTask (h : Stands b id v t.offset) (env : ℕ → Interim) :
    Runs b id v t (fun _ : Option Task => t) ((getTask id).amid (execute b id) env v) := by
  have hfed := fed_writes h (env 0).writes
  unfold getTask
  simp only [Prog.amid, execute]
  cases (env 0).task with
  | ok task =>
    refine ⟨hfed.stands.kept, hfed.grown, ?_⟩
    rintro _ ⟨⟩
    exact hfed
  | error e =>
    refine ⟨hfed.stands.kept, hfed.grown, ?_⟩
    rintro _ ⟨⟩

theorem runs_readOutput (h : Stands b id v t.offset) (env : ℕ → Interim) :
    Runs b id v t (fun t' => t') ((readOutput id t).amid (execute b id) env v) := by
  have hfed := fed_writes h (env 0).writes
  unfold readOutput
  simp only [Prog.amid, execute]
  cases (env 0).fault with
  | none =>
    have hpage := hfed.trans (fed_page hfed.stands (env 0).now)
    exact ⟨hpage.stands.kept, hpage.grown, fun t' ht' => Except.ok.inj ht' ▸ hpage⟩
  | some e =>
    refine ⟨hfed.stands.kept, hfed.grown, ?_⟩
    rintro _ ⟨⟩

theorem runs_pollLoop (left : ℕ) (h : Stands b id v t.offset) (env : ℕ → Interim) :
    Runs b id v t Prod.fst ((pollLoop id left t).amid (execute b id) env v) := by
  induction left generalizing t v env with
  | zero => exact runs_ret (fed_writes h []) env
  | succ left ih =>
    refine runs_andThen (runs_readOutput h env) fun t₁ env₁ v₁ hread => ?_
    refine runs_andThen (runs_getTask hread.stands env₁) fun task env₂ v₂ hwait => ?_
    by_cases hterminal : task.any Task.isTerminal
    · rw [if_pos hterminal]
      exact runs_ret (fed_writes hwait.stands []) env₂
    · rw [if_neg hterminal]
      exact ih hwait.stands env₂

/-- What the report of a run says of its reads. -/
def ToolAnswer.tail (t : Tail) : ToolAnswer → Tail
  | .toolError _ => t
  | .json r => ⟨r.nextOffset, r.output, r.chunksSeen, r.pollsUsed⟩

theorem runs_handler {offset : ℕ} (h : Stands b id v offset) (maxPolls : Option ℕ)
    (env : ℕ → Interim) :
    Runs b id v { offset } (ToolAnswer.tail { offset })
      ((handleStreamTaskOutput id (some offset) maxPolls).amid (execute b id) env v) := by
  refine runs_andThen (runs_getTask (t := { offset }) h env) fun task env₁ v₁ hfirst => ?_
  cases task with
  | none =>
    apply runs_ret
    exact fed_writes hfirst.stands []
  | some initialTask =>
    have htailed : Runs b id v₁ { offset } Prod.fst
        ((if initialTask.isTerminal then
          (readOutput id { offset }).andThen fun t => .ret (.ok (t, "terminal"))
        else pollLoop id (min (max (maxPolls.getD 60) 1) 600) { offset } : Handler (Tail × String)).amid
          (execute b id) env₁ v₁) := by
      by_cases hterminal : initialTask.isTerminal
      · rw [if_pos hterminal]
        refine runs_andThen (runs_readOutput hfirst.stands env₁) fun t₂ env₂ v₂ hread => ?_
        exact runs_ret (fed_writes hread.stands []) env₂
      · rw [if_neg hterminal]
        exact runs_pollLoop _ hfirst.stands env₁
    refine runs_andThen htailed fun done env₂ v₂ hread => ?_
    refine runs_andThen (runs_getTask hread.stands env₂) fun finalTask env₃ v₃ hlast => ?_
    apply runs_ret
    exact fed_writes hlast.stands []

end Running

/-- Two runs of the tool that differ in nothing but the numbers of what they read. -/
structure Alike {α : Type} (R : α → α → Prop)
    (r r' : Except JsonRpcError α × (ℕ → Interim) × View) : Prop where
  env : r.2.1 = r'.2.1
  stores : r.2.2.stores = r'.2.2.stores
  readTo : r.2.2.readTo = r'.2.2.readTo
  pages : r.2.2.pages.length = r'.2.2.pages.length
  failed : ∀ e, r.1 = .error e ↔ r'.1 = .error e
  answered : ∀ a a', r.1 = .ok a → r'.1 = .ok a' → R a a'

section Comparing

variable {α β : Type} {R : α → α → Prop} {S : β → β → Prop} {b' : Backend} {v' : View}

/-- The same buffers, read by as many pages up to the same chunk. -/
structure View.Like (v v' : View) : Prop where
  stores : v.stores = v'.stores
  readTo : v.readTo = v'.readTo
  pages : v.pages.length = v'.pages.length

theorem alike_ret {a a' : α} (ha : R a a') (h : v.Like v') (env : ℕ → Interim) :
    Alike R ((Prog.ret (.ok a) : Handler α).amid (execute b id) env v)
      ((Prog.ret (.ok a') : Handler α).amid (execute b' id) env v') := by
  refine ⟨rfl, h.stores, h.readTo, h.pages, by simp [Prog.amid], ?_⟩
  rintro _ _ ⟨⟩ ⟨⟩
  exact ha

theorem alike_andThen {p p' : Handler α} {f f' : α → Handler β} {env : ℕ → Interim}
    (hp : Alike R (p.amid (execute b id) env v) (p'.amid (execute b' id) env v'))
    (hf : ∀ a a' env v v', R a a' → View.Like v v' →
      Alike S ((f a).amid (execute b id) env v) ((f' a').amid (execute b' id) env v')) :
    Alike S ((p.andThen f).amid (execute b id) env v)
      ((p'.andThen f').amid (execute b' id) env v') := by
  rw [Prog.amid_andThen, Prog.amid_andThen]
  have henv := hp.env
  cases hr : (p.amid (execute b id) env v).1 with
  | error e =>
    rw [(hp.failed e).mp hr]
    exact ⟨henv, hp.stores, hp.readTo, hp.pages, by simp, by rintro _ _ ⟨⟩⟩
  | ok a =>
    cases hr' : (p'.amid (execute b' id) env v').1 with
    | error e =>
      rw [(hp.failed e).mpr hr'] at hr
      cases hr
    | ok a' =>
      have hlike : View.Like (p.amid (execute b id) env v).2.2 (p'.amid (execute b' id) env v').2.2 :=
        ⟨hp.stores, hp.readTo, hp.pages⟩
      have hnext := hf a a' (p.amid (execute b id) env v).2.1 _ _ (hp.answered a a' hr hr') hlike
      rw [henv] at hnext
      rw [← henv] at hnext ⊢
      exact hnext

theorem alike_getTask (h : v.Like v') (env : ℕ → Interim) :
    Alike Eq ((getTask id).amid (execute b id) env v) ((getTask id).amid (execute b' id) env v') := by
  have hstores := h.stores
  unfold getTask
  simp only [Prog.amid, execute, hstores]
  cases (env 0).task with
  | ok task =>
    refine ⟨rfl, rfl, h.readTo, h.pages, by simp [Prog.amid], ?_⟩
    rintro _ _ ⟨⟩ ⟨⟩
    rfl
  | error e => exact ⟨rfl, rfl, h.readTo, h.pages, by simp [Prog.amid], by rintro _ _ ⟨⟩⟩

theorem alike_readOutput (t t' : Tail) (h : v.Like v') (env : ℕ → Interim) :
    Alike (fun _ _ => True) ((readOutput id t).amid (execute b id) env v)
      ((readOutput id t').amid (execute b' id) env v') := by
  have hstores := h.stores
  unfold readOutput
  simp only [Prog.amid, execute, hstores]
  cases (env 0).fault with
  | none =>
    refine ⟨rfl, rfl, rfl, ?_, by simp [Prog.amid], fun _ _ _ _ => trivial⟩
    simp [Prog.amid, h.pages]
  | some e => exact ⟨rfl, rfl, h.readTo, h.pages, by simp [Prog.amid], by rintro _ _ ⟨⟩⟩

theorem alike_pollLoop (left : ℕ) (t t' : Tail) (h : v.Like v') (env : ℕ → Interim) :
    Alike (fun _ _ => True) ((pollLoop id left t).amid (execute b id) env v)
      ((pollLoop id left t').amid (execute b' id) env v') := by
  induction left generalizing t t' v v' env with
  | zero => exact alike_ret trivial h env
  | succ left ih =>
    refine alike_andThen (alike_readOutput t t' h env) fun t₁ t₁' env₁ v₁ v₁' _ h₁ => ?_
    refine alike_andThen (alike_getTask h₁ env₁) ?_
    rintro task _ env₂ v₂ v₂' rfl h₂
    by_cases hterminal : task.any Task.isTerminal
    · rw [if_pos hterminal, if_pos hterminal]
      exact alike_ret trivial h₂ env₂
    · rw [if_neg hterminal, if_neg hterminal]
      exact ih t₁ t₁' h₂ env₂

def ToolAnswer.isReport : ToolAnswer → Bool
  | .json _ => true
  | .toolError _ => false

theorem alike_handler (offset offset' maxPolls : Option ℕ) (h : v.Like v') (env : ℕ → Interim) :
    Alike (fun a a' => a.isReport = a'.isReport)
      ((handleStreamTaskOutput id offset maxPolls).amid (execute b id) env v)
      ((handleStreamTaskOutput id offset' maxPolls).amid (execute b' id) env v') := by
  refine alike_andThen (alike_getTask h env) ?_
  rintro task _ env₁ v₁ v₁' rfl h₁
  cases task with
  | none =>
    apply alike_ret _ h₁
    rfl
  | some initialTask =>
    refine alike_andThen (R := fun _ _ => True) ?_ ?_
    · by_cases hterminal : initialTask.isTerminal
      · rw [if_pos hterminal, if_pos hterminal]
        refine alike_andThen (alike_readOutput _ _ h₁ env₁) fun _ _ env₂ _ _ _ h₂ => ?_
        exact alike_ret trivial h₂ env₂
      · rw [if_neg hterminal, if_neg hterminal]
        exact alike_pollLoop _ _ _ h₁ env₁
    · intro done done' env₂ v₂ v₂' _ h₂
      refine alike_andThen (alike_getTask h₂ env₂) fun _ _ env₃ v₃ v₃' _ h₃ => ?_
      apply alike_ret _ h₃
      rfl

end Comparing

/-- What holds of a client's session between its polls. -/
structure Session.Held (b : Backend) (id : TaskId) (s : Session) : Prop where
  stands : Stands b id { stores := s.stores, readTo := s.covered } s.offset
  reported : s.pages.flatMap TaskOutput.numbered =
    (s.stores.appended.take s.covered).map (Appended.reported b)
  pages : ∀ o ∈ s.pages, o.taskId = id ∧ ∃ j ≤ s.covered, o.nextOffset = s.stores.cursor j b
  tells : Tells s

theorem held_start (env : ℕ → Interim) : Session.Held b id { env } := by
  refine ⟨⟨kept_start, le_rfl, ?_⟩, rfl, by simp, rfl⟩
  cases b with
  | mem => rfl
  | pg => rfl

/-- Appends alone take nothing from a session. -/
theorem held_grown {s : Session} (h : s.Held b id) {stores : Stores} (hk : stores.Kept id)
    (hg : s.stores.Grown stores) (env : ℕ → Interim) :
    Session.Held b id { s with env, stores } := by
  have hwithin := h.stands.within
  have htake := hg.take h.stands.within
  refine ⟨⟨hk, ?_, ?_⟩, ?_, ?_, ?_⟩
  · obtain ⟨new, hnew⟩ := hg
    change s.covered ≤ stores.appended.length
    change s.covered ≤ s.stores.appended.length at hwithin
    rw [hnew, List.length_append]
    omega
  · exact h.stands.offset.trans (hg.cursor hwithin).symm
  · change s.pages.flatMap TaskOutput.numbered = (stores.appended.take s.covered).map _
    rw [htake]
    exact h.reported
  · intro o ho
    obtain ⟨hid, j, hj, hnext⟩ := h.pages o ho
    refine ⟨hid, j, hj, ?_⟩
    rw [hnext, hg.cursor (hj.trans hwithin)]
  · change String.join (s.reports.map StreamReport.output) =
      String.join ((stores.appended.take s.covered).map Appended.chunk)
    rw [htake]
    exact h.tells

theorem held_report {s : Session} (h : s.Held b id) {r : StreamReport} {v : View}
    (hf : Fed b id { stores := s.stores, readTo := s.covered } { offset := s.offset } v
      ⟨r.nextOffset, r.output, r.chunksSeen, r.pollsUsed⟩) (env : ℕ → Interim) :
    Session.Held b id
      { env, stores := v.stores, offset := r.nextOffset, reports := s.reports ++ [r],
        pages := s.pages ++ v.pages, covered := v.readTo } := by
  obtain ⟨new, hpages, hnumbered, hnew⟩ := hf.pages
  have hwithin : s.covered ≤ s.stores.appended.length := h.stands.within
  have hfurther : s.covered ≤ v.readTo := hf.further
  have hread : v.stores.appended.take v.readTo =
      s.stores.appended.take s.covered ++ gap { stores := s.stores, readTo := s.covered } v := by
    have htake : v.stores.appended.take s.covered = s.stores.appended.take s.covered :=
      hf.grown.take hwithin
    have hfirst : (v.stores.appended.take v.readTo).take s.covered =
        s.stores.appended.take s.covered := by
      rw [List.take_take, Nat.min_eq_left hfurther, htake]
    rw [← hfirst]
    exact (List.take_append_drop _ _).symm
  have hv : v.pages = new := hpages
  refine ⟨⟨hf.stands.kept, hf.stands.within, hf.stands.offset⟩, ?_, ?_, ?_⟩
  · change (s.pages ++ v.pages).flatMap TaskOutput.numbered =
      (v.stores.appended.take v.readTo).map _
    rw [hread, List.flatMap_append, hv, hnumbered, h.reported, List.map_append]
  · intro o ho
    rcases List.mem_append.mp ho with ho | ho
    · obtain ⟨hid, j, hj, hnext⟩ := h.pages o ho
      refine ⟨hid, j, hj.trans hfurther, ?_⟩
      rw [hnext]
      exact (hf.grown.cursor (hj.trans hwithin)).symm
    · exact hnew o (hv ▸ ho)
  · have hr : r.output = String.join
        ((gap { stores := s.stores, readTo := s.covered } v).map Appended.chunk) := by
      rw [String.join_eq_foldl, List.foldl_map]
      exact hf.buffer
    change String.join ((s.reports ++ [r]).map StreamReport.output) =
      String.join ((v.stores.appended.take v.readTo).map Appended.chunk)
    rw [hread, List.map_append, List.map_append, String.join_append, String.join_append, ← hr,
      h.tells]
    simp

theorem held_poll {s : Session} (h : s.Held b id) (maxPolls : Option ℕ) :
    (s.poll b id maxPolls).Held b id := by
  have hruns := runs_handler h.stands maxPolls s.env
  unfold Session.poll
  generalize (handleStreamTaskOutput id (some s.offset) maxPolls).amid (execute b id) s.env
    { stores := s.stores, readTo := s.covered } = r at hruns
  obtain ⟨answer, env, v⟩ := r
  cases answer with
  | error e => exact held_grown h hruns.kept hruns.grown env
  | ok a =>
    cases a with
    | toolError msg => exact held_grown h hruns.kept hruns.grown env
    | json r => exact held_report h (hruns.fed _ rfl) env

theorem held_session (b : Backend) (id : TaskId) (env : ℕ → Interim) (polls : List (Option ℕ)) :
    (session b id env polls).Held b id := by
  have hrun : ∀ s : Session, s.Held b id → (polls.foldl (Session.poll b id) s).Held b id := by
    induction polls with
    | nil => exact fun s h => h
    | cons maxPolls polls ih => exact fun s h => ih _ (held_poll h maxPolls)
  exact hrun _ (held_start env)

/-- Two sessions that differ in nothing but the numbers of what they were given. -/
structure Session.Like (s s' : Session) : Prop where
  env : s.env = s'.env
  stores : s.stores = s'.stores
  covered : s.covered = s'.covered
  pages : s.pages.length = s'.pages.length

theorem like_poll {s s' : Session} (h : s.Like s') (b b' : Backend) (id : TaskId)
    (maxPolls : Option ℕ) : (s.poll b id maxPolls).Like (s'.poll b' id maxPolls) := by
  have hview : View.Like { stores := s.stores, readTo := s.covered }
      { stores := s'.stores, readTo := s'.covered } := ⟨h.stores, h.covered, rfl⟩
  have halike : Alike (fun a a' => a.isReport = a'.isReport)
      ((handleStreamTaskOutput id (some s.offset) maxPolls).amid (execute b id) s.env
        { stores := s.stores, readTo := s.covered })
      ((handleStreamTaskOutput id (some s'.offset) maxPolls).amid (execute b' id) s.env
        { stores := s'.stores, readTo := s'.covered }) :=
    alike_handler _ _ _ hview s.env
  have henv := h.env
  unfold Session.poll
  rw [henv] at halike ⊢
  generalize (handleStreamTaskOutput id (some s.offset) maxPolls).amid (execute b id) s'.env
    { stores := s.stores, readTo := s.covered } = r at halike
  generalize (handleStreamTaskOutput id (some s'.offset) maxPolls).amid (execute b' id) s'.env
    { stores := s'.stores, readTo := s'.covered } = r' at halike
  obtain ⟨answer, env, v⟩ := r
  obtain ⟨answer', env', v'⟩ := r'
  obtain ⟨he, hs, hr, hp, hfailed, hanswered⟩ := halike
  cases answer with
  | error e =>
    cases (hfailed e).mp rfl
    exact ⟨he, hs, h.covered, h.pages⟩
  | ok a =>
    cases answer' with
    | error e => cases (hfailed e).mpr rfl
    | ok a' =>
      have hkind : a.isReport = a'.isReport := hanswered a a' rfl rfl
      cases a with
      | toolError msg =>
        cases a' with
        | toolError msg' => exact ⟨he, hs, h.covered, h.pages⟩
        | json r' => cases hkind
      | json r =>
        cases a' with
        | toolError msg' => cases hkind
        | json r' =>
          refine ⟨he, hs, hr, ?_⟩
          change (s.pages ++ v.pages).length = (s'.pages ++ v'.pages).length
          rw [List.length_append, List.length_append, h.pages]
          exact congrArg _ hp

theorem like_session (b b' : Backend) (id : TaskId) (env : ℕ → Interim)
    (polls : List (Option ℕ)) : (session b id env polls).Like (session b' id env polls) := by
  have hrun : ∀ s s' : Session, s.Like s' →
      (polls.foldl (Session.poll b id) s).Like (polls.foldl (Session.poll b' id) s') := by
    induction polls with
    | nil => exact fun s s' h => h
    | cons maxPolls polls ih => exact fun s s' h => ih _ _ (like_poll h b b' id maxPolls)
  exact hrun _ _ ⟨rfl, rfl, rfl, rfl⟩

/-- The whole of what a polling client is promised, of both backends at once. -/
def StreamedAlike (id : TaskId) (env : ℕ → Interim) (polls : List (Option ℕ)) : Prop :=
  (∀ b, Tells (session b id env polls) ∧ Streams b (session b id env polls)) ∧
    (session .mem id env polls).pages = (session .pg id env polls).pages

theorem streams_pg (env : ℕ → Interim) (polls : List (Option ℕ)) :
    Streams .pg (session .pg id env polls) := (held_session .pg id env polls).reported

theorem streams_mem_iff (env : ℕ → Interim) (polls : List (Option ℕ)) :
    Streams .mem (session .mem id env polls) ↔ (session .mem id env polls).covered = 0 := by
  have h := held_session .mem id env polls
  have hwithin : (session .mem id env polls).covered ≤
      (session .mem id env polls).stores.appended.length := h.stands.within
  rw [Streams, h.reported]
  constructor
  · intro he
    by_contra hc
    have hi : 0 < (session .mem id env polls).stores.appended.length := by omega
    have hget := congrArg (fun l => l[0]?) he
    simp only [List.getElem?_map, List.getElem?_take_of_lt (Nat.pos_of_ne_zero hc),
      List.getElem?_eq_getElem hi, Option.map_some] at hget
    have hseq := mem_numbers h.stands.kept (List.getElem?_eq_getElem hi)
    have hfirst := congrArg Prod.fst (Option.some.inj hget)
    change (session .mem id env polls).stores.appended[0].seq .mem - 1 =
      (session .mem id env polls).stores.appended[0].seq .mem at hfirst
    change (session .mem id env polls).stores.appended[0].seq .mem = 0 + 1 at hseq
    omega
  · intro hc
    rw [hc, List.take_zero]
    rfl

/-- With nothing read there is one page that a backend can give. -/
theorem pages_of_none {s : Session} (h : s.Held b id) (hc : s.covered = 0) :
    s.pages = List.replicate s.pages.length ⟨id, [], 0⟩ := by
  apply List.eq_replicate_iff.mpr
  refine ⟨rfl, fun o ho => ?_⟩
  obtain ⟨hid, j, hj, hnext⟩ := h.pages o ho
  have hnone : o.numbered = [] := by
    have hr := h.reported
    rw [hc, List.take_zero, List.map_nil, List.flatMap_eq_nil_iff] at hr
    exact hr o ho
  have hchunks : o.chunks = [] := List.map_eq_nil_iff.mp hnone
  have hj : j = 0 := by omega
  have hzero : o.nextOffset = 0 := by
    rw [hnext, hj]
    cases b with
    | mem => rfl
    | pg => rfl
  cases o
  simp only at hid hchunks hzero
  rw [hid, hchunks, hzero]

/-- The texts come out right of both backends, and the numbers of the database's; the in-memory
numbers are one too small as soon as there is a chunk. -/
theorem streamed_alike_iff (id : TaskId) (env : ℕ → Interim) (polls : List (Option ℕ)) :
    (∀ b, Tells (session b id env polls)) ∧ Streams .pg (session .pg id env polls) ∧
      (StreamedAlike id env polls ↔ (session .pg id env polls).covered = 0) := by
  have hlike := like_session .mem .pg id env polls
  refine ⟨fun b => (held_session b id env polls).tells, streams_pg env polls, ?_, ?_⟩
  · rintro ⟨hall, -⟩
    rw [← hlike.covered]
    exact (streams_mem_iff env polls).mp (hall .mem).2
  · intro hc
    have hmem : (session .mem id env polls).covered = 0 := hlike.covered.trans hc
    refine ⟨fun b => ⟨(held_session b id env polls).tells, ?_⟩, ?_⟩
    · cases b with
      | mem => exact (streams_mem_iff env polls).mpr hmem
      | pg => exact streams_pg env polls
    · rw [pages_of_none (held_session .mem id env polls) hmem,
        pages_of_none (held_session .pg id env polls) hc, hlike.pages]

def runningTask : Task :=
  { id := ⟨1⟩, prompt := "p", createdAt := 0, createdBy := "client", threadId := ⟨1⟩ }

/-- The task runs on, and one chunk is appended before the first page is read. -/
def oneChunk : ℕ → Interim
  | 1 => ⟨[.append ⟨1⟩ "out" 0], .ok (some runningTask), none, 0⟩
  | _ => ⟨[], .ok (some runningTask), none, 0⟩

theorem one_chunk_misnumbered : ¬ StreamedAlike ⟨1⟩ oneChunk [some 1] := by
  rintro ⟨hall, -⟩
  have hstreams := (hall .mem).2
  revert hstreams
  unfold Streams
  decide

end FleetOrchestrator.Output
