import FleetOrchestrator.Health.WriteBacks

/-! A scan that nobody disturbs: whom it takes offline, and whom its pages hide from it. -/

namespace FleetOrchestrator.Health

open Core Tables Store Interleaving

section Definitions

variable (b : Backend) (rank : WorkerId → ℕ) (config : HealthConfig) (w : World)

/-- The worker has a duty to be heard of, and was not within the grace period. -/
structure Overdue (r : WorkerRow) : Prop where
  stored : r ∈ w.workers.rows
  present : r.status = .online ∨ r.status = .degraded ∨ r.status = .draining
  periodic : r.livenessMode = .periodic
  silent : ∃ t, r.lastSeen = some t ∧ config.graceDuration < w.now - t

def departed (r : WorkerRow) : FleetEvent := .workerLeft r.id (config.missed r) w.now

/-- What a scan owes. -/
structure Scanned (w' : World) : Prop where
  gone : ∀ r, Overdue config w r →
    ∃ r', w'.workers.get r.key = some r' ∧ r'.status = .offline
  told : ∃ overdue : List WorkerRow, overdue.Nodup ∧ (∀ r, r ∈ overdue ↔ Overdue config w r) ∧
    w'.events = w.events ++ overdue.map (departed config w)
  kept : ∀ id, (∀ r, Overdue config w r → r.key ≠ id) → w'.workers.get id = w.workers.get id

/-- The workers that the scan looks at. -/
def scanned : List WorkerRow :=
  listWorkers b rank { status := some .online } w ++
    listWorkers b rank { status := some .degraded } w ++
      listWorkers b rank { status := some .draining } w

def OnPages : Prop := ∀ r, Overdue config w r → r ∈ scanned b rank w

/-- No two workers share a name, as SQL sees to. -/
def NamesDiffer : Prop :=
  ∀ i j r r', w.workers.get i = some r → w.workers.get j = some r' → r.name = r'.name → i = j

end Definitions

section Writing

variable {b : Backend} {rank : WorkerId → ℕ} {config : HealthConfig} {w : World} {id : WorkerId}
  {r row : WorkerRow}

theorem name_upserted : (upserted b w row).name = row.name := by
  unfold upserted
  cases w.workers.get row.key with
  | some prev => rfl
  | none => cases b <;> rfl

theorem nameTaken_stored (hn : NamesDiffer w) (hr : w.workers.get r.key = some r)
    (status : WorkerStatus) : nameTaken w (r.withStatus status) = false := by
  simp only [nameTaken, List.any_eq_false, Bool.and_eq_true, decide_eq_true_eq, not_and,
    not_not]
  intro r' hr' hname
  exact (hn _ _ _ _ hr (Keyed.get_of_mem hr') hname.symm).symm

/-- The row of the worker after it was set offline. -/
def offline (b : Backend) (w : World) (r : WorkerRow) : World :=
  { w with workers := w.workers.put (upserted b w (r.withStatus .offline)) }

theorem upsert_offline (hn : b = .pg → NamesDiffer w) (hr : w.workers.get r.key = some r) :
    (Op.upsertWorker (r.withStatus .offline)).effect b rank w = (.ok (), offline b w r) := by
  have hfree : (b = .pg && nameTaken w (r.withStatus .offline) : Bool) = false := by
    cases b with
    | mem => rfl
    | pg => simp [nameTaken_stored (hn rfl) hr]
  simp only [Op.effect, hfree, Bool.false_eq_true, if_false, offline]

theorem get_offline_self : (offline b w r).workers.get r.key =
    some (upserted b w (r.withStatus .offline)) := by
  have hkey := key_upserted b w (r.withStatus .offline)
  have hget := @Keyed.get_put_self _ _ _ _ w.workers (upserted b w (r.withStatus .offline))
  rwa [hkey] at hget

theorem get_offline_ne (h : id ≠ r.key) : (offline b w r).workers.get id = w.workers.get id := by
  apply Keyed.get_put_ne
  rwa [key_upserted]

theorem namesDiffer_offline (hn : NamesDiffer w) (hr : w.workers.get r.key = some r) :
    NamesDiffer (offline b w r) := by
  have hold {id : WorkerId} {x : WorkerRow} (hx : (offline b w r).workers.get id = some x) :
      ∃ y, w.workers.get id = some y ∧ y.name = x.name := by
    by_cases hid : id = r.key
    · subst hid
      rw [get_offline_self] at hx
      cases hx
      exact ⟨r, hr, (@name_upserted b w (r.withStatus .offline)).symm⟩
    · rw [get_offline_ne hid] at hx
      exact ⟨x, hx, rfl⟩
  intro i j x y hx hy hname
  obtain ⟨x', hx', hxn⟩ := hold hx
  obtain ⟨y', hy', hyn⟩ := hold hy
  exact hn i j x' y' hx' hy' (by rw [hxn, hyn, hname])

end Writing

section Marking

variable {b : Backend} {rank : WorkerId → ℕ} {config : HealthConfig} {now : ℤ} {n : ℕ}

/-- What the loop over the workers leaves: everyone expired is offline and has left an event, in the
order of the list, and nobody else is touched. -/
structure Marked (config : HealthConfig) (now : ℤ) (all : List WorkerRow) (w w' : World) : Prop where
  offline : ∀ r ∈ all, r.expired now config.graceDuration = true →
    ∃ r', w'.workers.get r.key = some r' ∧ r'.status = .offline
  kept : ∀ id, (∀ r ∈ all, r.expired now config.graceDuration = true → r.key ≠ id) →
    w'.workers.get id = w.workers.get id
  events : w'.events = w.events ++
    (all.filter fun r => r.expired now config.graceDuration).map (departed config w)

theorem markOffline_marked (all : List WorkerRow) (w : World)
    (hkeys : (all.map WorkerRow.key).Nodup) (hrows : ∀ r ∈ all, w.workers.get r.key = some r)
    (hn : b = .pg → NamesDiffer w) :
    Marked config now all w ((markOffline config now all n).alone (Op.effect b rank) w).2 := by
  induction all generalizing w n with
  | nil => exact ⟨by simp, fun _ _ => rfl, by simp [markOffline, Prog.alone]⟩
  | cons r all ih =>
    obtain ⟨hr, hrows⟩ := List.forall_mem_cons.mp hrows
    obtain ⟨hfresh, hkeys⟩ := List.nodup_cons.mp hkeys
    have hne : ∀ v ∈ all, v.key ≠ r.key := by
      intro v hv he
      exact hfresh (he ▸ List.mem_map_of_mem hv)
    by_cases hexp : r.expired now config.graceDuration = true
    · -- the rest of the list is still stored as it was read
      let w₁ : World := { offline b w r with events := w.events ++ [departed config w r] }
      have hrest := ih (n := n + 1) w₁ hkeys
        (fun v hv => (get_offline_ne (hne v hv)).trans (hrows v hv))
        (fun hb => namesDiffer_offline (hn hb) hr)
      have hrun : (markOffline config now (r :: all) n).alone (Op.effect b rank) w =
          (markOffline config now all (n + 1)).alone (Op.effect b rank) w₁ := by
        simp only [markOffline, hexp, if_true, execute, Prog.perform_bind, Prog.alone,
          upsert_offline hn hr]
        rfl
      rw [hrun]
      refine ⟨?_, ?_, ?_⟩
      · intro v hv hve
        rcases List.mem_cons.mp hv with rfl | hv
        · refine ⟨_, (hrest.kept v.key fun u hu _ => hne u hu).trans get_offline_self, ?_⟩
          exact status_upserted
        · exact hrest.offline v hv hve
      · intro id hid
        rw [hrest.kept id fun v hv => hid v (List.mem_cons_of_mem _ hv)]
        exact get_offline_ne (hid r List.mem_cons_self hexp).symm
      · rw [hrest.events, List.filter_cons_of_pos hexp, List.map_cons]
        exact List.append_assoc _ [departed config w r] _
    · have hrest := ih (n := n) w hkeys hrows hn
      have hrun : (markOffline config now (r :: all) n).alone (Op.effect b rank) w =
          (markOffline config now all n).alone (Op.effect b rank) w := by
        rw [markOffline, if_neg hexp]
      rw [hrun]
      refine ⟨?_, ?_, ?_⟩
      · intro v hv hve
        rcases List.mem_cons.mp hv with rfl | hv
        · exact absurd hve hexp
        · exact hrest.offline v hv hve
      · intro id hid
        exact hrest.kept id fun v hv => hid v (List.mem_cons_of_mem _ hv)
      · rw [hrest.events, List.filter_cons_of_neg hexp]

end Marking

section Pages

variable {b : Backend} {rank : WorkerId → ℕ} {config : HealthConfig} {w w' : World}
  {status : WorkerStatus} {r : WorkerRow}

theorem listWorkers_eq : listWorkers b rank { status := some status } w =
    page 0 100 (newestFirst (fun r => r.registeredAt)
      ((inOrder rank WorkerRow.key w.workers.rows).filter fun r => r.status = status)) := by
  unfold listWorkers
  cases b <;> simp

theorem of_mem_listing (h : r ∈ listWorkers b rank { status := some status } w) :
    r ∈ w.workers.rows ∧ r.status = status := by
  rw [listWorkers_eq] at h
  simpa [mem_inOrder] using mem_newestFirst.mp (mem_of_mem_page h)

theorem mem_listing (hfit : (w.workers.rows.countP fun r => r.status = status) ≤ 100)
    (hr : r ∈ w.workers.rows) (hs : r.status = status) :
    r ∈ listWorkers b rank { status := some status } w := by
  have hlen : (newestFirst (fun r : WorkerRow => r.registeredAt) ((inOrder rank WorkerRow.key
      w.workers.rows).filter fun r => r.status = status)).length ≤ 100 := by
    rw [newestFirst, List.length_insertionSort, ← List.countP_eq_length_filter]
    exact ((List.perm_insertionSort _ w.workers.rows).countP_eq _).trans_le hfit
  rw [listWorkers_eq, page, List.drop_zero, List.take_of_length_le hlen, mem_newestFirst]
  simpa [mem_inOrder, hs] using hr

theorem nodup_listing : (listWorkers b rank { status := some status } w).Nodup := by
  rw [listWorkers_eq, page, List.drop_zero]
  have hrows : w.workers.rows.Nodup := List.Nodup.of_map WorkerRow.key w.workers.nodup
  have hordered : (inOrder rank WorkerRow.key w.workers.rows).Nodup :=
    (List.perm_insertionSort _ _).nodup_iff.mpr hrows
  have hsorted : (newestFirst (fun r : WorkerRow => r.registeredAt) ((inOrder rank WorkerRow.key
      w.workers.rows).filter fun r => r.status = status)).Nodup :=
    (List.perm_insertionSort _ _).nodup_iff.mpr (hordered.filter _)
  exact hsorted.sublist (List.take_sublist _ _)

theorem of_mem_scanned (h : r ∈ scanned b rank w) : r ∈ w.workers.rows ∧
    (r.status = .online ∨ r.status = .degraded ∨ r.status = .draining) := by
  simp only [scanned, List.mem_append] at h
  rcases h with (h | h) | h
  · exact ⟨(of_mem_listing h).1, .inl (of_mem_listing h).2⟩
  · exact ⟨(of_mem_listing h).1, .inr (.inl (of_mem_listing h).2)⟩
  · exact ⟨(of_mem_listing h).1, .inr (.inr (of_mem_listing h).2)⟩

theorem nodup_scanned : (scanned b rank w).Nodup := by
  have hdisjoint {s t : WorkerStatus} (hst : s ≠ t) :
      (listWorkers b rank { status := some s } w).Disjoint
        (listWorkers b rank { status := some t } w) := by
    intro r hs ht
    exact hst ((of_mem_listing hs).2.symm.trans (of_mem_listing ht).2)
  rw [scanned, List.nodup_append', List.nodup_append', List.disjoint_append_left]
  exact ⟨⟨nodup_listing, nodup_listing, hdisjoint nofun⟩, nodup_listing, hdisjoint nofun,
    hdisjoint nofun⟩

theorem overdue_of_scanned (hr : r ∈ scanned b rank w) :
    r.expired w.now config.graceDuration = true ↔ Overdue config w r := by
  obtain ⟨hrow, hpresent⟩ := of_mem_scanned hr
  have hperiodic : r.livenessMode ≠ .onDemand ↔ r.livenessMode = .periodic := by
    cases r.livenessMode <;> simp
  simp only [WorkerRow.expired, Bool.and_eq_true, decide_eq_true_eq, hperiodic,
    Option.any_eq_true]
  constructor
  · rintro ⟨hp, t, ht, hlate⟩
    exact ⟨hrow, hpresent, hp, t, ht, hlate⟩
  · rintro ⟨-, -, hp, t, ht, hlate⟩
    exact ⟨hp, t, ht, hlate⟩

theorem scan_marked (hn : b = .pg → NamesDiffer w) : Marked config w.now (scanned b rank w) w
    ((scanOnce config).alone (Op.effect b rank) w).2 := by
  have hkeys : ((scanned b rank w).map WorkerRow.key).Nodup := by
    refine List.Nodup.map_on (fun r hr v hv hk => ?_) nodup_scanned
    have hgr := Keyed.get_of_mem (of_mem_scanned hr).1
    rw [hk, Keyed.get_of_mem (of_mem_scanned hv).1] at hgr
    exact (Option.some.inj hgr).symm
  exact markOffline_marked _ w hkeys (fun r hr => Keyed.get_of_mem (of_mem_scanned hr).1) hn

theorem scanned_of_onPages (hn : b = .pg → NamesDiffer w) (hp : OnPages b rank config w) :
    Scanned config w ((scanOnce config).alone (Op.effect b rank) w).2 := by
  have hm := @scan_marked b rank config w hn
  have hover (r : WorkerRow) :
      r ∈ (scanned b rank w).filter (fun r => r.expired w.now config.graceDuration) ↔
        Overdue config w r := by
    rw [List.mem_filter]
    constructor
    · exact fun h => (overdue_of_scanned h.1).mp h.2
    · exact fun h => ⟨hp r h, (overdue_of_scanned (hp r h)).mpr h⟩
  refine ⟨fun r hr => ?_, ⟨_, nodup_scanned.filter _, hover, hm.events⟩, fun id hid => ?_⟩
  · exact hm.offline r (hp r hr) ((overdue_of_scanned (hp r hr)).mpr hr)
  · exact hm.kept id fun r hr he => hid r ((overdue_of_scanned hr).mp he)

/-- A worker that is on no page stays as it is. -/
theorem onPages_of_scanned (hn : b = .pg → NamesDiffer w)
    (h : Scanned config w ((scanOnce config).alone (Op.effect b rank) w).2) :
    OnPages b rank config w := by
  have hm := @scan_marked b rank config w hn
  intro r hr
  by_contra hoff
  have hkept := hm.kept r.key fun v hv _ hk => ?_
  · obtain ⟨r', hr', hs⟩ := h.gone r hr
    rw [hkept, Keyed.get_of_mem hr.stored] at hr'
    cases hr'
    rcases hr.present with hp | hp | hp <;> rw [hp] at hs <;> cases hs
  · have hgv := Keyed.get_of_mem (of_mem_scanned hv).1
    rw [hk, Keyed.get_of_mem hr.stored] at hgv
    cases hgv
    exact hoff hv

/-- A scan that nobody disturbs does what it should exactly where its pages show every overdue
worker. -/
theorem scan_complete_iff (b : Backend) (rank : WorkerId → ℕ) (config : HealthConfig) (w : World)
    (hn : b = .pg → NamesDiffer w) :
    Scanned config w ((scanOnce config).alone (Op.effect b rank) w).2 ↔
      OnPages b rank config w :=
  ⟨onPages_of_scanned hn, scanned_of_onPages hn⟩

/-- So they do where no status has more than a page of workers. -/
theorem onPages_of_fit
    (hfit : ∀ status, (w.workers.rows.countP fun r => r.status = status) ≤ 100) :
    OnPages b rank config w := by
  intro r hr
  simp only [scanned, List.mem_append]
  rcases hr.present with hs | hs | hs
  · exact .inl (.inl (mem_listing (hfit _) hr.stored hs))
  · exact .inl (.inr (mem_listing (hfit _) hr.stored hs))
  · exact .inr (mem_listing (hfit _) hr.stored hs)

end Pages

namespace Scan

/-- Workers registered one after the other, and not heard of since. -/
def silent (i : ℕ) : WorkerRow where
  id := ⟨i⟩
  name := "worker-" ++ toString i
  lastSeen := some i
  registeredAt := i
  incarnationStartedAt := i

/-- More of them than a page shows, long after. -/
def crowd : World where
  workers :=
    { rows := (List.range 101).map silent
      nodup := by
        rw [List.map_map]
        apply List.nodup_range.map
        intro i j h
        exact congrArg WorkerId.uuid h }
  now := 1000

theorem overdue_silent : Overdue {} crowd (silent 0) where
  stored := List.mem_map.mpr ⟨0, by simp, rfl⟩
  present := .inl rfl
  periodic := rfl
  silent := ⟨0, rfl, by decide⟩

theorem oldest_overlooked : ¬ ∀ (b : Backend) (rank : WorkerId → ℕ) (config : HealthConfig)
    (w : World), (b = .pg → NamesDiffer w) →
      Scanned config w ((scanOnce config).alone (Op.effect b rank) w).2 := by
  intro h
  have hmem : Backend.mem = .pg → NamesDiffer crowd := by
    intro hb
    cases hb
  have hpages := onPages_of_scanned hmem (h .mem (fun id => id.uuid) {} crowd hmem)
  have hhidden : ∀ r ∈ scanned .mem (fun id => id.uuid) crowd, r.id ≠ ⟨0⟩ := by
    decide +kernel
  exact hhidden (silent 0) (hpages (silent 0) overdue_silent) rfl

theorem silent_scanned :
    let w : World := { workers := ⟨[silent 0], List.nodup_singleton _⟩, now := 1000 }
    Scanned {} w ((scanOnce {}).alone (Op.effect .pg fun id => id.uuid) w).2 := by
  intro w
  refine (scan_complete_iff .pg _ {} w ?_).mpr (onPages_of_fit fun status => ?_)
  · intro _ i j r r' hr hr' _
    rw [← Keyed.get_key hr, ← Keyed.get_key hr',
      List.mem_singleton.mp (Keyed.get_eq_some.mp hr).1,
      List.mem_singleton.mp (Keyed.get_eq_some.mp hr').1]
  · exact List.countP_le_length.trans (by decide)

end Scan

end FleetOrchestrator.Health
