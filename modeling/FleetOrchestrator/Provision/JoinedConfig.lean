import FleetOrchestrator.Provision.WorkerToml

/-! The configuration of a joined worker, as the worker reads it from its file. -/

namespace FleetOrchestrator.Provision

open Api Core Encoding Health Worker.ConfigFile

namespace WorkerConfigTomlParams

/-- The configuration has the values of the join. -/
structure Keeps (p : WorkerConfigTomlParams) (c : WorkerConfig) : Prop where
  name : c.worker.name = p.name
  labels : ∀ k, c.worker.labels.get k = p.labels.get k
  token : c.worker.operationalToken = some (String.ofList p.operationalToken)
  workerId : c.worker.existingWorkerId = some (String.ofList (hyphenated p.workerId))
  heartbeat : c.worker.heartbeatIntervalSecs = p.heartbeatIntervalSecs.toNat
  livenessMode : c.worker.livenessMode = p.livenessMode
  secret : c.grok.secret = String.ofList (grokSecret p.agentEndpoint)
  maxConcurrent : c.grok.maxConcurrentTasks = p.maxConcurrentTasks.toNat

/-- The file holds the values and no other key, and the worker starts with them. -/
def ReadBack (p : WorkerConfigTomlParams) : Prop :=
  Toml.Reads p.renderWorkerConfigToml p.statements ∧
    ∃ c, FromStr p.renderWorkerConfigToml c ∧ p.Keeps c

/-- The values that the worker accepts, and that need no escapes. -/
structure Fitting (p : WorkerConfigTomlParams) : Prop where
  url : Toml.Plain (writtenUrl p.orchestratorUrl).toList
  http : startsHttp (normalizeUrl (writtenUrl p.orchestratorUrl)) = true
  heartbeat : p.heartbeatIntervalSecs.toNat < 300
  labels : Quotable p.labels
  plainSecret : Toml.Plain (grokSecret p.agentEndpoint)
  someSecret : grokSecret p.agentEndpoint ≠ []
  trimmedSecret : trim (String.ofList (grokSecret p.agentEndpoint)) =
    String.ofList (grokSecret p.agentEndpoint)
  maxConcurrent : p.maxConcurrentTasks.toNat ≠ 0

variable (p : WorkerConfigTomlParams)

def workerPlaced : List (Toml.Path × Toml.Value) :=
  [(workerKey "name", .scalar (.string p.name.toList)),
    (workerKey "orchestrator_url", .scalar (.string (writtenUrl p.orchestratorUrl).toList)),
    (workerKey "heartbeat_interval_secs", .scalar (.integer p.heartbeatIntervalSecs.toNat)),
    (workerKey "operational_token", .scalar (.string p.operationalToken)),
    (workerKey "existing_worker_id", .scalar (.string (hyphenated p.workerId)))]

def livenessPlaced : List (Toml.Path × Toml.Value) :=
  match p.livenessMode with
  | .periodic => []
  | .onDemand => [(workerKey "liveness_mode", .scalar (.string "on_demand".toList))]

def labelsPlaced : List (Toml.Path × Toml.Value) :=
  if p.labels.rows.isEmpty then []
  else [(workerKey "labels", .table (p.labels.pairs.map Toml.pairEntry))]

def grokPlaced : List (Toml.Path × Toml.Value) :=
  [(grokKey "bin", .scalar (.string "/usr/local/bin/grok".toList)),
    (grokKey "bind_addr", .scalar (.string "0.0.0.0:2419".toList)),
    (grokKey "secret", .scalar (.string (grokSecret p.agentEndpoint))),
    (grokKey "max_concurrent_tasks", .scalar (.integer p.maxConcurrentTasks.toNat)),
    (grokKey "restart_delay_secs", .scalar (.integer 5))]

section Entries

variable {p} {ss : List Toml.Statement}

theorem placed_liveness : Toml.placed ["worker".toList] (p.livenessEntry ++ ss) =
    p.livenessPlaced ++ Toml.placed ["worker".toList] ss := by
  unfold livenessEntry livenessPlaced
  cases p.livenessMode <;> rfl

theorem placed_labels : Toml.placed ["worker".toList] (p.labelsEntry ++ ss) =
    p.labelsPlaced ++ Toml.placed ["worker".toList] ss := by
  unfold labelsEntry labelsPlaced
  split <;> rfl

theorem placed_grok : Toml.placed ["worker".toList] p.grokStatements = p.grokPlaced := rfl

theorem placed_statements : Toml.placed [] p.statements =
    p.workerPlaced ++ (p.livenessPlaced ++ (p.labelsPlaced ++ p.grokPlaced)) := by
  have htail : Toml.placed ["worker".toList]
      (p.livenessEntry ++ (p.labelsEntry ++ p.grokStatements)) =
      p.livenessPlaced ++ (p.labelsPlaced ++ p.grokPlaced) := by
    rw [placed_liveness, placed_labels, placed_grok]
  unfold statements workerPlaced
  rw [← htail]
  rfl

def knownPaths (liveness labels : List Toml.Path) : List Toml.Path :=
  ["name", "orchestrator_url", "heartbeat_interval_secs", "operational_token",
      "existing_worker_id"].map workerKey ++
    (liveness ++ (labels ++
      ["bin", "bind_addr", "secret", "max_concurrent_tasks", "restart_delay_secs"].map grokKey))

theorem paths_eq : (Toml.placed [] p.statements).map Prod.fst =
    knownPaths (p.livenessPlaced.map Prod.fst) (p.labelsPlaced.map Prod.fst) := by
  rw [placed_statements, List.map_append, List.map_append, List.map_append]
  rfl

theorem liveness_sublist : (p.livenessPlaced.map Prod.fst).Sublist [workerKey "liveness_mode"] := by
  unfold livenessPlaced
  cases p.livenessMode with
  | periodic => exact List.nil_sublist _
  | onDemand => exact List.Sublist.refl _

theorem labels_sublist : (p.labelsPlaced.map Prod.fst).Sublist [workerKey "labels"] := by
  unfold labelsPlaced
  split
  · exact List.nil_sublist _
  · exact List.Sublist.refl _

theorem paths_sublist {l₁ l₂ : List Toml.Path} (h₁ : (p.livenessPlaced.map Prod.fst).Sublist l₁)
    (h₂ : (p.labelsPlaced.map Prod.fst).Sublist l₂) :
    ((Toml.placed [] p.statements).map Prod.fst).Sublist (knownPaths l₁ l₂) := by
  rw [paths_eq]
  exact (List.Sublist.refl _).append (h₁.append (h₂.append (List.Sublist.refl _)))

theorem paths_separate : ((Toml.placed [] p.statements).map Prod.fst).Pairwise Toml.Separate := by
  have hknown : (knownPaths [workerKey "liveness_mode"] [workerKey "labels"]).Pairwise
      Toml.Separate := by decide
  exact hknown.sublist (paths_sublist liveness_sublist labels_sublist)

theorem headers_liveness : Toml.headers (p.livenessEntry ++ ss) = Toml.headers ss := by
  unfold livenessEntry
  cases p.livenessMode <;> rfl

theorem headers_labels : Toml.headers (p.labelsEntry ++ ss) = Toml.headers ss := by
  unfold labelsEntry
  split <;> rfl

theorem headers_statements : Toml.headers p.statements = [["worker".toList], ["grok".toList]] := by
  have htail : Toml.headers (p.livenessEntry ++ (p.labelsEntry ++ p.grokStatements)) =
      [["grok".toList]] := by
    rw [headers_liveness, headers_labels]
    rfl
  unfold statements
  exact congrArg (["worker".toList] :: ·) htail

theorem opened_statements : Toml.opened [] p.statements = [] := by
  have hliveness (ss : List Toml.Statement) : Toml.opened ["worker".toList]
      (p.livenessEntry ++ ss) = Toml.opened ["worker".toList] ss := by
    unfold livenessEntry
    cases p.livenessMode <;> rfl
  have hlabels (ss : List Toml.Statement) : Toml.opened ["worker".toList]
      (p.labelsEntry ++ ss) = Toml.opened ["worker".toList] ss := by
    unfold labelsEntry
    split <;> rfl
  have htail : Toml.opened ["worker".toList]
      (p.livenessEntry ++ (p.labelsEntry ++ p.grokStatements)) = [] := by
    rw [hliveness, hlabels]
    rfl
  unfold statements
  exact htail

theorem separate_of_ne {k k' : List Char} (h : k ≠ k') : Toml.Separate [k] [k'] := by
  constructor
  · intro hp
    exact h (List.cons_prefix_cons.mp hp).1
  · intro hp
    exact h (List.cons_prefix_cons.mp hp).1.symm

theorem consistent_pairs (m : LabelMap) :
    Toml.Value.Consistent (.table (m.pairs.map Toml.pairEntry)) := by
  have hkeys : (m.pairs.map Toml.pairEntry).map Prod.fst = m.sortedKeys.map fun k => [k.toList] := by
    simp only [LabelMap.pairs, List.map_map]
    rfl
  rw [Toml.Value.Consistent, hkeys, List.pairwise_map]
  apply (nodup_sortedKeys m).imp
  intro k k' hne
  exact separate_of_ne fun he => hne (String.toList_injective he)

theorem mem_placed {e : Toml.Path × Toml.Value} (h : e ∈ Toml.placed [] p.statements) :
    (∃ v, e.2 = .scalar v) ∨ e.2 = .table (p.labels.pairs.map Toml.pairEntry) := by
  rw [placed_statements, List.mem_append, List.mem_append, List.mem_append] at h
  rcases h with h | h | h | h
  · left
    simp only [workerPlaced, List.mem_cons, List.not_mem_nil, or_false] at h
    rcases h with rfl | rfl | rfl | rfl | rfl <;> exact ⟨_, rfl⟩
  · left
    unfold livenessPlaced at h
    cases hm : p.livenessMode with
    | periodic =>
      rw [hm] at h
      cases h
    | onDemand =>
      rw [hm] at h
      exact ⟨_, congrArg Prod.snd (List.mem_singleton.mp h)⟩
  · right
    unfold labelsPlaced at h
    split at h
    · cases h
    · exact congrArg Prod.snd (List.mem_singleton.mp h)
  · left
    simp only [grokPlaced, List.mem_cons, List.not_mem_nil, or_false] at h
    rcases h with rfl | rfl | rfl | rfl | rfl <;> exact ⟨_, rfl⟩

theorem no_arrays : p.statements.all (fun s => !s.isArray) = true := by
  have hliveness : p.livenessEntry.all (fun s => !s.isArray) = true := by
    unfold livenessEntry
    cases p.livenessMode <;> rfl
  have hlabels : p.labelsEntry.all (fun s => !s.isArray) = true := by
    unfold labelsEntry
    split <;> rfl
  have hgrok : p.grokStatements.all (fun s => !s.isArray) = true := rfl
  have htail : (p.livenessEntry ++ (p.labelsEntry ++ p.grokStatements)).all
      (fun s => !s.isArray) = true := by
    rw [List.all_append, List.all_append, hliveness, hlabels, hgrok]
    rfl
  unfold statements
  exact htail

theorem consistent_statements : Toml.Consistent p.statements := by
  refine ⟨?_, ?_, paths_separate, ?_, ?_, ?_⟩
  · intro s hs
    simpa using List.all_eq_true.mp no_arrays s hs
  · rw [headers_statements]
    decide
  · have hknown : ∀ q ∈ knownPaths [workerKey "liveness_mode"] [workerKey "labels"], ∀ h ∈ [["worker".toList], ["grok".toList]], ¬q <+: h := by
      decide
    rw [headers_statements]
    intro q hq
    exact hknown q ((paths_sublist liveness_sublist labels_sublist).subset hq)
  · rw [opened_statements]
    nofun
  · intro e he
    rcases mem_placed he with ⟨v, hv⟩ | ht
    · rw [hv]
      exact trivial
    · rw [ht]
      exact consistent_pairs _

theorem item_worker {key : String} {v : Toml.Scalar}
    (h : (workerKey key, .scalar v) ∈ p.workerPlaced) :
    Toml.item p.statements (workerKey key) = some (.scalar v) := by
  apply Toml.item_scalar paths_separate
  rw [placed_statements]
  exact List.mem_append_left _ h

theorem item_grok {key : String} {v : Toml.Scalar}
    (h : (grokKey key, .scalar v) ∈ p.grokPlaced) :
    Toml.item p.statements (grokKey key) = some (.scalar v) := by
  apply Toml.item_scalar paths_separate
  rw [placed_statements]
  exact List.mem_append_right _ (List.mem_append_right _ (List.mem_append_right _ h))

theorem item_unset {q : Toml.Path} {l₁ l₂ : List Toml.Path}
    (h₁ : (p.livenessPlaced.map Prod.fst).Sublist l₁)
    (h₂ : (p.labelsPlaced.map Prod.fst).Sublist l₂)
    (hq : (∀ k ∈ knownPaths l₁ l₂, Toml.Separate q k) ∧
      ∀ h ∈ [["worker".toList], ["grok".toList]], ¬q <+: h) :
    Toml.item p.statements q = none := by
  apply Toml.item_absent
  · intro e he
    exact hq.1 _ ((paths_sublist h₁ h₂).subset (List.mem_map_of_mem he))
  · rw [headers_statements]
    exact hq.2

theorem item_unknown {q : Toml.Path}
    (hq : (∀ k ∈ knownPaths [workerKey "liveness_mode"] [workerKey "labels"],
      Toml.Separate q k) ∧ ∀ h ∈ [["worker".toList], ["grok".toList]], ¬q <+: h) :
    Toml.item p.statements q = none :=
  item_unset liveness_sublist labels_sublist hq

theorem read_liveness : defaulted p.statements liveness (workerKey "liveness_mode") .periodic =
    .ok p.livenessMode := by
  cases hm : p.livenessMode with
  | periodic =>
    have hnone : (p.livenessPlaced.map Prod.fst).Sublist [] := by
      rw [livenessPlaced, hm]
      exact List.Sublist.refl _
    exact defaulted_none _ (item_unset hnone labels_sublist (by decide)) _
  | onDemand =>
    have hitem : Toml.item p.statements (workerKey "liveness_mode") =
        some (.scalar (.string "on_demand".toList)) := by
      apply Toml.item_scalar paths_separate
      rw [placed_statements, livenessPlaced, hm]
      exact List.mem_append_right _ (List.mem_append_left _ (.head _))
    exact defaulted_some hitem (by decide) _

theorem get_foldl {m : LabelMap} {ks : List String} (hn : ks.Nodup) (out : LabelMap) (k : String) :
    ((ks.map fun k => (k, m.value k)).foldl (fun m r => m.put r) out).get k =
      if k ∈ ks then some (k, m.value k) else out.get k := by
  induction ks generalizing out with
  | nil => exact (if_neg List.not_mem_nil).symm
  | cons x ks ih =>
    obtain ⟨hfresh, hn⟩ := List.nodup_cons.mp hn
    rw [List.map_cons, List.foldl_cons, ih hn]
    by_cases hk : k = x
    · subst hk
      rw [if_neg hfresh, if_pos List.mem_cons_self]
      exact Tables.Keyed.get_put_self
    · have hput : (out.put (x, m.value x)).get k = out.get k := Tables.Keyed.get_put_ne hk
      rw [hput]
      simp [hk]

theorem label_entry (q : List Char × List Char) :
    label (workerKey "labels" ++ (Toml.pairEntry q).1, (Toml.pairEntry q).2) =
      some (String.ofList q.1, String.ofList q.2) := rfl

/-- The labels come back as they were. -/
theorem read_labels : ∃ m, labelTable p.statements (workerKey "labels") = .ok m ∧
    ∀ k, m.get k = p.labels.get k := by
  cases hrows : p.labels.rows.isEmpty with
  | true =>
    have hnone : (p.labelsPlaced.map Prod.fst).Sublist [] := by
      rw [labelsPlaced, if_pos hrows]
      exact List.Sublist.refl _
    have hitem := item_unset (q := workerKey "labels") liveness_sublist hnone (by decide)
    refine ⟨.empty, by rw [labelTable, hitem], fun k => ?_⟩
    rw [Tables.Keyed.get_empty, eq_comm, Tables.Keyed.get_eq_none, List.isEmpty_iff.mp hrows]
    nofun
  | false =>
    have hmem : (workerKey "labels", .table (p.labels.pairs.map Toml.pairEntry)) ∈
        Toml.placed [] p.statements := by
      rw [placed_statements, labelsPlaced, hrows]
      exact List.mem_append_right _ (List.mem_append_right _ (List.mem_append_left _ (.head _)))
    have hkeys : ∀ q ∈ p.labels.pairs.map Toml.pairEntry, q.1 ≠ [] := by
      intro q hq
      obtain ⟨r, -, rfl⟩ := List.mem_map.mp hq
      exact List.cons_ne_nil _ _
    have hheaders : ∀ q ∈ Toml.headers p.statements, ¬workerKey "labels" <+: q := by
      rw [headers_statements]
      decide
    have hwithin : ((Toml.leaves p.statements).filter
        ((workerKey "labels").isPrefixOf ·.1)).filterMap label =
        p.labels.sortedKeys.map fun k => (k, p.labels.value k) := by
      rw [Toml.leaves_within paths_separate hmem, List.map_map, List.filterMap_map,
        LabelMap.pairs, List.filterMap_map, ← List.filterMap_eq_map]
      apply List.filterMap_congr
      intro k _
      exact (label_entry _).trans (by rw [String.ofList_toList, String.ofList_toList]; rfl)
    have hall : ((Toml.leaves p.statements).filter
        ((workerKey "labels").isPrefixOf ·.1)).any (fun l => (label l).isNone) = false := by
      rw [Toml.leaves_within paths_separate hmem, List.any_eq_false]
      intro l hl
      obtain ⟨e, he, rfl⟩ := List.mem_map.mp hl
      obtain ⟨q, -, rfl⟩ := List.mem_map.mp he
      rw [label_entry]
      exact Bool.false_ne_true
    refine ⟨_, by
      rw [labelTable, Toml.item_table paths_separate hmem hkeys]
      dsimp only
      rw [holdsTable_inline paths_separate hmem hheaders, hall, hwithin]
      rfl, fun k => ?_⟩
    rw [get_foldl (nodup_sortedKeys _), Tables.Keyed.get_empty, get_sortedKeys]

/-- The sections as they are read, before they are normalised. -/
def workerFields (p : WorkerConfigTomlParams) (m : LabelMap) : WorkerSection where
  name := p.name
  orchestratorUrl := writtenUrl p.orchestratorUrl
  heartbeatIntervalSecs := p.heartbeatIntervalSecs.toNat
  agentFenceAfterSecs := 300
  watchdogStallAfterSecs := 600
  operationalToken := some (String.ofList p.operationalToken)
  labels := m
  existingWorkerId := some (String.ofList (hyphenated p.workerId))
  livenessMode := p.livenessMode

def grokFields (p : WorkerConfigTomlParams) : GrokSection where
  bin := "/usr/local/bin/grok"
  bindAddr := "0.0.0.0:2419"
  secret := String.ofList (grokSecret p.agentEndpoint)
  maxConcurrentTasks := p.maxConcurrentTasks.toNat
  restartDelaySecs := 5
  cwd := none
  agentPortRange := "2420-2519"
  agentWorkspaceRoot := none
  maxAgentProcesses := 4

theorem text_of (s : String) : text (.scalar (.string s.toList)) = some s := by
  rw [text_string, String.ofList_toList]

theorem read_worker {m : LabelMap} (hm : labelTable p.statements (workerKey "labels") = .ok m) :
    readWorker p.statements = .ok (p.workerFields m) := by
  have hname := required_some (item_worker (p := p) (.head _)) (text_of p.name)
  have hurl := required_some (item_worker (p := p) (.tail _ (.head _)))
    (text_of (writtenUrl p.orchestratorUrl))
  have hbeat := defaulted_some (item_worker (p := p) (.tail _ (.tail _ (.head _))))
    (u32_integer p.heartbeatIntervalSecs) 15
  have hfence := defaulted_none u32
    (item_unknown (p := p) (q := workerKey "agent_fence_after_secs") (by decide)) 300
  have hwatch := defaulted_none u32
    (item_unknown (p := p) (q := workerKey "watchdog_stall_after_secs") (by decide)) 600
  have htoken := optional_some (item_worker (p := p) (.tail _ (.tail _ (.tail _ (.head _)))))
    (text_string p.operationalToken)
  have hid := optional_some
    (item_worker (p := p) (.tail _ (.tail _ (.tail _ (.tail _ (.head _))))))
    (text_string (hyphenated p.workerId))
  unfold readWorker
  rw [hname, hurl, hbeat, hfence, hwatch, htoken, hm, hid, read_liveness]
  rfl

theorem read_grok : readGrok p.statements = .ok p.grokFields := by
  have hbin := required_some (item_grok (p := p) (.head _)) (text_of "/usr/local/bin/grok")
  have hbind := defaulted_some (item_grok (p := p) (.tail _ (.head _))) (text_of "0.0.0.0:2419")
    "127.0.0.1:2419"
  have hsecret := required_some (item_grok (p := p) (.tail _ (.tail _ (.head _))))
    (text_string (grokSecret p.agentEndpoint))
  have hmax := defaulted_some (item_grok (p := p) (.tail _ (.tail _ (.tail _ (.head _)))))
    (u32_integer p.maxConcurrentTasks) 4
  have hdelay := defaulted_some
    (item_grok (p := p) (.tail _ (.tail _ (.tail _ (.tail _ (.head _)))))) (u32_integer 5) 5
  have hcwd := optional_none text
    (item_unknown (p := p) (q := grokKey "cwd") (by decide))
  have hrange := defaulted_none text
    (item_unknown (p := p) (q := grokKey "agent_port_range") (by decide)) "2420-2519"
  have hroot := optional_none text
    (item_unknown (p := p) (q := grokKey "agent_workspace_root") (by decide))
  have hprocesses := defaulted_none u32
    (item_unknown (p := p) (q := grokKey "max_agent_processes") (by decide)) 4
  unfold readGrok
  rw [hbin, hbind, hsecret, hmax, hdelay, hcwd, hrange, hroot, hprocesses]
  rfl

theorem fromStatements_iff {m : LabelMap} {c : WorkerConfig}
    (hm : labelTable p.statements (workerKey "labels") = .ok m) :
    fromStatements p.statements = .ok c ↔
      c = WorkerConfig.normalize ⟨p.workerFields m, p.grokFields⟩ ∧ c.validate = .ok () := by
  have hlegacy : (Toml.item p.statements (workerKey "bootstrap_token")).isSome = false := by
    rw [item_unknown (p := p) (q := workerKey "bootstrap_token") (by decide)]
    rfl
  rw [fromStatements, if_neg (not_not.mpr consistent_statements), hlegacy,
    if_neg Bool.false_ne_true, read_worker hm, read_grok]
  dsimp only
  cases hv : (WorkerConfig.normalize ⟨p.workerFields m, p.grokFields⟩).validate with
  | error e =>
    refine iff_of_false nofun ?_
    rintro ⟨rfl, h⟩
    rw [hv] at h
    cases h
  | ok u =>
    constructor
    · intro h
      cases h
      exact ⟨rfl, hv⟩
    · rintro ⟨rfl, -⟩
      rfl

theorem trim_of {s : String} (h : ∀ c ∈ s.toList, isWhiteSpace c = false) : trim s = s := by
  have hfront : s.toList.dropWhile isWhiteSpace = s.toList := by
    rw [List.dropWhile_eq_self_iff]
    intro hl hc
    rw [h _ (List.getElem_mem hl)] at hc
    cases hc
  have hback : s.toList.rdropWhile isWhiteSpace = s.toList := by
    rw [List.rdropWhile_eq_self_iff]
    intro hl hc
    rw [h _ (List.getLast_mem hl)] at hc
    cases hc
  rw [trim, hfront, hback, String.ofList_toList]

theorem isWhiteSpace_of_range {c : Char} (h : 0x20 < c.toNat ∧ c.toNat < 0x7F) :
    isWhiteSpace c = false := by
  rw [← Bool.not_eq_true]
  simp only [isWhiteSpace, Bool.or_eq_true, Bool.and_eq_true, decide_eq_true_eq,
    List.contains_iff_mem, List.mem_cons, List.not_mem_nil, or_false]
  omega

theorem range_of_name {name : String} (hv : validWorkerName name = true) {c : Char}
    (hc : c ∈ name.toList) : 0x20 < c.toNat ∧ c.toNat < 0x7F ∧ Toml.isPlain c = true := by
  have hall := List.all_eq_true.mp hv c hc
  by_cases hdot : c = '.'
  · subst hdot
    decide
  · have hbare : Toml.isBare c = true := by
      simpa [hdot, Toml.isBare] using hall
    have hrange := Toml.range_of_isBare hbare
    exact ⟨hrange.1, hrange.2, Toml.isPlain_of_isBare hbare⟩

theorem trim_name {name : String} (hv : validWorkerName name = true) : trim name = name := by
  apply trim_of
  intro c hc
  have hrange := range_of_name hv hc
  exact isWhiteSpace_of_range ⟨hrange.1, hrange.2.1⟩

/-- What the worker asks of the values that it reads. -/
theorem validate_iff {m : LabelMap} (hne : p.name ≠ "") (hv : validWorkerName p.name = true) :
    (WorkerConfig.normalize ⟨p.workerFields m, p.grokFields⟩).validate = .ok () ↔
      startsHttp (normalizeUrl (writtenUrl p.orchestratorUrl)) = true ∧
        p.heartbeatIntervalSecs.toNat < 300 ∧
          trim (String.ofList (grokSecret p.agentEndpoint)) ≠ "" ∧
            p.maxConcurrentTasks.toNat ≠ 0 := by
  have hname : (WorkerConfig.normalize ⟨p.workerFields m, p.grokFields⟩).worker.name = p.name :=
    trim_name hv
  have hbin : trim "/usr/local/bin/grok" ≠ "" := by decide
  rw [config_valid, settings_valid, grok_valid, hname]
  simp only [WorkerConfig.normalize, workerFields, grokFields, WorkerSection.settings]
  constructor
  · rintro ⟨-, -, hurl, ⟨hbeat, -⟩, -, hsecret, hmax, -⟩
    exact ⟨hurl, hbeat, hsecret, hmax⟩
  · rintro ⟨hurl, hbeat, hsecret, hmax⟩
    exact ⟨hne, hv, hurl, ⟨hbeat, .inr (by omega)⟩, hbin, hsecret, hmax, by omega⟩

theorem readBack_iff (hne : p.name ≠ "") (hv : validWorkerName p.name = true) (hi : Issued p) :
    p.ReadBack ↔ p.Fitting := by
  obtain ⟨m, hm, hget⟩ := read_labels (p := p)
  have hplain : Toml.Plain p.name.toList := fun c hc => (range_of_name hv hc).2.2
  have hreads := reads_statements hplain hi
  constructor
  · rintro ⟨hread, c, ⟨ss, hss, hc⟩, hkeeps⟩
    obtain rfl := hss.unique hread
    obtain ⟨hurl, hlabels, hsecret⟩ := hreads.mp hread
    obtain ⟨rfl, hvalid⟩ := (fromStatements_iff hm).mp hc
    obtain ⟨hhttp, hbeat, hsome, hmax⟩ := (validate_iff hne hv).mp hvalid
    have htrim : trim (String.ofList (grokSecret p.agentEndpoint)) =
        String.ofList (grokSecret p.agentEndpoint) := hkeeps.secret
    refine ⟨hurl, hhttp, hbeat, hlabels, hsecret, ?_, htrim, hmax⟩
    intro hnil
    rw [hnil] at htrim hsome
    exact hsome htrim
  · intro h
    have hread := hreads.mpr ⟨h.url, h.labels, h.plainSecret⟩
    have hsome : trim (String.ofList (grokSecret p.agentEndpoint)) ≠ "" := by
      rw [h.trimmedSecret]
      intro he
      apply h.someSecret
      rw [← String.toList_ofList (l := grokSecret p.agentEndpoint), he]
      rfl
    have hvalid := (validate_iff (m := m) hne hv).mpr
      ⟨h.http, h.heartbeat, hsome, h.maxConcurrent⟩
    refine ⟨hread, _, ⟨_, hread, (fromStatements_iff hm).mpr ⟨rfl, hvalid⟩⟩, ?_⟩
    exact ⟨trim_name hv, hget, rfl, rfl, rfl, rfl, h.trimmedSecret, rfl⟩

end Entries

end WorkerConfigTomlParams

section Joining

open WorkerConfigTomlParams

theorem all_getD {l : List Char} {f : Char → Bool} (h : l.all f = true) {d : Char}
    (hd : f d = true) (n : ℕ) : f (l.getD n d) = true := by
  rw [List.getD_eq_getElem?_getD]
  cases hn : l[n]? with
  | none => exact hd
  | some c => exact List.all_eq_true.mp h c (List.mem_of_getElem? hn)

theorem bare_sextet (n shift : ℕ) : Toml.isBare (sextet n shift) = true :=
  all_getD (by decide) rfl _

theorem bare_base64url (bytes : List UInt8) : ∀ c ∈ base64url bytes, Toml.isBare c = true := by
  fun_induction base64url bytes with
  | case1 a b c rest n ih =>
    simp only [List.mem_cons, forall_eq_or_imp, bare_sextet, true_and]
    exact ih
  | case2 a n => simp [bare_sextet]
  | case3 a b n => simp [bare_sextet]
  | case4 => nofun

theorem bare_hyphenated (id : WorkerId) : Toml.BareKey (hyphenated id) := by
  have hdigit (n : ℕ) : Toml.isBare (hexadecimal n) = true := all_getD (by decide) rfl _
  constructor
  · exact List.cons_ne_nil _ _
  · intro c hc
    obtain ⟨i, -, hc⟩ := List.mem_flatMap.mp hc
    dsimp only at hc
    split at hc
    · simp only [List.mem_cons, List.not_mem_nil, or_false] at hc
      rcases hc with rfl | rfl
      · rfl
      · exact hdigit _
    · rw [List.mem_singleton.mp hc]
      exact hdigit _

theorem issued_params (req : JoinRequest) (name : String) (state : JoinState) :
    Issued (req.params name state) := by
  refine ⟨⟨?_, ?_⟩, bare_hyphenated _⟩
  · exact List.append_ne_nil_of_left_ne_nil (by decide) _
  · intro c hc
    rcases List.mem_append.mp hc with hc | hc
    · have hall : "fwo_".toList.all Toml.isBare = true := by decide
      exact List.all_eq_true.mp hall c hc
    · exact bare_base64url _ c hc

theorem name_of_check {req : JoinRequest} {name : String} (h : req.check = .ok name) :
    name ≠ "" ∧ validWorkerName name = true := by
  unfold JoinRequest.check at h
  split at h
  · cases h
  split at h
  · cases h
  next hne =>
    split at h
    · cases h
    next hv =>
      split at h
      · cases h
      · cases h
        exact ⟨hne, by simpa using hv⟩

end Joining

def joinWith (labels : LabelMap) : JoinRequest where
  token := "fleet_1"
  name := "w-1"
  agentEndpoint := "ws://w:2419/ws?server-key=k1"
  labels := labels

def joinState : JoinState where
  publicBaseUrl := some "https://fleet.example"
  randomBytes := List.replicate 32 0
  workerId := ⟨1⟩

end FleetOrchestrator.Provision
