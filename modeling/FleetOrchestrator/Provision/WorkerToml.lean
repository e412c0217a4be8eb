import FleetOrchestrator.Encoding.TomlQuoting
import FleetOrchestrator.Provision.Sections
import FleetOrchestrator.Worker.ConfigFile

/-! The configuration file that a worker is given when it joins. -/

namespace FleetOrchestrator.Provision

open Api Core Encoding Health

structure JoinRequest where
  token : String
  name : String
  agentEndpoint : String
  labels : LabelMap := .empty
  maxConcurrentTasks : UInt32 := 4
  livenessMode : WorkerLivenessMode := .periodic

/-- What the handler asks of a request, and the name that it goes on with. -/
def JoinRequest.check (req : JoinRequest) : Except ApiError String :=
  if trim req.token = "" then .error (.badRequest "token must not be empty")
  else if trim req.name = "" then .error (.badRequest "name must not be empty")
  else if !validWorkerName (trim req.name) then
    .error (.badRequest "name must be alphanumeric, '-', '_', or '.' only")
  else if trim req.agentEndpoint = "" then
    .error (.badRequest "agent_endpoint must not be empty")
  else .ok (trim req.name)

def alphabet : List Char :=
  "ABCDEFGHIJKLMNOPQRSTUVWXYZabcdefghijklmnopqrstuvwxyz0123456789-_".toList

def sextet (n shift : ℕ) : Char := alphabet.getD (n / 2 ^ shift % 64) 'A'

def base64url : List UInt8 → List Char
  | a :: b :: c :: rest =>
    let n := a.toNat * 2 ^ 16 + b.toNat * 2 ^ 8 + c.toNat
    sextet n 18 :: sextet n 12 :: sextet n 6 :: sextet n 0 :: base64url rest
  | [a] =>
    let n := a.toNat * 2 ^ 16
    [sextet n 18, sextet n 12]
  | [a, b] =>
    let n := a.toNat * 2 ^ 16 + b.toNat * 2 ^ 8
    [sextet n 18, sextet n 12, sextet n 6]
  | [] => []

def hexadecimal (n : ℕ) : Char := "0123456789abcdef".toList.getD (n % 16) '0'

/-- An id as it is printed. -/
def hyphenated (id : WorkerId) : List Char :=
  (List.range 32).flatMap fun i =>
    let digit := hexadecimal (id.uuid / 16 ^ (31 - i))
    if [8, 12, 16, 20].contains i then ['-', digit] else [digit]

structure WorkerConfigTomlParams where
  name : String
  agentEndpoint : String
  labels : LabelMap
  operationalToken : List Char
  workerId : WorkerId
  heartbeatIntervalSecs : UInt32
  maxConcurrentTasks : UInt32
  livenessMode : WorkerLivenessMode
  orchestratorUrl : Option String

/-- What the server brings to a join: its settings, and what it draws at random. -/
structure JoinState where
  heartbeatIntervalSecs : UInt32 := 15
  publicBaseUrl : Option String := none
  randomBytes : List UInt8
  workerId : WorkerId

def JoinRequest.params (req : JoinRequest) (name : String) (state : JoinState) :
    WorkerConfigTomlParams where
  name := name
  agentEndpoint := req.agentEndpoint
  labels := req.labels
  operationalToken := "fwo_".toList ++ base64url state.randomBytes
  workerId := state.workerId
  heartbeatIntervalSecs := state.heartbeatIntervalSecs
  maxConcurrentTasks := req.maxConcurrentTasks
  livenessMode := req.livenessMode
  orchestratorUrl := state.publicBaseUrl

/-- The secret in an endpoint. -/
def grokSecret (agentEndpoint : String) : List Char :=
  match splitFirst "server-key=".toList agentEndpoint.toList with
  | some (_, rest) => rest.takeWhile fun c => c ≠ '&' ∧ c ≠ '#'
  | none => "<replace-with-grok-secret>".toList

def writtenUrl : Option String → String
  | some url => if trim url = "" then "<set-to-your-orchestrator-url>" else url
  | none => "<set-to-your-orchestrator-url>"

def LabelMap.pairs (m : LabelMap) : List (List Char × List Char) :=
  m.sortedKeys.map fun k => (k.toList, (m.value k).toList)

def livenessComment : String :=
  " Task dispatch는 dispatch 직전 ACP probe로 확인한다(#70 게이트 5). " ++
    "Agent 배치는 아직 이 모드를 제외한다(#61)"

namespace WorkerConfigTomlParams

variable (p : WorkerConfigTomlParams)

def heading : List Char :=
  "# worker.toml — generated by fleet orchestrator (Phase 8.3 join)\n\n".toList

def livenessLine : List Char :=
  match p.livenessMode with
  | .periodic => []
  | .onDemand =>
    sectionLine "liveness_mode"
      (Toml.quoted "on_demand".toList ++ ' ' :: '#' :: livenessComment.toList)

def labelsLine : List Char :=
  if p.labels.rows.isEmpty then [] else sectionLine "labels" (Toml.inlineTable p.labels.pairs)

def grokSection : List Char :=
  "\n[grok]\n".toList ++
    (sectionLine "bin" (Toml.quoted "/usr/local/bin/grok".toList) ++
      (sectionLine "bind_addr" (Toml.quoted "0.0.0.0:2419".toList) ++
        (sectionLine "secret" (Toml.quoted (grokSecret p.agentEndpoint)) ++
          (sectionLine "max_concurrent_tasks" (Nat.toDigits 10 p.maxConcurrentTasks.toNat) ++
            sectionLine "restart_delay_secs" (Nat.toDigits 10 5)))))

def renderWorkerConfigToml : List Char :=
  heading ++
    ("[worker]\n".toList ++
      (sectionLine "name" (Toml.quoted p.name.toList) ++
        (sectionLine "orchestrator_url" (Toml.quoted (writtenUrl p.orchestratorUrl).toList) ++
          (sectionLine "heartbeat_interval_secs" (Nat.toDigits 10 p.heartbeatIntervalSecs.toNat) ++
            (sectionLine "operational_token" (Toml.quoted p.operationalToken) ++
              (sectionLine "existing_worker_id" (Toml.quoted (hyphenated p.workerId)) ++
                (p.livenessLine ++ (p.labelsLine ++ p.grokSection))))))))

def stringEntry (key : String) (value : List Char) : Toml.Statement :=
  .entry [key.toList] (.scalar (.string value))

def numberEntry (key : String) (n : ℕ) : Toml.Statement :=
  .entry [key.toList] (.scalar (.integer n))

def livenessEntry : List Toml.Statement :=
  match p.livenessMode with
  | .periodic => []
  | .onDemand => [stringEntry "liveness_mode" "on_demand".toList]

def labelsEntry : List Toml.Statement :=
  if p.labels.rows.isEmpty then []
  else [.entry ["labels".toList] (.table (p.labels.pairs.map Toml.pairEntry))]

def grokStatements : List Toml.Statement :=
  [.header ["grok".toList], stringEntry "bin" "/usr/local/bin/grok".toList,
    stringEntry "bind_addr" "0.0.0.0:2419".toList,
    stringEntry "secret" (grokSecret p.agentEndpoint),
    numberEntry "max_concurrent_tasks" p.maxConcurrentTasks.toNat,
    numberEntry "restart_delay_secs" 5]

/-- What the file is to say. -/
def statements : List Toml.Statement :=
  .header ["worker".toList] :: stringEntry "name" p.name.toList ::
    stringEntry "orchestrator_url" (writtenUrl p.orchestratorUrl).toList ::
      numberEntry "heartbeat_interval_secs" p.heartbeatIntervalSecs.toNat ::
        stringEntry "operational_token" p.operationalToken ::
          stringEntry "existing_worker_id" (hyphenated p.workerId) ::
            (p.livenessEntry ++ (p.labelsEntry ++ p.grokStatements))

section Reading

variable {p} {key : String} {value r : List Char} {ss : List Toml.Statement}

theorem reads_string (hk : key.toList ≠ [] ∧ key.toList.all Toml.isBare = true)
    (hv : Toml.Plain value) :
    Toml.Reads (sectionLine key (Toml.quoted value) ++ r) (stringEntry key value :: ss) ↔
      Toml.Reads r ss := by
  rw [sectionLine_append]
  exact Toml.reads_plain (bareKey_fixed hk) hv

theorem reads_int (hk : key.toList ≠ [] ∧ key.toList.all Toml.isBare = true) (n : ℕ) :
    Toml.Reads (sectionLine key (Nat.toDigits 10 n) ++ r) (numberEntry key n :: ss) ↔
      Toml.Reads r ss := by
  rw [sectionLine_append]
  exact Toml.reads_number (bareKey_fixed hk) n

theorem heavy_string (key : String) (value r : List Char) :
    Toml.heavy (sectionLine key (Toml.quoted value) ++ r) =
      (stringEntry key value).size + Toml.heavy r := by
  have hq := Toml.heavy_quoted value []
  rw [List.append_nil] at hq
  rw [sectionLine_append, Toml.heavy_setting, hq]
  simp only [stringEntry, Toml.Statement.size, Toml.Value.size, Toml.Scalar.size, Toml.pathSize,
    List.map_cons, List.map_nil, List.sum_cons, List.sum_nil, List.length_cons, List.length_nil]
  have hnil : Toml.heavy [] = 0 := rfl
  omega

theorem heavy_int (key : String) (n : ℕ) (r : List Char) :
    Toml.heavy (sectionLine key (Nat.toDigits 10 n) ++ r) =
      (numberEntry key n).size + Toml.heavy r := by
  rw [sectionLine_append, Toml.heavy_setting, Toml.heavy_toDigits]
  simp only [numberEntry, Toml.Statement.size, Toml.Value.size, Toml.Scalar.size, Toml.pathSize,
    List.map_cons, List.map_nil, List.sum_cons, List.sum_nil, List.length_cons, List.length_nil]
  omega

theorem grokHeader_append (r : List Char) :
    "\n[grok]\n".toList ++ r = '\n' :: '[' :: ("grok".toList ++ ']' :: '\n' :: r) := by
  have htext : "\n[grok]\n".toList = '\n' :: '[' :: ("grok".toList ++ [']', '\n']) := by
    decide
  rw [htext]
  simp only [List.cons_append, List.append_assoc, List.nil_append]

theorem heavy_grokHeader (r : List Char) :
    Toml.heavy ("\n[grok]\n".toList ++ r) =
      (Toml.Statement.header ["grok".toList]).size + Toml.heavy r := by
  rw [grokHeader_append, Toml.heavy_light (by decide), Toml.heavy_cons (by decide),
    Toml.heavy_append, Toml.heavy_cons (by decide), Toml.heavy_light (by decide)]
  simp only [Toml.Statement.size, Toml.pathSize, List.map_cons, List.map_nil, List.sum_cons,
    List.sum_nil, List.length_cons, List.length_nil]
  omega

theorem size_cons (s : Toml.Statement) (ss : List Toml.Statement) :
    Toml.documentSize (s :: ss) = s.size + Toml.documentSize ss := rfl

/-- What stands behind the secret. -/
theorem heavy_limits (n m : ℕ) :
    Toml.heavy (sectionLine "max_concurrent_tasks" (Nat.toDigits 10 n) ++
        sectionLine "restart_delay_secs" (Nat.toDigits 10 m)) =
      Toml.documentSize [numberEntry "max_concurrent_tasks" n, numberEntry "restart_delay_secs" m] := by
  have hlast := heavy_int "restart_delay_secs" m []
  rw [List.append_nil] at hlast
  rw [heavy_int, hlast, size_cons, size_cons]
  rfl

theorem heavy_grokSection : Toml.heavy p.grokSection = Toml.documentSize p.grokStatements := by
  unfold grokSection grokStatements
  rw [heavy_grokHeader, heavy_string, heavy_string, heavy_string, heavy_limits]
  simp only [size_cons]

theorem reads_limits (n m : ℕ) :
    Toml.Reads (sectionLine "max_concurrent_tasks" (Nat.toDigits 10 n) ++
        sectionLine "restart_delay_secs" (Nat.toDigits 10 m))
      [numberEntry "max_concurrent_tasks" n, numberEntry "restart_delay_secs" m] := by
  rw [reads_int (by decide), ← List.append_nil (sectionLine _ _), reads_int (by decide)]
  exact .nil

theorem plain_fixed {s : String} (h : s.toList.all Toml.isPlain = true) : Toml.Plain s.toList :=
  List.all_eq_true.mp h

theorem reads_grokSection : Toml.Reads p.grokSection p.grokStatements ↔
    Toml.Plain (grokSecret p.agentEndpoint) := by
  unfold grokSection grokStatements
  rw [grokHeader_append, Toml.reads_blank, Toml.reads_header (bareKey_fixed (by decide)),
    reads_string (by decide) (plain_fixed (by decide)),
    reads_string (by decide) (plain_fixed (by decide)), sectionLine_append]
  exact (Toml.reads_quoted_tight (bareKey_fixed (by decide)) (heavy_limits _ _).le).trans
    (and_iff_left (reads_limits _ _))

theorem exists_pairs (h : p.labels.rows.isEmpty = false) : ∃ q qs, p.labels.pairs = q :: qs := by
  apply List.exists_cons_of_ne_nil
  rw [LabelMap.pairs, ne_eq, List.map_eq_nil_iff, sortedKeys_eq_nil]
  rintro hnil
  rw [hnil] at h
  cases h

theorem mem_pairs {q : List Char × List Char} {m : LabelMap} :
    q ∈ m.pairs ↔ ∃ r ∈ m.rows, (r.1.toList, r.2.toList) = q := by
  rw [LabelMap.pairs, List.mem_map]
  constructor
  · rintro ⟨k, hk, rfl⟩
    obtain ⟨r, hr, rfl⟩ := mem_sortedKeys.mp hk
    exact ⟨r, hr, by rw [value_of_mem hr]⟩
  · rintro ⟨r, hr, rfl⟩
    exact ⟨r.1, mem_sortedKeys.mpr ⟨r, hr, rfl⟩, by rw [value_of_mem hr]⟩

/-- The labels that a table can hold as they are. -/
def Quotable (m : LabelMap) : Prop :=
  ∀ r ∈ m.rows, Toml.BareKey r.1.toList ∧ Toml.Plain r.2.toList

theorem quotable_iff {m : LabelMap} :
    (∀ q ∈ m.pairs, Toml.BareKey q.1 ∧ Toml.Plain q.2) ↔ Quotable m := by
  constructor
  · intro h r hr
    exact h _ (mem_pairs.mpr ⟨r, hr, rfl⟩)
  · intro h q hq
    obtain ⟨r, hr, rfl⟩ := mem_pairs.mp hq
    exact h r hr

theorem heavy_labels : Toml.heavy (p.labelsLine ++ p.grokSection) =
    Toml.documentSize (p.labelsEntry ++ p.grokStatements) := by
  unfold labelsLine labelsEntry
  split
  · exact heavy_grokSection
  next hrows =>
    obtain ⟨q, qs, hq⟩ := exists_pairs (Bool.eq_false_of_not_eq_true hrows)
    have hsize := Toml.heavy_behindPair p.grokSection qs
    rw [hq, sectionLine_append, Toml.setting, Toml.heavy_append, Toml.heavy_light (by decide),
      Toml.heavy_cons (by decide), Toml.heavy_light (by decide), Toml.inlineTable_append,
      Toml.heavy_cons (by decide), Toml.heavy_light (by decide), Toml.heavy_pairText, hsize,
      heavy_grokSection, List.cons_append, List.nil_append, size_cons, List.map_cons,
      Toml.Statement.size, Toml.Value.size, List.map_cons, List.sum_cons,
      Toml.pairSize_pairEntry]
    · simp only [Toml.pathSize, List.map_cons, List.map_nil, List.sum_cons, List.sum_nil,
        List.length_cons, List.length_nil]
      omega
    · exact List.cons_ne_nil _ _

theorem reads_labels :
    Toml.Reads (p.labelsLine ++ p.grokSection) (p.labelsEntry ++ p.grokStatements) ↔
      Quotable p.labels ∧ Toml.Plain (grokSecret p.agentEndpoint) := by
  unfold labelsLine labelsEntry
  split
  next hrows =>
    have hall : Quotable p.labels := by
      rw [List.isEmpty_iff] at hrows
      intro r hr
      rw [hrows] at hr
      cases hr
    exact reads_grokSection.trans (and_iff_right hall).symm
  next hrows =>
    obtain ⟨q, qs, hq⟩ := exists_pairs (Bool.eq_false_of_not_eq_true hrows)
    rw [← quotable_iff, hq, sectionLine_append, ← reads_grokSection]
    exact Toml.reads_table (bareKey_fixed (by decide)) heavy_grokSection.le

theorem heading_append (r : List Char) : heading ++ ("[worker]\n".toList ++ r) =
    '#' :: (" worker.toml — generated by fleet orchestrator (Phase 8.3 join)".toList ++
      '\n' :: '\n' :: '[' :: ("worker".toList ++ ']' :: '\n' :: r)) := by
  have htext : heading ++ "[worker]\n".toList =
      '#' :: (" worker.toml — generated by fleet orchestrator (Phase 8.3 join)".toList ++
        '\n' :: '\n' :: '[' :: ("worker".toList ++ [']', '\n'])) := by decide
  rw [← List.append_assoc, htext]
  simp only [List.cons_append, List.append_assoc, List.nil_append]

theorem reads_heading :
    Toml.Reads (heading ++ ("[worker]\n".toList ++ r)) (.header ["worker".toList] :: ss) ↔
      Toml.Reads r ss := by
  have hcomment : " worker.toml — generated by fleet orchestrator (Phase 8.3 join)".toList.all
      (fun c => !Toml.isControl c) = true := by decide
  rw [heading_append, Toml.reads_comment, Toml.reads_blank,
    Toml.reads_header (bareKey_fixed (by decide))]
  intro c hc
  have hall := List.all_eq_true.mp hcomment c hc
  simpa using hall

theorem reads_liveness :
    Toml.Reads (p.livenessLine ++ r) (p.livenessEntry ++ ss) ↔ Toml.Reads r ss := by
  unfold livenessLine livenessEntry
  split
  · exact Iff.rfl
  · rw [sectionLine_append]
    have hcomment : livenessComment.toList.all (fun c => !Toml.isControl c) = true := by
      decide +kernel
    apply Toml.reads_commented (bareKey_fixed (by decide)) (plain_fixed (by decide))
    intro c hc
    have hall := List.all_eq_true.mp hcomment c hc
    simpa using hall

theorem behind_liveness {z u : List Char}
    (h : p.livenessLine ++ r = z ++ '"' :: '"' :: '"' :: u) :
    ∃ z', r = z' ++ '"' :: '"' :: '"' :: u := by
  unfold livenessLine at h
  split at h
  · exact ⟨z, h⟩
  · rw [sectionLine_append] at h
    have hcomment : livenessComment.toList.all (· ≠ '"') = true := by decide +kernel
    have hquote : '"' ∉ ' ' :: '#' :: livenessComment.toList := by
      have hno : '"' ∉ livenessComment.toList := fun hq => by
        simpa using List.all_eq_true.mp hcomment _ hq
      simp [hno]
    exact Toml.behind_string (bareKey_fixed (by decide)) (plain_fixed (by decide)) (by decide)
      hquote h

/-- The values that the server makes up itself. -/
structure Issued (p : WorkerConfigTomlParams) : Prop where
  token : Toml.BareKey p.operationalToken
  workerId : Toml.BareKey (hyphenated p.workerId)

/-- Behind the URL three quotes come too late for what is to follow it. -/
theorem light_behind_url {z u : List Char} (hi : Issued p)
    (h : sectionLine "heartbeat_interval_secs" (Nat.toDigits 10 p.heartbeatIntervalSecs.toNat) ++
        (sectionLine "operational_token" (Toml.quoted p.operationalToken) ++
          (sectionLine "existing_worker_id" (Toml.quoted (hyphenated p.workerId)) ++
            (p.livenessLine ++ (p.labelsLine ++ p.grokSection)))) =
      z ++ '"' :: '"' :: '"' :: u) :
    Toml.heavy u < Toml.documentSize (p.labelsEntry ++ p.grokStatements) := by
  have hq : Toml.isHeavy '"' = true := by decide
  simp only [sectionLine_append] at h
  obtain ⟨z₁, h₁⟩ := Toml.behind_number (bareKey_fixed (by decide)) _ h
  rw [← List.append_nil (Toml.quoted p.operationalToken)] at h₁
  obtain ⟨z₂, h₂⟩ := Toml.behind_string (bareKey_fixed (by decide)) hi.token.plain
    hi.token.1 List.not_mem_nil h₁
  rw [← List.append_nil (Toml.quoted (hyphenated p.workerId))] at h₂
  obtain ⟨z₃, h₃⟩ := Toml.behind_string (bareKey_fixed (by decide)) hi.workerId.plain
    hi.workerId.1 List.not_mem_nil h₂
  obtain ⟨z₄, h₄⟩ := behind_liveness h₃
  rw [← heavy_labels, h₄, Toml.heavy_append, Toml.heavy_cons hq, Toml.heavy_cons hq,
    Toml.heavy_cons hq]
  omega

theorem size_append (ss ss' : List Toml.Statement) :
    Toml.documentSize (ss ++ ss') = Toml.documentSize ss + Toml.documentSize ss' := by
  rw [Toml.documentSize, List.map_append, List.sum_append]
  rfl

/-- The file says what it is to say exactly where nothing in it needs to be escaped. -/
theorem reads_statements (hn : Toml.Plain p.name.toList) (hi : Issued p) :
    Toml.Reads p.renderWorkerConfigToml p.statements ↔
      Toml.Plain (writtenUrl p.orchestratorUrl).toList ∧
        Quotable p.labels ∧ Toml.Plain (grokSecret p.agentEndpoint) := by
  unfold renderWorkerConfigToml statements
  rw [reads_heading, reads_string (by decide) hn, sectionLine_append _ _ (_ ++ _)]
  refine (Toml.reads_quoted (bareKey_fixed (by decide)) ?_).trans (and_congr_right fun _ => ?_)
  · intro z u hz
    have hlight := light_behind_url hi hz
    rw [size_cons, size_cons, size_cons, size_append]
    omega
  · rw [reads_int (by decide), reads_string (by decide) hi.token.plain,
      reads_string (by decide) hi.workerId.plain, reads_liveness, reads_labels]

end Reading

end WorkerConfigTomlParams

end FleetOrchestrator.Provision
