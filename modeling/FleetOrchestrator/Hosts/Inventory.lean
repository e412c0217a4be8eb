import FleetOrchestrator.Core.Task
import FleetOrchestrator.Store.State
import FleetOrchestrator.Store.Tasks

/-! The inventory of hosts, which registrations and heartbeats both write. -/

namespace FleetOrchestrator.Hosts

open Core Tables Store

inductive HostStatus where
  | provisioned
  | online
  | offline
  | failed
  deriving DecidableEq, Repr

structure OsInfo where
  osType : String
  distro : String
  kernel : String
  arch : String
  hostname : String
  deriving DecidableEq

/-- A measured value; it is stored and shown, never computed with. -/
abbrev Reading := UInt32

structure HostMetrics where
  loadAvg : List Reading := []
  memAvailableMb : Option ℕ := none
  diskFreeMb : Option ℕ := none
  cpuUsage : Option Reading := none
  ramUsage : Option Reading := none
  deriving DecidableEq

structure Host where
  id : ℕ
  hostname : String
  workerId : Option WorkerId
  status : HostStatus
  sshHost : Option String
  sshPort : ℤ
  sshUser : Option String
  grokVersion : Option String
  fleetWorkerVersion : Option String
  osInfo : Option OsInfo
  metrics : HostMetrics
  lastHeartbeatAt : Option ℤ
  provisionedAt : Option ℤ
  createdAt : ℤ
  updatedAt : ℤ
  deriving DecidableEq

inductive EventSeverity where
  | info
  | warn
  | error
  deriving DecidableEq, Repr

structure HostEvent where
  id : ℕ
  hostId : ℕ
  eventType : String
  severity : EventSeverity
  message : Option String
  createdAt : ℤ
  deriving DecidableEq

abbrev HostTable := Keyed String Host Host.hostname

namespace PgStore

/-- What the conflict on the hostname makes of the stored row. -/
def onConflict (excluded : Host) (now : ℤ) (stored : Host) : Host :=
  { stored with
    workerId := excluded.workerId
    status := excluded.status
    sshHost := excluded.sshHost.or stored.sshHost
    sshPort := excluded.sshPort
    sshUser := excluded.sshUser.or stored.sshUser
    grokVersion := excluded.grokVersion.or stored.grokVersion
    fleetWorkerVersion := excluded.fleetWorkerVersion.or stored.fleetWorkerVersion
    osInfo := excluded.osInfo
    metrics :=
      { loadAvg := if excluded.metrics.loadAvg = [] then stored.metrics.loadAvg
          else excluded.metrics.loadAvg
        memAvailableMb := excluded.metrics.memAvailableMb.or stored.metrics.memAvailableMb
        diskFreeMb := excluded.metrics.diskFreeMb.or stored.metrics.diskFreeMb
        cpuUsage := excluded.metrics.cpuUsage
        ramUsage := excluded.metrics.ramUsage }
    lastHeartbeatAt := excluded.lastHeartbeatAt.or stored.lastHeartbeatAt
    provisionedAt := excluded.provisionedAt.or stored.provisionedAt
    updatedAt := now }

def upsertHost (hosts : HostTable) (host : Host) (now : ℤ) : HostTable :=
  hosts.upsert { host with updatedAt := now } (onConflict host now) fun _ h => h

/-- An event refers to a stored host. -/
def appendHostEvent (hosts : HostTable) (events : List HostEvent) (event : HostEvent) :
    Option (List HostEvent) :=
  if hosts.rows.any fun h => h.id = event.hostId then some (events ++ [event]) else none

end PgStore

namespace MemStore

def upsertHost (hosts : HostTable) (host : Host) : HostTable :=
  hosts.upsert host (fun _ => host) fun _ _ => rfl

def appendHostEvent (events : List HostEvent) (event : HostEvent) : Option (List HostEvent) :=
  some (events ++ [event])

end MemStore

def upsertHost (b : Backend) (hosts : HostTable) (host : Host) (now : ℤ) : HostTable :=
  match b with
  | .mem => MemStore.upsertHost hosts host
  | .pg => PgStore.upsertHost hosts host now

def appendHostEvent (b : Backend) (hosts : HostTable) (events : List HostEvent)
    (event : HostEvent) : Option (List HostEvent) :=
  match b with
  | .mem => MemStore.appendHostEvent events event
  | .pg => PgStore.appendHostEvent hosts events event

def listHostEvents (events : List HostEvent) (hostId limit : ℕ) : List HostEvent :=
  (newestFirst HostEvent.createdAt (events.filter fun e => e.hostId = hostId)).take limit

structure HostRegisterRequest where
  hostname : String
  sshHost : String
  sshPort : ℤ := 22
  sshUser : String
  succeeded : Bool
  message : Option String := none

structure HeartbeatRequest where
  workerId : WorkerId
  loadAvg : List Reading := []
  memAvailableMb : ℕ := 0
  diskFreeMb : ℕ := 0
  cpuUsage : Option Reading := none
  ramUsage : Option Reading := none
  grokVersion : Option String := none
  fleetWorkerVersion : Option String := none
  osInfo : Option OsInfo := none

/-- The inventory, and the ids drawn so far. -/
structure World where
  hosts : HostTable := .empty
  events : List HostEvent := []
  drawn : List ℕ := []

/-- The ids that a request draws, and the time at which it is served. -/
structure Choice where
  hostId : ℕ
  eventId : ℕ
  now : ℤ

def registeredHost (req : HostRegisterRequest) (ch : Choice) : Host :=
  { id := ch.hostId
    hostname := req.hostname
    workerId := none
    status := if req.succeeded then .provisioned else .failed
    sshHost := some req.sshHost
    sshPort := req.sshPort
    sshUser := some req.sshUser
    grokVersion := none
    fleetWorkerVersion := none
    osInfo := none
    metrics := {}
    lastHeartbeatAt := none
    provisionedAt := if req.succeeded then some ch.now else none
    createdAt := ch.now
    updatedAt := ch.now }

def provisionEvent (req : HostRegisterRequest) (ch : Choice) : HostEvent :=
  { id := ch.eventId
    hostId := ch.hostId
    eventType := if req.succeeded then "provision_ok" else "provision_fail"
    severity := if req.succeeded then .info else .error
    message := req.message
    createdAt := ch.now }

/-- The answer is the id that was drawn. An event that is not stored is not missed. -/
def registerHost (b : Backend) (req : HostRegisterRequest) (ch : Choice) (w : World) : ℕ × World :=
  let hosts := upsertHost b w.hosts (registeredHost req ch) ch.now
  let events := (appendHostEvent b hosts w.events (provisionEvent req ch)).getD w.events
  (ch.hostId, { w with hosts, events })

/-- The name that the host reports, or else the worker's. -/
def beatHostname (req : HeartbeatRequest) (workerName : String) : String :=
  ((req.osInfo.filter fun oi => oi.hostname ≠ "").map OsInfo.hostname).getD workerName

def beatHost (req : HeartbeatRequest) (workerName : String) (ch : Choice) : Host :=
  { id := ch.hostId
    hostname := beatHostname req workerName
    workerId := some req.workerId
    status := .online
    sshHost := none
    sshPort := 22
    sshUser := none
    grokVersion := req.grokVersion
    fleetWorkerVersion := req.fleetWorkerVersion
    osInfo := req.osInfo
    metrics :=
      { loadAvg := req.loadAvg
        memAvailableMb := some req.memAvailableMb
        diskFreeMb := some req.diskFreeMb
        cpuUsage := req.cpuUsage
        ramUsage := req.ramUsage }
    lastHeartbeatAt := some ch.now
    provisionedAt := none
    createdAt := ch.now
    updatedAt := ch.now }

/-- What a heartbeat does to the inventory. -/
def heartbeat (b : Backend) (req : HeartbeatRequest) (workerName : String) (ch : Choice)
    (w : World) : World :=
  { w with hosts := upsertHost b w.hosts (beatHost req workerName ch) ch.now }

/-- A heartbeat comes with the name of the worker's row, if there is one. -/
inductive Request where
  | register (req : HostRegisterRequest)
  | heartbeat (req : HeartbeatRequest) (workerName : Option String)

inductive Response where
  | registered (hostId : ℕ)
  | ok
  | workerNotFound (id : WorkerId)
  deriving DecidableEq

/-- One request; no id is drawn twice. -/
def serve (b : Backend) (x : Request) (ch : Choice) (w : World) : Option (Response × World) :=
  if ch.hostId ∈ w.drawn ∨ ch.eventId ∈ w.drawn then none
  else
    let w : World := { w with drawn := ch.hostId :: ch.eventId :: w.drawn }
    match x with
    | .register req =>
      let (hostId, w) := registerHost b req ch w
      some (.registered hostId, w)
    | .heartbeat req none => some (.workerNotFound req.workerId, w)
    | .heartbeat req (some workerName) => some (.ok, heartbeat b req workerName ch w)

structure Served where
  request : Request
  choice : Choice
  response : Response

/-- The inventories that requests lead to when each meets the condition; newest request first. -/
inductive Reached (b : Backend) (cond : World → Request → Prop) : List Served → World → Prop
  | start : Reached b cond [] {}
  | serve {log : List Served} {w w' : World} {x : Request} {ch : Choice} {r : Response}
      (h : Reached b cond log w) (hx : cond w x) (hs : Hosts.serve b x ch w = some (r, w')) :
      Reached b cond (⟨x, ch, r⟩ :: log) w'

/-- What a heartbeat does not carry. -/
def Host.provisioning (h : Host) : Option String × ℤ × Option String × Option ℤ :=
  (h.sshHost, h.sshPort, h.sshUser, h.provisionedAt)

/-- What a registration does not carry. -/
def Host.runtime (h : Host) : Option WorkerId × Option OsInfo × Option String × Option String ×
    HostMetrics × Option ℤ :=
  (h.workerId, h.osInfo, h.grokVersion, h.fleetWorkerVersion, h.metrics, h.lastHeartbeatAt)

def HostRegisterRequest.event (req : HostRegisterRequest) (ch : Choice) (e : HostEvent) : Prop :=
  e.id = ch.eventId ∧ e.eventType = (if req.succeeded then "provision_ok" else "provision_fail") ∧
    e.message = req.message

/-- What one request owes to the inventory. -/
structure Kept (x : Request) (ch : Choice) (r : Response) (w w' : World) : Prop where
  ids : ∀ name h, w.hosts.get name = some h → ∃ h', w'.hosts.get name = some h' ∧ h'.id = h.id
  registered : ∀ req, x = .register req → ∃ h, w'.hosts.get req.hostname = some h ∧
    r = .registered h.id ∧ ∃ e ∈ w'.events, e.hostId = h.id ∧ req.event ch e
  beat : ∀ req workerName, x = .heartbeat req workerName → ∀ name h,
    w.hosts.get name = some h → ∃ h', w'.hosts.get name = some h' ∧
      h'.provisioning = h.provisioning
  registration : ∀ req, x = .register req → ∀ name h, w.hosts.get name = some h →
    ∃ h', w'.hosts.get name = some h' ∧ h'.runtime = h.runtime

/-- A registration is the first word of its host. So is a heartbeat, but with SQL, where it may also
come to a host whose port is the usual one. -/
def firstWord (b : Backend) (w : World) : Request → Bool
  | .register req => !w.hosts.contains req.hostname
  | .heartbeat _ none => true
  | .heartbeat req (some workerName) =>
    (w.hosts.get (beatHostname req workerName)).all fun h => b = .pg && h.sshPort = 22

abbrev FirstWord (b : Backend) (w : World) (x : Request) : Prop := firstWord b w x = true

section Steps

variable {b : Backend} {w w' : World} {x : Request} {ch : Choice} {r : Response} {name : String}
  {h : Host}

section Upsert

variable {hosts : HostTable} {host stored : Host} {now : ℤ} (hn : host.hostname = name)

include hn

theorem get_upsertHost_mem : (upsertHost .mem hosts host now).get name = some host := by
  subst hn
  refine (@Keyed.get_upsert_self _ _ _ _ hosts host (fun _ => host) fun _ _ => rfl).trans ?_
  cases hosts.get host.hostname <;> rfl

theorem get_upsertHost_pg (hrow : hosts.get name = some stored) :
    (upsertHost .pg hosts host now).get name = some (PgStore.onConflict host now stored) := by
  subst hn
  refine (@Keyed.get_upsert_self _ _ _ _ hosts { host with updatedAt := now }
    (PgStore.onConflict host now) fun _ h => h).trans ?_
  change some (((hosts.get host.hostname).map _).getD _) = _
  rw [hrow]
  rfl

/-- The row of a new hostname has the id that was drawn. -/
theorem get_upsertHost_new (hrow : hosts.get name = none) :
    ∃ h, (upsertHost b hosts host now).get name = some h ∧ h.id = host.id := by
  cases b with
  | mem => exact ⟨host, get_upsertHost_mem hn, rfl⟩
  | pg =>
    subst hn
    refine ⟨{ host with updatedAt := now }, (@Keyed.get_upsert_self _ _ _ _ hosts
      { host with updatedAt := now } (PgStore.onConflict host now) fun _ h => h).trans ?_, rfl⟩
    change some (((hosts.get host.hostname).map _).getD _) = _
    rw [hrow]
    rfl

end Upsert

theorem get_upsertHost_ne {hosts : HostTable} {host : Host} {now : ℤ} (hn : name ≠ host.hostname) :
    (upsertHost b hosts host now).get name = hosts.get name := by
  cases b with
  | mem => exact @Keyed.get_upsert_ne _ _ _ _ hosts host (fun _ => host) (fun _ _ => rfl) name hn
  | pg =>
    exact @Keyed.get_upsert_ne _ _ _ _ hosts { host with updatedAt := now }
      (PgStore.onConflict host now) (fun _ h => h) name hn

theorem serve_drawn (hs : serve b x ch w = some (r, w')) :
    ch.hostId ∉ w.drawn ∧ ch.hostId ∈ w'.drawn ∧ w.drawn ⊆ w'.drawn := by
  simp only [serve, Option.ite_none_left_eq_some, not_or] at hs
  obtain ⟨⟨hfresh, -⟩, hs⟩ := hs
  have hdrawn : w'.drawn = ch.hostId :: ch.eventId :: w.drawn := by
    cases x with
    | register req =>
      cases hs
      rfl
    | heartbeat req workerName => cases workerName <;> cases hs <;> rfl
  refine ⟨hfresh, ?_, ?_⟩
  · simp [hdrawn]
  · intro i hi
    simp [hdrawn, hi]

/-- The stored ids have been drawn. -/
def Drawn (w : World) : Prop := ∀ name h, w.hosts.get name = some h → h.id ∈ w.drawn

theorem upsertHost_drawn {hosts : HostTable} {host : Host} {now : ℤ} {drawn : List ℕ}
    (hd : ∀ name h, hosts.get name = some h → h.id ∈ drawn) (hi : host.id ∈ drawn) :
    ∀ name h, (upsertHost b hosts host now).get name = some h → h.id ∈ drawn := by
  intro name h hget
  by_cases hn : name = host.hostname
  · cases hrow : hosts.get name with
    | none =>
      obtain ⟨h', hget', hid⟩ := @get_upsertHost_new b name hosts host now hn.symm hrow
      rw [hget] at hget'
      cases hget'
      rw [hid]
      exact hi
    | some stored =>
      cases b with
      | mem =>
        rw [get_upsertHost_mem hn.symm] at hget
        cases hget
        exact hi
      | pg =>
        rw [get_upsertHost_pg hn.symm hrow] at hget
        cases hget
        exact hd name stored hrow
  · rw [get_upsertHost_ne hn] at hget
    exact hd name h hget

theorem drawn_serve (hs : serve b x ch w = some (r, w')) (hd : Drawn w) : Drawn w' := by
  obtain ⟨-, hdrawn, hsub⟩ := serve_drawn hs
  have hold : ∀ name h, w.hosts.get name = some h → h.id ∈ w'.drawn :=
    fun name h hget => hsub (hd name h hget)
  simp only [serve, Option.ite_none_left_eq_some] at hs
  obtain ⟨-, hs⟩ := hs
  cases x with
  | register req =>
    cases hs
    exact upsertHost_drawn hold hdrawn
  | heartbeat req workerName =>
    cases workerName with
    | none =>
      cases hs
      exact hold
    | some workerName =>
      cases hs
      exact upsertHost_drawn hold hdrawn

theorem serve_register {req : HostRegisterRequest}
    (hs : serve b (.register req) ch w = some (r, w')) : r = .registered ch.hostId ∧
      w'.hosts = upsertHost b w.hosts (registeredHost req ch) ch.now ∧
      w'.events = (appendHostEvent b w'.hosts w.events (provisionEvent req ch)).getD w.events := by
  simp only [serve, Option.ite_none_left_eq_some] at hs
  obtain ⟨-, hs⟩ := hs
  cases hs
  exact ⟨rfl, rfl, rfl⟩

theorem serve_unknown {req : HeartbeatRequest}
    (hs : serve b (.heartbeat req none) ch w = some (r, w')) :
    w'.hosts = w.hosts ∧ w'.events = w.events := by
  simp only [serve, Option.ite_none_left_eq_some] at hs
  obtain ⟨-, hs⟩ := hs
  cases hs
  exact ⟨rfl, rfl⟩

theorem serve_heartbeat {req : HeartbeatRequest} {workerName : String}
    (hs : serve b (.heartbeat req (some workerName)) ch w = some (r, w')) :
    w'.hosts = upsertHost b w.hosts (beatHost req workerName ch) ch.now ∧
      w'.events = w.events := by
  simp only [serve, Option.ite_none_left_eq_some] at hs
  obtain ⟨-, hs⟩ := hs
  cases hs
  exact ⟨rfl, rfl⟩

theorem beatHost_hostname (req : HeartbeatRequest) (workerName : String) (ch : Choice) :
    (beatHost req workerName ch).hostname = beatHostname req workerName := rfl

/-- The event of a stored host is stored. -/
theorem mem_appendHostEvent {hosts : HostTable} {events : List HostEvent} {event : HostEvent}
    (hrow : hosts.get name = some h) (hid : h.id = event.hostId) :
    event ∈ (appendHostEvent b hosts events event).getD events := by
  cases b with
  | mem => exact List.mem_append_right events (List.mem_singleton.mpr rfl)
  | pg =>
    have hany : (hosts.rows.any fun h => h.id = event.hostId) = true :=
      List.any_eq_true.mpr ⟨h, (Keyed.get_eq_some.mp hrow).1, by simpa using hid⟩
    change event ∈ Option.getD (PgStore.appendHostEvent hosts events event) events
    rw [PgStore.appendHostEvent, if_pos hany]
    exact List.mem_append_right events (List.mem_singleton.mpr rfl)

theorem kept_register {req : HostRegisterRequest}
    (hs : serve b (.register req) ch w = some (r, w'))
    (hnone : w.hosts.get req.hostname = none) : Kept (.register req) ch r w w' := by
  obtain ⟨hr, hhosts, hevents⟩ := serve_register hs
  have hother : ∀ name, name ≠ req.hostname → w'.hosts.get name = w.hosts.get name :=
    fun name hn => hhosts ▸ get_upsertHost_ne hn
  have hstored : ∃ h, w'.hosts.get req.hostname = some h ∧ h.id = ch.hostId := by
    rw [hhosts]
    exact get_upsertHost_new rfl hnone
  have hold {name : String} {h : Host} (hget : w.hosts.get name = some h) :
      w'.hosts.get name = some h := by
    rw [hother name ?_, hget]
    rintro rfl
    rw [hnone] at hget
    cases hget
  refine ⟨fun name h hget => ⟨h, hold hget, rfl⟩, ?_, nofun,
    fun _ _ name h hget => ⟨h, hold hget, rfl⟩⟩
  intro req' he
  cases he
  obtain ⟨h, hget, hid⟩ := hstored
  refine ⟨h, hget, by rw [hr, hid], provisionEvent req ch, ?_, hid.symm, rfl, rfl, rfl⟩
  rw [hevents]
  exact mem_appendHostEvent hget hid

theorem kept_heartbeat {req : HeartbeatRequest} {workerName : Option String}
    (hs : serve b (.heartbeat req workerName) ch w = some (r, w'))
    (hx : FirstWord b w (.heartbeat req workerName)) :
    Kept (.heartbeat req workerName) ch r w w' := by
  have hkept : ∀ name h, w.hosts.get name = some h → ∃ h', w'.hosts.get name = some h' ∧
      h'.id = h.id ∧ h'.provisioning = h.provisioning := by
    intro name h hget
    cases workerName with
    | none => exact ⟨h, by rw [(serve_unknown hs).1, hget], rfl, rfl⟩
    | some workerName =>
      obtain ⟨hhosts, -⟩ := serve_heartbeat hs
      by_cases hn : name = beatHostname req workerName
      · subst hn
        simp only [FirstWord, firstWord, hget, Option.all_some, Bool.and_eq_true,
          decide_eq_true_eq] at hx
        obtain ⟨rfl, hport⟩ := hx
        refine ⟨PgStore.onConflict (beatHost req workerName ch) ch.now h, ?_, rfl, ?_⟩
        · rw [hhosts, get_upsertHost_pg (beatHost_hostname req workerName ch) hget]
        · simp [Host.provisioning, PgStore.onConflict, beatHost, hport]
      · exact ⟨h, by rw [hhosts, ← hget]; exact get_upsertHost_ne hn, rfl, rfl⟩
  refine ⟨?_, ?_, ?_, ?_⟩
  · intro name h hget
    obtain ⟨h', hget', hid, -⟩ := hkept name h hget
    exact ⟨h', hget', hid⟩
  · rintro _ ⟨⟩
  · intro _ _ _ name h hget
    obtain ⟨h', hget', -, hp⟩ := hkept name h hget
    exact ⟨h', hget', hp⟩
  · rintro _ ⟨⟩

/-- A request that keeps what it should is a first word. -/
theorem firstWord_of_kept (hs : serve b x ch w = some (r, w')) (hd : Drawn w)
    (hk : Kept x ch r w w') : FirstWord b w x := by
  obtain ⟨hfresh, -, -⟩ := serve_drawn hs
  cases x with
  | register req =>
    obtain ⟨hr, -, -⟩ := serve_register hs
    simp only [FirstWord, firstWord, Bool.not_eq_true', Keyed.contains_eq,
      Option.isSome_eq_false_iff, Option.isNone_iff_eq_none]
    cases hget : w.hosts.get req.hostname with
    | none => rfl
    | some h =>
      exfalso
      obtain ⟨h', hget', hid⟩ := hk.ids _ h hget
      obtain ⟨h'', hget'', hr', -⟩ := hk.registered req rfl
      rw [hget'] at hget''
      cases hget''
      rw [hr] at hr'
      apply hfresh
      rw [Response.registered.inj hr', hid]
      exact hd _ h hget
  | heartbeat req workerName =>
    cases workerName with
    | none => rfl
    | some workerName =>
      obtain ⟨hhosts, -⟩ := serve_heartbeat hs
      cases hget : w.hosts.get (beatHostname req workerName) with
      | none => simp [FirstWord, firstWord, hget]
      | some h =>
        obtain ⟨h', hget', hid⟩ := hk.ids _ h hget
        rw [hhosts] at hget'
        cases b with
        | mem =>
          rw [get_upsertHost_mem (beatHost_hostname req workerName ch)] at hget'
          cases hget'
          exfalso
          apply hfresh
          rw [show ch.hostId = h.id from hid]
          exact hd _ h hget
        | pg =>
          obtain ⟨h'', hget'', hp⟩ := hk.beat req _ rfl _ h hget
          rw [hhosts, get_upsertHost_pg (beatHost_hostname req workerName ch) hget] at hget''
          cases hget''
          have hport : h.sshPort = 22 := (congrArg (fun p => p.2.1) hp).symm
          simp [FirstWord, firstWord, hget, hport]

/-- A request keeps what it should exactly where it is a first word. -/
theorem kept_iff (hs : serve b x ch w = some (r, w')) (hd : Drawn w) :
    Kept x ch r w w' ↔ FirstWord b w x := by
  refine ⟨firstWord_of_kept hs hd, fun hx => ?_⟩
  cases x with
  | register req =>
    apply kept_register hs
    simpa [FirstWord, firstWord, Keyed.contains_eq] using hx
  | heartbeat req workerName => exact kept_heartbeat hs hx

/-- Events are added, never taken away. -/
theorem events_serve (hs : serve b x ch w = some (r, w')) : w.events <+: w'.events := by
  cases x with
  | register req =>
    rw [(serve_register hs).2.2]
    cases b with
    | mem => exact List.prefix_append _ _
    | pg =>
      change w.events <+: Option.getD (PgStore.appendHostEvent _ _ _) _
      unfold PgStore.appendHostEvent
      split
      · exact List.prefix_append _ _
      · exact List.prefix_rfl
  | heartbeat req workerName =>
    cases workerName with
    | none => simp only [(serve_unknown hs).2, List.prefix_rfl]
    | some workerName => simp only [(serve_heartbeat hs).2, List.prefix_rfl]

end Steps

section Runs

variable {b : Backend} {cond : World → Request → Prop} {log : List Served} {w : World}

theorem reached_drawn (h : Reached b cond log w) : Drawn w := by
  induction h with
  | start =>
    intro name h hget
    simp [Keyed.get_empty] at hget
  | serve h hx hs ih => exact drawn_serve hs ih

/-- Every registration has answered the id of its host's row, and the listing of that row's events
has its event. -/
def Filed (log : List Served) (w : World) : Prop :=
  ∀ s ∈ log, ∀ req, s.request = .register req → ∃ h, w.hosts.get req.hostname = some h ∧
    s.response = .registered h.id ∧ ∀ limit, w.events.length ≤ limit →
      ∃ e ∈ listHostEvents w.events h.id limit, req.event s.choice e

theorem mem_listHostEvents {events : List HostEvent} {e : HostEvent} {limit : ℕ} (he : e ∈ events)
    (hl : events.length ≤ limit) : e ∈ listHostEvents events e.hostId limit := by
  have hlen : (newestFirst HostEvent.createdAt
      (events.filter fun e' => e'.hostId = e.hostId)).length ≤ limit := by
    rw [newestFirst, List.length_insertionSort]
    exact (List.length_filter_le _ events).trans hl
  rw [listHostEvents, List.take_of_length_le hlen, mem_newestFirst]
  exact List.mem_filter.mpr ⟨he, by simp⟩

theorem filed_of_reached (h : Reached b (FirstWord b) log w) : Filed log w := by
  suffices hall : ∀ s ∈ log, ∀ req, s.request = .register req → ∃ h,
      w.hosts.get req.hostname = some h ∧ s.response = .registered h.id ∧
        ∃ e ∈ w.events, e.hostId = h.id ∧ req.event s.choice e by
    intro s hs req hreq
    obtain ⟨h, hget, hr, e, he, hid, hevent⟩ := hall s hs req hreq
    refine ⟨h, hget, hr, fun limit hl => ⟨e, ?_, hevent⟩⟩
    rw [← hid]
    exact mem_listHostEvents he hl
  induction h with
  | start => simp
  | @serve log w w' x ch r h hx hs ih =>
    have hkept := (kept_iff hs (reached_drawn h)).mpr hx
    intro s hmem req hreq
    rcases List.mem_cons.mp hmem with rfl | hmem
    · exact hkept.registered req hreq
    · obtain ⟨h, hget, hr, e, he, hid, hevent⟩ := ih s hmem req hreq
      obtain ⟨h', hget', hid'⟩ := hkept.ids _ h hget
      exact ⟨h', hget', by rw [hr, hid'], e, (events_serve hs).subset he, hid.trans hid'.symm,
        hevent⟩

/-- A request keeps the ids of the hosts and what it does not carry, and answers the id of the row,
exactly where it is the first word of its host; where all are, every registration is filed with
its host. -/
theorem inventory_kept (b : Backend) :
    (∀ cond log w, Reached b cond log w → ∀ x ch r w', serve b x ch w = some (r, w') →
      (Kept x ch r w w' ↔ FirstWord b w x)) ∧
    ∀ log w, Reached b (FirstWord b) log w → Filed log w :=
  ⟨fun _ _ _ h _ _ _ _ hs => kept_iff hs (reached_drawn h), fun _ _ h => filed_of_reached h⟩

end Runs

namespace Inventory

/-- A host on a port of its own. -/
def web : HostRegisterRequest :=
  { hostname := "web-1", sshHost := "10.0.0.5", sshPort := 2222, sshUser := "deploy",
    succeeded := true }

def beat : HeartbeatRequest :=
  { workerId := ⟨7⟩
    osInfo := some { osType := "linux", distro := "debian", kernel := "6.1", arch := "x86_64",
                     hostname := "web-1" } }

/-- The inventory after `web` has been registered at the time 10. -/
def provisioned (b : Backend) : World :=
  (serve b (.register web) ⟨1, 2, 10⟩ {}).elim {} Prod.snd

theorem serve_web (b : Backend) :
    serve b (.register web) ⟨1, 2, 10⟩ {} = some (.registered 1, provisioned b) := by
  cases b <;> rfl

theorem reached_provisioned (b : Backend) {cond : World → Request → Prop}
    (hc : cond {} (.register web)) :
    Reached b cond [⟨.register web, ⟨1, 2, 10⟩, .registered 1⟩] (provisioned b) :=
  .serve .start hc (serve_web b)

/-- Some host's inventory misses what the request should have left. -/
def Loses (b : Backend) (x : Request) : Prop :=
  ∃ log w r w', Reached b (fun _ _ => True) log w ∧ serve b x ⟨3, 4, 20⟩ w = some (r, w') ∧
    ¬ Kept x ⟨3, 4, 20⟩ r w w'

theorem later_loses (b : Backend) {x : Request}
    (hx : x ∈ [Request.register web, Request.heartbeat beat (some "worker-7")]) : Loses b x := by
  have hdrawn : Drawn (provisioned b) :=
    reached_drawn (@reached_provisioned b (fun _ _ => True) trivial)
  have hsome : ∀ x ∈ [Request.register web, Request.heartbeat beat (some "worker-7")],
      (serve b x ⟨3, 4, 20⟩ (provisioned b)).isSome = true ∧ ¬ FirstWord b (provisioned b) x := by
    simp only [List.forall_mem_cons]
    cases b <;> decide +kernel
  obtain ⟨hsome, hlater⟩ := hsome x hx
  obtain ⟨⟨r, w'⟩, hs⟩ := Option.isSome_iff_exists.mp hsome
  exact ⟨_, provisioned b, r, w', reached_provisioned b trivial, hs,
    fun hk => hlater ((kept_iff hs hdrawn).mp hk)⟩

/-- Whatever comes next for the host is kept in neither store: a second registration is not answered
with the id of the row, and a heartbeat resets the port. -/
theorem next_word_lost :
    (Loses .mem (.register web) ∧ Loses .mem (.heartbeat beat (some "worker-7"))) ∧
      (Loses .pg (.register web) ∧ Loses .pg (.heartbeat beat (some "worker-7"))) :=
  ⟨⟨later_loses _ (by simp), later_loses _ (by simp)⟩,
    ⟨later_loses _ (by simp), later_loses _ (by simp)⟩⟩

theorem firstWord_web (b : Backend) : FirstWord b {} (.register web) := by
  cases b <;> decide +kernel

/-- The first registration is kept, and its row lists its event. -/
theorem first_word_kept :
    (Kept (.register web) ⟨1, 2, 10⟩ (.registered 1) {} (provisioned .mem) ∧
      Filed [⟨.register web, ⟨1, 2, 10⟩, .registered 1⟩] (provisioned .mem)) ∧
    (Kept (.register web) ⟨1, 2, 10⟩ (.registered 1) {} (provisioned .pg) ∧
      Filed [⟨.register web, ⟨1, 2, 10⟩, .registered 1⟩] (provisioned .pg)) :=
  ⟨⟨((inventory_kept .mem).1 (FirstWord .mem) [] {} .start _ _ _ _ (serve_web .mem)).mpr
      (firstWord_web .mem),
      (inventory_kept .mem).2 _ _ (reached_provisioned .mem (firstWord_web .mem))⟩,
    ⟨((inventory_kept .pg).1 (FirstWord .pg) [] {} .start _ _ _ _ (serve_web .pg)).mpr
      (firstWord_web .pg),
      (inventory_kept .pg).2 _ _ (reached_provisioned .pg (firstWord_web .pg))⟩⟩

end Inventory

end FleetOrchestrator.Hosts
