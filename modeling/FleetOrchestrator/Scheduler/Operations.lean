import FleetOrchestrator.Interleaving.System
import FleetOrchestrator.Scheduler.Process
import FleetOrchestrator.Store.Operations

/-! The atomic operations of the system and the world they act on. -/

namespace FleetOrchestrator.Scheduler

open Core Store Transport Interleaving

inductive SkillFile where
  | text (content : String)
  | notFound
  | unreadable
  deriving DecidableEq, Repr

inductive Op where
  | store (o : StoreOp)
  | process (o : ProcessOp)
  | acp (o : AcpOp)
  | readSkill (file : String)
  deriving DecidableEq

@[reducible] def Resp : Op → Type
  | .store o => o.Reply
  | .process o => o.Answer
  | .acp o => o.Answer
  | .readSkill _ => SkillFile

abbrev M (α : Type) : Type := Prog Op Resp α

abbrev History : Type := List (Entry Op Resp)

/-- What the outside decides in one step. -/
structure Choice where
  fault : Option StoreError := none
  order : RowOrder := {}
  acp : AcpChoice := {}
  skill : SkillFile := .notFound

structure RoutingDecision where
  profile : String
  resolvedModel : String
  tokenBudget : ℕ

structure Deployment where
  backend : Backend
  process : ℕ → ProcessConfig
  resolveRouting : Task → RoutingDecision
  sha256 : String → String

structure World where
  store : StoreState
  process : ℕ → Process
  host : WorkerId → Host
  /-- Every task id handed out so far. -/
  minted : List TaskId

namespace World

def setProcess (w : World) (p : ℕ) (q : Process) : World :=
  { w with process := fun n => if n = p then q else w.process n }

def setHost (w : World) (v : WorkerId) (h : Host) : World :=
  { w with host := fun u => if u = v then h else w.host u }

@[simp] theorem setProcess_store (w : World) (p : ℕ) (q : Process) :
    (w.setProcess p q).store = w.store := rfl

@[simp] theorem setProcess_host (w : World) (p : ℕ) (q : Process) :
    (w.setProcess p q).host = w.host := rfl

@[simp] theorem setProcess_minted (w : World) (p : ℕ) (q : Process) :
    (w.setProcess p q).minted = w.minted := rfl

@[simp] theorem setProcess_self (w : World) (p : ℕ) (q : Process) :
    (w.setProcess p q).process p = q := if_pos rfl

theorem setProcess_ne (w : World) {p n : ℕ} (q : Process) (h : n ≠ p) :
    (w.setProcess p q).process n = w.process n := if_neg h

@[simp] theorem setHost_store (w : World) (v : WorkerId) (h : Host) :
    (w.setHost v h).store = w.store := rfl

@[simp] theorem setHost_process (w : World) (v : WorkerId) (h : Host) :
    (w.setHost v h).process = w.process := rfl

@[simp] theorem setHost_minted (w : World) (v : WorkerId) (h : Host) :
    (w.setHost v h).minted = w.minted := rfl

@[simp] theorem setHost_self (w : World) (v : WorkerId) (h : Host) :
    (w.setHost v h).host v = h := if_pos rfl

end World

def setTransport (p : Process) (t : TransportState) : Process := { p with transport := t }

/-- The worker's side of an exchange: only a new session changes what it holds. -/
def hostEffect (ch : AcpChoice) (w : World) : AcpOp → Option World
  | .newSession v _ _ =>
    match ch.newSession with
    | .opened sessionId => ((w.host v).openSession sessionId).map (w.setHost v)
    | .refused _ | .timedOut => some w
  | _ => some w

def exec (D : Deployment) (ch : Choice) (p : ℕ) : (op : Op) → World → Option (Resp op × World)
  | .store o, w =>
    let r := D.backend.answer ch.fault ch.order w.store o
    some (r.1, { w with store := r.2 })
  | .process o, w =>
    let r := (w.process p).perform (D.process p) w.store.now o
    some (r.1, w.setProcess p r.2)
  | .acp o, w =>
    (hostEffect ch.acp w o).bind fun w' =>
      ((w.process p).transport.perform ch.acp w.host o).map fun r =>
        (r.1, w'.setProcess p (setTransport (w.process p) r.2))
  | .readSkill _, w => some (ch.skill, w)

def call (op : Op) : M (Resp op) := Prog.perform op

def utcNow : M ℤ := call (.process .utcNow)

def getTask (id : TaskId) : M (Except StoreError (Option Task)) := call (.store (.getTask id))

/-- `let _ = store.append_event(..)`: the outcome of the write is not looked at. -/
def appendEvent (e : ℤ → FleetEvent) : M Unit := do
  let now ← utcNow
  let _ ← call (.store (.appendEvent (e now)))
  return ()

end FleetOrchestrator.Scheduler
