import FleetOrchestrator.Agents.Runs
import FleetOrchestrator.Core.Errors

/-! The handlers that start and stop an agent, in both of their surfaces, with every store call as
one step. -/

namespace FleetOrchestrator.Agents

open Api Core Tables Store Interleaving

inductive StoreCall where
  | getAgent (id : AgentId)
  | controlFence
  | setAgentDesiredStatus (id : AgentId) (desired : AgentDesiredStatus)
    (fence : Option ControlFence)
  | updateAgentStatus (id : AgentId) (status : AgentStatus)
  | listAgentCommands (w : WorkerId)
  | other (request : Request)

abbrev StoreCall.Resp : StoreCall → Type
  | .getAgent _ => Option Agent
  | .controlFence => Option ControlFence
  | .setAgentDesiredStatus _ _ _ => CommandIssue
  | .updateAgentStatus _ _ => Bool
  | .listAgentCommands _ => List AgentCommand
  | .other _ => Reply

abbrev Handler (α : Type) := Prog StoreCall StoreCall.Resp α

def ask (op : StoreCall) : Handler op.Resp := Prog.perform op

inductive ToolError where
  | tool (text : String)
  | invalidParams (msg : String)
  | internal (msg : String)
  deriving DecidableEq

inductive HandlerError where
  | mcp (e : ToolError)
  | dashboard (e : ApiError)
  deriving DecidableEq

/-- How a surface words its refusals. -/
structure Surface where
  noAgent : AgentId → HandlerError
  isStopped : AgentId → HandlerError
  noSuchAgent : AgentId → HandlerError
  fenced : HandlerError
  goneInStart : HandlerError
  goneInStop : HandlerError

def stoppedText (id : AgentId) : String :=
  "agent " ++ toString id ++ " is stopped and cannot be started"

def fencedText : String := "this instance is no longer the control-plane leader"

def mcp : Surface where
  noAgent _ := .mcp (.tool "agent not found")
  isStopped id := .mcp (.tool (stoppedText id))
  noSuchAgent id := .mcp (.invalidParams ("no such agent: " ++ toString id))
  fenced := .mcp (.internal fencedText)
  goneInStart := .mcp (.internal "agent disappeared during start")
  goneInStop := .mcp (.internal "agent disappeared during stop")

def dashboard : Surface where
  noAgent id := .dashboard (.notFound ("agent " ++ toString id))
  isStopped id := .dashboard (.badRequest (stoppedText id))
  noSuchAgent id := .dashboard (.notFound ("agent " ++ toString id))
  fenced := .dashboard (.unavailable fencedText)
  goneInStart := .dashboard (.store "agent disappeared during start")
  goneInStop := .dashboard (.store "agent disappeared during stop")

/-- The stored row is what the caller is answered with. -/
def reread (id : AgentId) (gone : HandlerError) : Handler (Except HandlerError Agent) := do
  match ← ask (.getAgent id) with
  | none => return .error gone
  | some agent => return .ok agent

/-- The status is checked on the row that was read; the write looks at it no more. -/
def startAgent (v : Surface) (id : AgentId) : Handler (Except HandlerError Agent) := do
  match ← ask (.getAgent id) with
  | none => return .error (v.noAgent id)
  | some agent =>
    if agent.status = .stopped then
      return .error (v.isStopped id)
    else if agent.desiredStatus ≠ .running then
      let fence ← ask .controlFence
      match ← ask (.setAgentDesiredStatus id .running fence) with
      | .issued => reread id v.goneInStart
      | .noSuchAgent => return .error (v.noSuchAgent id)
      | .fenced => return .error v.fenced
    else
      return .ok agent

def stopAgent (v : Surface) (id : AgentId) : Handler (Except HandlerError Agent) := do
  match ← ask (.getAgent id) with
  | none => return .error (v.noAgent id)
  | some agent =>
    if agent.status ≠ .stopped then
      let _ ← ask (.updateAgentStatus id .stopped)
      reread id v.goneInStop
    else
      return .ok agent

def handleStartAgent (id : AgentId) := startAgent mcp id
def handleStopAgent (id : AgentId) := stopAgent mcp id
def startAgentApi (id : AgentId) := startAgent dashboard id
def stopAgentApi (id : AgentId) := stopAgent dashboard id

inductive HandlerCall where
  | handleStartAgent (id : AgentId)
  | handleStopAgent (id : AgentId)
  | startAgentApi (id : AgentId)
  | stopAgentApi (id : AgentId)
  | listAgentCommands (w : WorkerId)
  | other (request : Request)

inductive HandlerReply where
  | agent (r : Except HandlerError Agent)
  | commands (cs : List AgentCommand)
  | other (r : Reply)

def handle : HandlerCall → Handler HandlerReply
  | .handleStartAgent id => HandlerReply.agent <$> handleStartAgent id
  | .handleStopAgent id => HandlerReply.agent <$> handleStopAgent id
  | .startAgentApi id => HandlerReply.agent <$> startAgentApi id
  | .stopAgentApi id => HandlerReply.agent <$> stopAgentApi id
  | .listAgentCommands w => HandlerReply.commands <$> ask (.listAgentCommands w)
  | .other request => HandlerReply.other <$> ask (.other request)

def setAgentDesiredStatus (b : Backend) (id : AgentId) (desired : AgentDesiredStatus)
    (fence : Option ControlFence) : Call CommandIssue :=
  match b with
  | .mem => MemStore.setAgentDesiredStatus id desired fence
  | .pg => PgStore.setAgentDesiredStatus id desired fence

def updateAgentStatus (b : Backend) (id : AgentId) (status : AgentStatus) : Call Bool :=
  match b with
  | .mem => execute (.statusLocked id status)
  | .pg => PgStore.updateAgentStatus id status

/-- Nothing of this kind touches the status or the desired status of an agent that exists. -/
def Request.isOther : Request → Bool
  | .setAgentDesiredStatus _ _ _ | .updateAgentStatus _ _ => false
  | _ => true

/-- A new agent comes with an id of its own. -/
def freshlyMade (s : StoreState) : Request → Bool
  | .createAgent agent => isNew agent && (s.agents.get agent.id).isNone
  | _ => true

structure Surroundings where
  rank : AgentId → ℕ
  fence : Option ControlFence

def wholeCall {α : Type} (ch : Surroundings) (p : Call α) (s : StoreState) : α × StoreState :=
  p.alone (fun op s => op.effect ch.rank s) s

def StoreCall.exec (b : Backend) (ch : Surroundings) :
    (op : StoreCall) → StoreState → Option (op.Resp × StoreState)
  | .getAgent id, s => some (s.agents.get id, s)
  | .controlFence, s => some (ch.fence, s)
  | .setAgentDesiredStatus id desired fence, s =>
    some (wholeCall ch (Agents.setAgentDesiredStatus b id desired fence) s)
  | .updateAgentStatus id status, s => some (wholeCall ch (Agents.updateAgentStatus b id status) s)
  | .listAgentCommands w, s => some (Agents.listAgentCommands s ch.rank w, s)
  | .other request, s =>
    if request.isOther && freshlyMade s request then some (wholeCall ch (serve b request) s)
    else none

/-- Anybody else may change the store, but not the agents. -/
def handlers (b : Backend) :
    Machine StoreCall StoreCall.Resp Unit HandlerCall HandlerReply StoreState Surroundings
      StoreState where
  program _ call := handle call
  exec ch _ op s := op.exec b ch s
  spawned _ _ := []
  accept _ _ s := some s
  disturb s' s := if s'.agents.rows = s.agents.rows then some s' else none

abbrev HandlersConfig := Config StoreCall StoreCall.Resp Unit HandlerCall HandlerReply StoreState
abbrev HandlersAction := Action Unit HandlerCall Surroundings StoreState

end FleetOrchestrator.Agents
