import FleetOrchestrator.Encoding.Shell
import FleetOrchestrator.Encoding.Words
import FleetOrchestrator.Interleaving.Program
import FleetOrchestrator.Provision.Labels
import Mathlib.Tactic.IntervalCases

/-! The command that joins a host to the fleet, as the shell of that host reads it. -/

namespace FleetOrchestrator.Provision

open Core Encoding Interleaving

structure StepContext where
  workerName : String
  labels : LabelMap := .empty
  orchestratorUrl : String
  grokSecret : Option String := none
  maxConcurrentTasks : Option ℕ := none
  mtlsEnabled : Bool := false
  mtlsListenAddr : Option String := none
  mtlsAdvertisedHost : Option String := none
  mtlsAdvertisedPort : Option ℕ := none

def REMOTE_CONFIG_PATH : String := "/etc/fleet/worker.toml"

def REMOTE_BIN_PATH : String := "/usr/local/bin/fleet-worker"

/-- A port in decimal, with a plus sign at most in front of it. -/
def parsePort (text : List Char) : Option ℕ :=
  let digits := if text.head? = some '+' then text.tail else text
  if digits.isEmpty || digits.any (fun c => !c.isDigit) then none
  else
    let n := digits.foldl (fun n c => 10 * n + (c.toNat - 48)) 0
    if n < 2 ^ 16 then some n else none

def mtlsHost (ctx : StepContext) : String :=
  match ctx.mtlsAdvertisedHost with
  | some host => if host = "" then ctx.workerName else host
  | none => ctx.workerName

def mtlsPort (ctx : StepContext) : ℕ :=
  match ctx.mtlsAdvertisedPort with
  | some port => port
  | none =>
    let last := ctx.mtlsListenAddr.bind fun addr => (addr.toList.splitOn ':').getLast?
    (last.bind parsePort).getD 2420

def mtlsAgentEndpoint (ctx : StepContext) (grokSecret : String) : String :=
  "wss://" ++ mtlsHost ctx ++ ":" ++ toString (mtlsPort ctx) ++ "/ws?server-key=" ++ grokSecret

def shellQuote (s : String) : String := String.ofList (Shell.quote s.toList)

def givenSecret (grokSecret : Option String) : Option String := grokSecret.filter (· ≠ "")

def endpointArgument (ctx : StepContext) (grokSecret : Option String) : Option String :=
  if ctx.mtlsEnabled then some (mtlsAgentEndpoint ctx (grokSecret.getD "")) else none

def pushOption (cmd flag : String) : Option String → String
  | some text => cmd ++ (flag ++ text)
  | none => cmd

def buildJoinCommand (ctx : StepContext) (grokSecret : Option String) : String :=
  let cmd := "sudo " ++ REMOTE_BIN_PATH ++ " join --token-file - --orchestrator-url " ++
    shellQuote ctx.orchestratorUrl ++ " --name " ++ shellQuote ctx.workerName ++
    " --config-out " ++ shellQuote REMOTE_CONFIG_PATH
  let cmd := pushOption cmd " --grok-secret " ((givenSecret grokSecret).map shellQuote)
  let cmd := pushOption cmd " --agent-endpoint " ((endpointArgument ctx grokSecret).map shellQuote)
  let cmd := pushOption cmd " --max-concurrent-tasks " (ctx.maxConcurrentTasks.map toString)
  pushOption cmd " --labels " (ctx.labels.argument.map shellQuote)

def flagged (flag : String) : Option String → List String
  | some value => [flag, value]
  | none => []

/-- The arguments that the command is for. -/
def joinArguments (ctx : StepContext) (grokSecret : Option String) : List String :=
  ["sudo", REMOTE_BIN_PATH, "join", "--token-file", "-", "--orchestrator-url", ctx.orchestratorUrl,
    "--name", ctx.workerName, "--config-out", REMOTE_CONFIG_PATH] ++
  flagged "--grok-secret" (givenSecret grokSecret) ++
  flagged "--agent-endpoint" (endpointArgument ctx grokSecret) ++
  flagged "--max-concurrent-tasks" (ctx.maxConcurrentTasks.map toString) ++
  flagged "--labels" ctx.labels.argument

/-- What the command is made of besides its own words. -/
def joinFields (ctx : StepContext) (grokSecret : Option String) : List String :=
  [ctx.orchestratorUrl, ctx.workerName] ++ (givenSecret grokSecret).toList ++
  (if ctx.mtlsEnabled then [mtlsHost ctx, toString (mtlsPort ctx), grokSecret.getD ""] else []) ++
  (ctx.maxConcurrentTasks.map toString).toList ++ ctx.labels.rows.flatMap fun r => [r.1, r.2]

inductive StepError where
  | ssh (e : String)
  | remoteExit (code : ℤ) (stderr : String)
  deriving DecidableEq

/-- A command on the remote host, with what it is given to read, or checked for its exit code. -/
inductive RemoteOp where
  | execWithStdin (command stdin : String)
  | execChecked (command : String)

def RemoteOp.command : RemoteOp → String
  | execWithStdin command _ => command
  | execChecked command => command

/-- What the command printed, and its exit code. -/
abbrev Answer := Except StepError (String × ℤ)

abbrev Remote (α : Type) := Prog RemoteOp (fun _ => Answer) α

def isNameConflict (output : String) : Bool :=
  "409".toList <:+: output.toList || "already exists".toList <:+: output.toList

def performJoin (ctx : StepContext) (token : String) (grokSecret : Option String) :
    Remote (Except StepError String) := do
  match ← Prog.perform (.execWithStdin (buildJoinCommand ctx grokSecret) token) with
  | .error e => return .error e
  | .ok (output, code) =>
    if code ≠ 0 then
      if isNameConflict output then
        return .error (.remoteExit code ("worker '" ++ ctx.workerName ++
          "' already exists on the orchestrator — join does not re-register (register happens " ++
          "once per name; resolve the name conflict or reuse the existing worker's credentials " ++
          "instead): " ++ trim output))
      else return .error (.remoteExit code output)
    else
      match ← Prog.perform (.execChecked ("sudo chmod 600 " ++ REMOTE_CONFIG_PATH)) with
      | .error e => return .error e
      | .ok _ =>
        return .ok ("worker '" ++ ctx.workerName ++ "' joined via bootstrap token — config written to " ++
          REMOTE_CONFIG_PATH)

/-- Two programs that send the same commands and come to the same end, whatever is answered. -/
def SameCommands {α : Type} : Remote α → Remote α → Prop
  | .ret a, .ret b => a = b
  | .call op k, .call op' k' => op.command = op'.command ∧ ∀ r : Answer, SameCommands (k r) (k' r)
  | _, _ => False

section Command

variable {ctx : StepContext} {grokSecret : Option String} {cmd : String} {args : List String}

theorem isPlain_digit {c : Char} (h : c.isDigit = true) : Shell.isPlain c = true := by
  obtain ⟨hlow, hhigh⟩ := Char.isDigit_iff_toNat.mp h
  have hc : c = Char.ofNat c.toNat := (Char.ofNat_toNat c).symm
  change 48 ≤ c.toNat at hlow
  change c.toNat ≤ 57 at hhigh
  generalize c.toNat = n at hlow hhigh hc
  subst hc
  interval_cases n <;> decide

/-- The texts of a command, blanks between them, and the arguments they are read as. -/
def Reads (cmd : String) (args : List String) : Prop :=
  ∃ text texts arg rest, cmd.toList = text ++ texts.flatMap (' ' :: ·) ∧
    args.map String.toList = arg :: rest ∧ Shell.Shows text arg ∧
    List.Forall₂ Shell.Shows texts rest

theorem Reads.lex (h : Reads cmd args) :
    Shell.lex .bare none cmd.toList = some (args.map fun a => Shell.argument a.toList) := by
  obtain ⟨text, texts, arg, rest, hcmd, hargs, hfirst, hrest⟩ := h
  rw [hcmd, Shell.lex_command hfirst hrest, ← hargs, List.map_map]
  rfl

theorem Reads.more {text arg : String} (h : Reads cmd args)
    (hs : Shell.Shows text.toList arg.toList) : Reads (cmd ++ (" " ++ text)) (args ++ [arg]) := by
  obtain ⟨first, texts, farg, rest, hcmd, hargs, hfirst, hrest⟩ := h
  refine ⟨first, texts ++ [text.toList], farg, rest ++ [arg.toList], ?_, ?_, hfirst, ?_⟩
  · rw [String.toList_append, String.toList_append, hcmd]
    simp
  · rw [List.map_append, hargs]
    rfl
  · exact List.rel_append hrest (.cons hs .nil)

theorem Reads.option (h : Reads cmd args) (lit flag : String) {text arg : String}
    (hl : lit = " " ++ (flag ++ " ")) (hf : flag ≠ "" ∧ flag.toList.all Shell.isPlain = true)
    (hs : Shell.Shows text.toList arg.toList) :
    Reads (cmd ++ (lit ++ text)) (args ++ [flag, arg]) := by
  have hflag : Shell.Shows flag.toList flag.toList :=
    Shell.shows_plain hf.2 (mt String.toList_eq_nil_iff.mp hf.1)
  have heq : cmd ++ (lit ++ text) = cmd ++ (" " ++ flag) ++ (" " ++ text) := by
    rw [hl]
    simp only [String.append_assoc]
  have hargs : args ++ [flag, arg] = args ++ [flag] ++ [arg] := by simp
  rw [heq, hargs]
  exact (h.more hflag).more hs

theorem Reads.pushed {α : Type} {text arg : α → String} (h : Reads cmd args) (lit flag : String)
    (x : Option α) (hl : lit = " " ++ (flag ++ " "))
    (hf : flag ≠ "" ∧ flag.toList.all Shell.isPlain = true)
    (hs : ∀ a, Shell.Shows (text a).toList (arg a).toList) :
    Reads (pushOption cmd lit (x.map text)) (args ++ flagged flag (x.map arg)) := by
  cases x with
  | none =>
    rw [Option.map_none, Option.map_none, flagged, List.append_nil]
    exact h
  | some a => exact h.option lit flag hl hf (hs a)

theorem shows_shellQuote (s : String) : Shell.Shows (shellQuote s).toList s.toList := by
  rw [shellQuote, String.toList_ofList]
  exact Shell.shows_quote _

theorem shows_decimal (n : ℕ) : Shell.Shows (toString n).toList (toString n).toList := by
  have htext : (toString n).toList = Nat.toDigits 10 n := by
    change (String.ofList (Nat.toDigits 10 n)).toList = _
    exact String.toList_ofList
  rw [htext]
  apply Shell.shows_plain
  · rw [List.all_eq_true]
    intro c hc
    exact isPlain_digit (Nat.isDigit_of_mem_toDigits (by omega) (by omega) hc)
  · exact Nat.toDigits_ne_nil

theorem reads_join : Reads ("sudo " ++ REMOTE_BIN_PATH ++ " join --token-file -")
    ["sudo", REMOTE_BIN_PATH, "join", "--token-file", "-"] := by
  refine ⟨"sudo".toList, [REMOTE_BIN_PATH.toList, "join".toList, "--token-file".toList, "-".toList],
    _, _, by decide, rfl, ?_, ?_⟩
  · exact Shell.shows_plain (by decide) (by decide +kernel)
  · refine .cons ?_ (.cons ?_ (.cons ?_ (.cons ?_ .nil)))
    all_goals exact Shell.shows_plain (by decide) (by decide +kernel)

theorem reads_buildJoinCommand :
    Reads (buildJoinCommand ctx grokSecret) (joinArguments ctx grokSecret) := by
  have hbase : "sudo " ++ REMOTE_BIN_PATH ++ " join --token-file - --orchestrator-url " ++
      shellQuote ctx.orchestratorUrl ++ " --name " ++ shellQuote ctx.workerName ++
      " --config-out " ++ shellQuote REMOTE_CONFIG_PATH =
      "sudo " ++ REMOTE_BIN_PATH ++ " join --token-file -" ++
        (" --orchestrator-url " ++ shellQuote ctx.orchestratorUrl) ++
        (" --name " ++ shellQuote ctx.workerName) ++
        (" --config-out " ++ shellQuote REMOTE_CONFIG_PATH) := by
    have hlit : " join --token-file - --orchestrator-url " =
        " join --token-file -" ++ " --orchestrator-url " := by decide
    rw [hlit]
    simp only [String.append_assoc]
  have hurl := reads_join.option " --orchestrator-url " "--orchestrator-url" (by decide)
    (by decide) (shows_shellQuote ctx.orchestratorUrl)
  have hname := hurl.option " --name " "--name" (by decide) (by decide +kernel)
    (shows_shellQuote ctx.workerName)
  have hout := hname.option " --config-out " "--config-out" (by decide) (by decide +kernel)
    (shows_shellQuote REMOTE_CONFIG_PATH)
  rw [← hbase] at hout
  have hsecret := hout.pushed " --grok-secret " "--grok-secret" (givenSecret grokSecret)
    (by decide) (by decide +kernel) shows_shellQuote
  have hendpoint := hsecret.pushed " --agent-endpoint " "--agent-endpoint"
    (endpointArgument ctx grokSecret) (by decide) (by decide +kernel) shows_shellQuote
  have hmax := hendpoint.pushed " --max-concurrent-tasks " "--max-concurrent-tasks"
    ctx.maxConcurrentTasks (by decide) (by decide +kernel) shows_decimal
  have hlabels := hmax.pushed " --labels " "--labels" ctx.labels.argument (by decide)
    (by decide) shows_shellQuote
  simpa [buildJoinCommand, joinArguments] using hlabels

theorem mem_flagged {flag value : String} {x : Option String} (h : x = some value) :
    value ∈ flagged flag x := by
  rw [h]
  exact .tail _ (.head _)

theorem endpoint_holds {part : String} (secret : String)
    (h : part ∈ [mtlsHost ctx, toString (mtlsPort ctx), secret]) :
    part.toList <:+: (mtlsAgentEndpoint ctx secret).toList := by
  simp only [mtlsAgentEndpoint, String.toList_append]
  simp only [List.mem_cons, List.not_mem_nil, or_false] at h
  rcases h with rfl | rfl | rfl
  · exact ⟨"wss://".toList, _, by simp only [List.append_assoc]; rfl⟩
  · exact ⟨"wss://".toList ++ (mtlsHost ctx).toList ++ ":".toList, _, by
      simp only [List.append_assoc]; rfl⟩
  · exact (List.suffix_append _ _).isInfix

/-- Every field arrives within one argument, character by character. -/
theorem field_arrives {field : String} (h : field ∈ joinFields ctx grokSecret) :
    ∃ arg ∈ joinArguments ctx grokSecret, field.toList <:+: arg.toList := by
  simp only [joinFields, List.mem_append, List.mem_flatMap, Option.mem_toList] at h
  rcases h with (((h | h) | h) | h) | ⟨r, hr, h⟩
  · refine ⟨field, ?_, List.infix_rfl⟩
    simp only [joinArguments, List.mem_append]
    refine .inl (.inl (.inl (.inl ?_)))
    rcases List.mem_pair.mp h with rfl | rfl <;> simp
  · refine ⟨field, ?_, List.infix_rfl⟩
    simp only [joinArguments, List.mem_append]
    exact .inl (.inl (.inl (.inr (mem_flagged h))))
  · split at h
    · next hm =>
      refine ⟨mtlsAgentEndpoint ctx (grokSecret.getD ""), ?_, endpoint_holds _ h⟩
      simp only [joinArguments, List.mem_append]
      exact .inl (.inl (.inr (mem_flagged (if_pos hm))))
    · cases h
  · refine ⟨field, ?_, List.infix_rfl⟩
    simp only [joinArguments, List.mem_append]
    exact .inl (.inr (mem_flagged h))
  · have hne : ctx.labels.rows ≠ [] := List.ne_nil_of_mem hr
    refine ⟨ctx.labels.joined, ?_, ?_⟩
    · simp only [joinArguments, List.mem_append]
      exact .inr (mem_flagged (argument_some hne))
    · refine List.IsInfix.trans ?_ (pair_joined hr)
      rcases List.mem_pair.mp h with rfl | rfl
      · exact (List.prefix_append _ _).isInfix
      · exact (List.suffix_append_of_suffix (List.suffix_cons _ _)).isInfix

theorem performJoin_sameCommands (token token' : String) :
    SameCommands (performJoin ctx token grokSecret) (performJoin ctx token' grokSecret) := by
  refine ⟨rfl, fun r => ?_⟩
  cases r with
  | error e => rfl
  | ok answer =>
    dsimp only [Prog.bind]
    split_ifs
    · rfl
    · rfl
    · refine ⟨rfl, fun r => ?_⟩
      cases r <;> rfl

end Command

/-- The remote shell reads the command as the arguments that it is for, and it says nothing of the
token. -/
theorem join_command_read (ctx : StepContext) (grokSecret : Option String) :
    Shell.lex .bare none (buildJoinCommand ctx grokSecret).toList =
      some ((joinArguments ctx grokSecret).map fun a => Shell.argument a.toList) ∧
    (∀ field ∈ joinFields ctx grokSecret,
      ∃ arg ∈ joinArguments ctx grokSecret, field.toList <:+: arg.toList) ∧
    ∀ token token', SameCommands (performJoin ctx token grokSecret)
      (performJoin ctx token' grokSecret) :=
  ⟨reads_buildJoinCommand.lex, fun _ => field_arrives, performJoin_sameCommands⟩

end FleetOrchestrator.Provision
