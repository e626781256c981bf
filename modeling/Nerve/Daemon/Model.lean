import Nerve.Daemon.Task
import Nerve.Run.Gate
import Nerve.Library.Json
import Nerve.Library.TransitionSystem

/-!
# The RPC daemon

The operator's lines are commands as JSON: a `prompt` starts a run and does not wait for it,
`approve` and `cancel` set the flags of runs that are not finished, and the others read and write
the store, or plan. At the end of the input, or after one line with `--once`, the daemon waits for
the runs in its registry, and removes the file with the bearer token if nobody else holds the bus.

The read loop is a dialogue whose operations are the points at which the tasks of the runs can come
between: `daemonStep` is one operation of the loop, or one step of one run. When the loop is over
the runtime is dropped and nothing can happen any more. The daemon begins here when its bus is open
and the token is in its file. What lies in files and where, the order of a hash map, and what the
commands on the store come to are the world's answers; the reader of JSON is a parameter.
-/

namespace Nerve.Daemon

open Nerve Nerve.Patch Nerve.Run Nerve.Session Dialogue

/-! ### Commands -/

/-- A command on the store, or a plan. -/
inductive Request where
  | plan (prompt : String) (dualReview : Bool)
  | dispatchPlan (planId : String) (maxSteps budgetMicrousd : Option Nat)
  | status
  | history
  | resume (sessionId : String)
  | listPatches
  | applyPatch (patchId : String)
  | rollbackPatch (patchId : String)
  deriving DecidableEq, Repr

inductive Command where
  | prompt (prompt : String)
  | approve (runId : String)
  | cancel (runId : String)
  | cancelAll
  | conductor
  | request (request : Request)
  deriving DecidableEq, Repr

def stringField (value : Json) (name : String) : Except RunError String :=
  match (value.get? name).bind Json.asString with
  | some s => .ok s
  | none => .error [s!"missing string field `{name}`"]

/-- The field `run_id`, or `session_id` if there is none of that name. -/
def runIdField (value : Json) (message : String) : Except RunError String :=
  match (value.get? "run_id" <|> value.get? "session_id").bind Json.asString with
  | some s => .ok s
  | none => .error [message]

/-- What a command checks of its line before it does anything. -/
def readCommand (value : Json) : Except RunError Command := do
  match ← stringField value "command" with
  | "prompt" => pure (.prompt (← stringField value "prompt"))
  | "approve" => pure (.approve (← runIdField value "missing string field `run_id`"))
  | "cancel" =>
    if ((value.get? "all").bind Json.asBool).getD false then pure .cancelAll
    else pure (.cancel (← runIdField value "missing string field `run_id` (or `all: true`)"))
  | "conductor" => pure .conductor
  | "status" => pure (.request .status)
  | "plan" =>
    let prompt ← stringField value "prompt"
    pure (.request (.plan prompt (((value.get? "dual_review").bind Json.asBool).getD false)))
  | "dispatch_plan" =>
    let planId ← stringField value "plan_id"
    pure (.request (.dispatchPlan planId ((value.get? "max_steps").bind Json.asU64)
      ((value.get? "budget_microusd").bind Json.asU64)))
  | "get_state" | "history" => pure (.request .history)
  | "resume" => pure (.request (.resume (← stringField value "session_id")))
  | "list_patches" => pure (.request .listPatches)
  | "apply_patch" => pure (.request (.applyPatch (← stringField value "patch_id")))
  | "rollback_patch" => pure (.request (.rollbackPatch (← stringField value "patch_id")))
  | other => .error [s!"unknown RPC command `{other}`"]

/-! ### Operations -/

inductive Op where
  /-- The next line of stdin. -/
  | nextLine (bytes : List UInt8)
  | println (line : Line)
  /-- What the rest of the machine has to say. -/
  | world
  /-- The order in which the map with these keys is gone through. -/
  | iterate (registry : List String)
  /-- The streamer and the task of a run. -/
  | spawn (call : LoopCall)
  | isFinished (runId : String)
  | setHandle (handle : Handle) (runId : String)
  | isCancelled (runId : String)
  /-- The record of an approval in the store. -/
  | recordApproval (runId : String)
  /-- The lines a command on the store prints. -/
  | serve (request : Request)
  | join (runId : String)
  /-- `Arc::try_unwrap`. -/
  | tryUnwrap
  | removeToken

abbrev Op.Answer : Op → Type
  | nextLine _ | println _ | spawn _ | setHandle _ _ | recordApproval _ | join _ => Unit
  | world => World
  | iterate _ => List String
  | isFinished _ | isCancelled _ | tryUnwrap => Bool
  | serve _ => Except RunError (List String)
  | removeToken => Except RunError Unit

abbrev DaemonM (α : Type) := Dialogue Op Op.Answer RunError α

abbrev Log := List (Exchange Op Op.Answer)

def perform (op : Op) : DaemonM op.Answer := Dialogue.query op

def println (line : Line) : DaemonM Unit := perform (.println line)

/-- The keys of the map of the runs that are tracked. -/
abbrev Registry := List String

/-! ### The read loop -/

/-- The daemon's arguments, and what other crates do for it. -/
structure Setup where
  readers : Readers
  externals : Externals
  /-- `serde_json::from_str`. -/
  parse : List Char → Except String Json
  apply : Bool
  once : Bool
  printToken : Bool
  bearer : String
  worktreeOverride : Option Bool

/-- `retain`, over the runs that are not finished. -/
def retainUnfinished : Registry → DaemonM Registry
  | [] => pure []
  | id :: ids => do
    let finished ← perform (.isFinished id)
    let rest ← retainUnfinished ids
    pure (if finished then rest else id :: rest)

/-- `grant_in_flight` and `cancel_in_flight`. -/
def setInFlight (handle : Handle) (registry : Registry) (runId : String) : DaemonM Bool :=
  if registry.contains runId then do
    let finished ← perform (.isFinished runId)
    if finished then pure false
    else do
      perform (.setHandle handle runId)
      pure true
  else pure false

def grantInFlight (registry : Registry) (runId : String) : DaemonM Bool := setInFlight .consent registry runId

def cancelInFlight (registry : Registry) (runId : String) : DaemonM Bool := setInFlight .cancel registry runId

/-- The runs that are counted. -/
def cancelAllInFlight : Registry → DaemonM (List String)
  | [] => pure []
  | id :: ids => do
    let finished ← perform (.isFinished id)
    if finished then cancelAllInFlight ids
    else do
      perform (.setHandle .cancel id)
      let counted ← cancelAllInFlight ids
      pure (id :: counted)

def printRuns : Registry → DaemonM Unit
  | [] => pure ()
  | id :: ids => do
    let cancelled ← perform (.isCancelled id)
    println (.conductorRun id cancelled)
    printRuns ids

def printServed : List String → DaemonM Unit
  | [] => pure ()
  | text :: texts => do
    println (.served text)
    printServed texts

section Loop

variable (D : Setup)

def daemonOptions : RunOptions :=
  let options := { newOptions D.apply with applyGrant := true, cancelToken := true }
  match D.worktreeOverride with
  | some on => { options with worktree := some on }
  | none => options

def spawnStreamingRun (prompt : String) (registry : Registry) : DaemonM Registry := do
  let w ← perform .world
  let cwd ← ofExcept (context "failed to read current directory" w.currentDir)
  let loaded ← ofExcept (loadFrom D.readers w cwd)
  let task : Task := ⟨w.taskId 0, prompt, cwd, w.collectContextPaths prompt cwd⟩
  let selection ← ofExcept (loaded.config.selectProfile D.externals.ruleMatches task)
  println (.sessionStarted task.id task.prompt selection.lead selection.reviewer)
  perform (.spawn ⟨task, loaded.config, adapterIds, daemonOptions D⟩)
  let ids ← perform (.iterate registry)
  let registry ← retainUnfinished ids
  pure (task.id :: registry)

def runCommand (registry : Registry) : Command → DaemonM Registry
  | .prompt prompt => spawnStreamingRun D prompt registry
  | .approve runId => do
    let granted ← grantInFlight registry runId
    if granted then do
      let w ← perform .world
      let _ ← ofExcept (context "failed to read current directory" w.currentDir)
      perform (.recordApproval runId)
      println (.approveAck runId true)
      pure registry
    else do
      println (.approveAck runId false)
      pure registry
  | .cancel runId => do
    let cancelled ← cancelInFlight registry runId
    println (.cancelAck runId cancelled)
    pure registry
  | .cancelAll => do
    let ids ← perform (.iterate registry)
    let counted ← cancelAllInFlight ids
    println (.cancelAllAck counted)
    pure registry
  | .conductor => do
    let ids ← perform (.iterate registry)
    let registry ← retainUnfinished ids
    printRuns registry
    println (.conductorEnd registry.length)
    pure registry
  | .request request => do
    let answer ← perform (.serve request)
    let lines ← ofExcept answer
    printServed lines
    pure registry

def handleRpcCommand (value : Json) (registry : Registry) : DaemonM Registry := do
  let command ← ofExcept (readCommand value)
  runCommand D registry command

/-- A line as text. -/
def decode (line : List UInt8) : Option (List Char) := (String.fromUTF8? ⟨line.toArray⟩).map String.toList

/-- The command on a line. -/
def commandOf (line : List UInt8) : Option Command := do
  let text ← decode line
  let value ← (D.parse (Text.trim text)).toOption
  (readCommand value).toOption

/-- What a line of text comes to; a command that fails leaves the registry as it was. -/
def handleLine (line : List Char) (registry : Registry) : DaemonM Registry :=
  match D.parse line with
  | .error e => do
    println (.error s!"invalid JSON: {e}")
    pure registry
  | .ok value => do
    match ← (handleRpcCommand D value registry).attempt with
    | .ok registry => pure registry
    | .error e => do
      println (.error (e.headD ""))
      pure registry

def readLoop : List (List UInt8) → Registry → DaemonM Registry
  | [], registry => pure registry
  | line :: lines, registry => do
    perform (.nextLine line)
    match decode line with
    | none => .fail ["stream did not contain valid UTF-8"]
    | some text =>
      let line := Text.trim text
      if line.isEmpty then readLoop lines registry
      else do
        let registry ← handleLine D line registry
        if D.once then pure registry else readLoop lines registry

def awaitAll : List String → DaemonM Unit
  | [] => pure ()
  | id :: ids => do
    perform (.join id)
    awaitAll ids

/-- The drain and the removal of the token. -/
def shutdown (registry : Registry) : DaemonM Unit := do
  let handles ← perform (.iterate registry)
  awaitAll handles
  let reclaimed ← perform .tryUnwrap
  if reclaimed then (do ofExcept (← perform .removeToken)).mapError ("rpc bus shutdown failed" :: ·)
  else pure ()

def printBearer : DaemonM Unit := if D.printToken then println (.rpcToken D.bearer) else pure ()

def runRpcDaemon (lines : List (List UInt8)) : DaemonM Unit := do
  printBearer D
  let registry ← readLoop D lines []
  shutdown registry

end Loop

/-- The lines of stdin, without their ends. -/
def stdinLines (bytes : List UInt8) : List (List UInt8) :=
  let parts := bytes.splitOn 0x0a
  let ended := parts.dropLast.map fun line => if line.getLast? = some 0x0d then line.dropLast else line
  ended ++ (parts.getLast?.filter fun line => !line.isEmpty).toList

/-! ### The system -/

/-- What the read loop and the runs share. -/
structure Shared where
  /-- The runs, by their identifiers. -/
  runs : String → Option Run
  spawned : List String
  stdout : List Line
  /-- The file with the bearer token is there. -/
  token : Bool

namespace Shared

variable (s : Shared)

def setRun (runId : String) (run : Run) : Shared := { s with runs := Function.update s.runs runId (some run) }

def modifyRun (runId : String) (f : Run → Run) : Shared :=
  match s.runs runId with
  | some run => s.setRun runId (f run)
  | none => s

def say (line : Line) : Shared := { s with stdout := s.stdout ++ [line] }

def spawn (D : Setup) (call : LoopCall) : Shared :=
  { s.setRun call.task.id (.spawn D.externals call) with spawned := s.spawned ++ [call.task.id] }

/-- Nobody but the read loop holds the bus. -/
def busFree : Bool := s.spawned.all fun id => (s.runs id).all Run.isOver

/-- What an operation gives and what it does, if it is possible now. The identifiers of tasks are fresh. -/
def perform (D : Setup) (world : (op : Op) → op.Answer) : (op : Op) → Option (op.Answer × Shared)
  | .nextLine _ | .recordApproval _ => some ((), s)
  | .println line => some ((), s.say line)
  | .world => if (world .world).taskId 0 ∈ s.spawned then none else some (world .world, s)
  | .iterate registry =>
    if (world (.iterate registry)).Perm registry then some (world (.iterate registry), s) else none
  | .spawn call => some ((), s.spawn D call)
  | .isFinished runId => some ((s.runs runId).any Run.isFinished, s)
  | .setHandle handle runId => some ((), s.modifyRun runId (Run.setHandle handle))
  | .isCancelled runId => some ((s.runs runId).any Run.cancel, s)
  | .serve request => some (world (.serve request), s)
  | .join runId => if (s.runs runId).any Run.isFinished then some ((), s) else none
  | .tryUnwrap => some (s.busFree, s)
  | .removeToken => some (world .removeToken, { s with token := s.token && (world .removeToken).toBool.not })

/-- A step of a run, and its line. -/
def runStep (runId : String) (action : RunAction) : Option Shared :=
  match s.runs runId with
  | some run => (run.step action).map fun r => r.2.elim (s.setRun runId r.1) (s.setRun runId r.1).say
  | none => none

end Shared

structure State where
  /-- What the read loop has still to do. -/
  main : DaemonM Unit
  /-- What it has done. -/
  log : Log
  shared : Shared

def start (D : Setup) (stdin : List UInt8) : State where
  main := runRpcDaemon D (stdinLines stdin)
  log := []
  shared := ⟨fun _ => none, [], [], true⟩

/-- What `run_rpc_daemon` has returned. -/
def State.result? (s : State) : Option (Except RunError Unit) :=
  match s.main with
  | .done _ => some (.ok ())
  | .fail e => some (.error e)
  | .ask _ _ => none

/-- The read loop is over, and the runtime is gone. -/
def State.returned (s : State) : Bool := s.result?.isSome

inductive Action where
  /-- An operation of the read loop; what the world answers is given. -/
  | main (world : (op : Op) → op.Answer)
  | run (runId : String) (action : RunAction)

def daemonStep (D : Setup) (s : State) : Action → Option State
  | .main world =>
    match s.main with
    | .ask op next => (s.shared.perform D world op).map fun r => ⟨next r.1, s.log ++ [⟨op, r.1⟩], r.2⟩
    | _ => none
  | .run runId action =>
    if s.returned then none else (s.shared.runStep runId action).map fun shared => { s with shared := shared }

/-! ### A daemon -/

/-- The machine of the sample daemon: no files, one fresh identifier. -/
def sampleMachine : World where
  files _ := none
  home := none
  userProfile := none
  currentDir := .ok ⟨"/work"⟩
  setCurrentDir _ := .ok ()
  taskId _ := "run"
  collectContextPaths _ _ := []
  raiseAnswer _ := ""
  appendBudgetAuditEntry _ _ _ _ := .ok ()
  tempDir := ⟨"/tmp"⟩
  iterationsBegun := 0
  now := "now"
  stdinIsTerminal := false
  convert _ := .error ["not converted"]
  confirmGoalIntent := .ok false
  appendGoalHistory := .ok ()
  writeActiveGoal _ := .ok ()

/-- A daemon that was started with `--apply`, in a directory without a configuration. -/
def sampleSetup : Setup where
  readers := ⟨fun _ => .error ["not read"], fun _ => .error ["not read"], .ok ⟨sampleConfig .reviewerBlock, [], none, none⟩⟩
  externals := sampleExternals
  parse text :=
    match Json.read text with
    | some (value, []) => .ok value
    | _ => .error "expected value"
  apply := true
  once := false
  printToken := false
  bearer := "00"
  worktreeOverride := none

/-- Every map is gone through in its order, and the file is removed. -/
def sampleAnswers : (op : Op) → op.Answer
  | .nextLine _ | .println _ | .spawn _ | .setHandle _ _ | .recordApproval _ | .join _ => ()
  | .world => sampleMachine
  | .iterate registry => registry
  | .isFinished _ | .isCancelled _ | .tryUnwrap => false
  | .serve _ => .ok []
  | .removeToken => .ok ()

def samplePrompt : String := "\x7b\"command\":\"prompt\",\"prompt\":\"add a file\"\x7d\n"

end Nerve.Daemon
