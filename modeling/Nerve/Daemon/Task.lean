import Nerve.Library.Protocol
import Nerve.Patch.ParseDiff
import Nerve.Run.Seams
import Nerve.Session.Interactive

/-!
# A run in the daemon

What `spawn_streaming_run` sets going: the task of the run, which drives the loop, waits for the
streamer and prints the terminal lines, and the streamer, which prints two lines for each round that
comes through the channel. The operator's two handles are flags that the task reads when the loop
asks for them.

A `Run` is the state of all that. The loop is a dialogue that goes on exchange by exchange; the
world answers what is neither a handle nor a record. An adapter can reply with a diff at which the
reader of diffs panics (`panics`): then the task is over, and what is in the channel is still
streamed. The events the adapters streamed come with the report, since the loop leaves them out.
Lines that go to subscribers of the bus are not modelled.
-/

namespace Nerve.Daemon

open Nerve Nerve.Patch Nerve.Run Nerve.Session Dialogue

/-! ### Lines -/

/-- A line on stdout. -/
inductive Line where
  | rpcToken (bearer : String)
  | error (message : String)
  /-- `session.started`. -/
  | sessionStarted (sessionId prompt lead reviewer : String)
  /-- `round.started`. -/
  | roundStarted (sessionId : String) (round : Nat)
  /-- `round.ended`. -/
  | roundEnded (sessionId : String) (round : Nat) (verdict : Verdict) (check : Option CheckResult)
  | runError (sessionId message : String)
  | legacySessionStart (sessionId prompt : String) (profile : Option String) (lead reviewer : String)
  | leadStart (sessionId agentId : String)
  | leadEvent (sessionId : String) (event : AgentEvent)
  | reviewStart (sessionId agentId : String)
  | reviewEvent (sessionId : String) (verdict : Verdict) (message : String)
  | patchReady (sessionId : String) (patchId : Option String) (files : Nat) (blocked : Bool)
  | applyResult (sessionId : String) (applied : Bool)
  /-- `lead.stdout` or `reviewer.stdout`, which name no run. -/
  | agentStdout (isLead : Bool) (agentId chunk : String)
  /-- `budget.changed`. -/
  | budgetChanged (sessionId : String) (usage : UsageStats) (budgetExceeded : Bool)
  /-- `patch.applied` or `patch.discarded`. -/
  | patchSettled (applied : Bool) (sessionId patchId : String) (files : Nat) (blocked : Bool)
  /-- `session.ended`. -/
  | sessionEnded (sessionId : String) (verdict : Verdict) (applied blocked crossfireHalted cancelled applyDowngraded : Bool)
      (patchId : Option String)
  | legacySessionEnd (sessionId : String) (verdict : Verdict) (applied blocked : Bool) (patchId : Option String)
  | approveAck (runId : String) (granted : Bool)
  | cancelAck (runId : String) (cancelled : Bool)
  /-- The line shows only how many were counted. -/
  | cancelAllAck (counted : List String)
  | conductorRun (runId : String) (cancelled : Bool)
  | conductorEnd (live : Nat)
  /-- A line of a command that reads and writes the store, or plans. -/
  | served (text : String)
  deriving DecidableEq, Repr

/-- The run a line names. -/
def Line.runId : Line → Option String
  | sessionStarted id _ _ _ | roundStarted id _ | roundEnded id _ _ _ | runError id _ | legacySessionStart id _ _ _ _
  | leadStart id _ | leadEvent id _ | reviewStart id _ | reviewEvent id _ _ | patchReady id _ _ _ | applyResult id _
  | budgetChanged id _ _ | patchSettled _ id _ _ _ | sessionEnded id _ _ _ _ _ _ _ | legacySessionEnd id _ _ _ _
  | approveAck id _ | cancelAck id _ | conductorRun id _ => some id
  | rpcToken _ | error _ | agentStdout _ _ _ | cancelAllAck _ | conductorEnd _ | served _ => none

def Line.isSessionEnded : Line → Bool
  | sessionEnded _ _ _ _ _ _ _ _ => true
  | _ => false

/-- `session.ended`, or the error line. -/
def Line.isTerminal : Line → Bool
  | sessionEnded _ _ _ _ _ _ _ _ | runError _ _ => true
  | _ => false

/-! ### Terminal lines -/

def roundSeamEnvelopes (sessionId : String) (round : RoundRecord) : Line × Line :=
  (.roundStarted sessionId round.round,
    .roundEnded sessionId round.round round.reviewer.verdict round.checkResult)

def agentEventToEnvelopes (event : AgentEvent) (leadId : String) : List Line :=
  match event with
  | .stdout agentId line | .stderr agentId line => [.agentStdout (agentId == leadId) agentId line]
  | .tool agentId call => [.agentStdout (agentId == leadId) agentId s!"tool:{call.name} {call.arguments}"]
  | .done _ => []

def applyDowngraded (report : RunReport) : Bool := report.applyClassification.any ApplyClassification.downgraded

section Terminal

variable (report : RunReport) (events : List AgentEvent)

def patchId : Option String := report.finalPatch.map NvPatch.id

def emitReportEvents : List Line :=
  let id := report.task.id
  [.legacySessionStart id report.task.prompt report.selection.id report.selection.lead report.selection.reviewer,
    .leadStart id report.finalOutput.agentId] ++
  events.map (.leadEvent id) ++
  [.reviewStart id report.finalFeedback.reviewerId,
    .reviewEvent id report.finalFeedback.verdict report.finalFeedback.rawText,
    .patchReady id (patchId report) (report.finalPatch.elim 0 fun p => p.files.length) report.blocked,
    .applyResult id report.applied]

def emitTerminalEnvelopes : List Line :=
  let id := report.task.id
  emitReportEvents report events ++
  events.flatMap (agentEventToEnvelopes · report.selection.lead) ++
  [.budgetChanged id report.usage report.budgetExceeded] ++
  (report.finalPatch.map fun p => .patchSettled report.applied id p.id p.files.length report.blocked).toList ++
  [.sessionEnded id report.finalFeedback.verdict report.applied report.blocked report.crossfireHalted report.cancelled
      (applyDowngraded report) (patchId report),
    .legacySessionEnd id report.finalFeedback.verdict report.applied report.blocked (patchId report)]

end Terminal

/-- What a run ends with: the terminal envelopes, or an error line. -/
def terminalLines (sessionId : String) (events : List AgentEvent) : Except RunError RunReport → List Line
  | .ok report => emitTerminalEnvelopes report events
  | .error e => [.runError sessionId (e.headD "")]

/-! ### The state -/

/-- How far the task is. -/
inductive Phase where
  /-- In the loop. -/
  | looping (rest : RunM RunReport)
  /-- Waiting for the streamer. -/
  | flushing (outcome : Except RunError RunReport)
  /-- Printing the terminal lines. -/
  | printing (outcome : Except RunError RunReport) (events : List AgentEvent) (rest : List Line)
  | finished (outcome : Except RunError RunReport) (events : List AgentEvent)
  /-- Over without a word, at this diff. -/
  | panicked (diff : String)

inductive Streamer where
  /-- At the channel. -/
  | waiting
  /-- Between the two lines of a round. -/
  | ending (round : RoundRecord)
  /-- Over, the channel being closed and empty. -/
  | closed
  deriving DecidableEq, Repr

/-- The operator's two handles on a run. -/
inductive Handle where
  | consent
  | cancel
  deriving DecidableEq, Repr

structure Run where
  call : LoopCall
  phase : Phase
  streamer : Streamer
  /-- The channel. -/
  queue : List RoundRecord
  consent : Bool
  cancel : Bool
  /-- The report that was saved. -/
  persisted : Option RunReport
  /-- The exchanges of the loop so far. -/
  trace : Trace
  /-- The lines the task and the streamer have printed. -/
  printed : List Line

/-- What the task drives. -/
def loop (X : Externals) (call : LoopCall) : RunM RunReport :=
  runSynapticLoop X call.task call.config call.adapters call.options

def Phase.isLooping : Phase → Bool
  | looping _ => true
  | _ => false

def Phase.diff? : Phase → Option String
  | panicked diff => some diff
  | _ => none

/-- What the task has come to, once it has. -/
def Phase.outcome? : Phase → Option (Except RunError RunReport)
  | flushing outcome | printing outcome _ _ | finished outcome _ => some outcome
  | looping _ | panicked _ => none

namespace Run

def spawn (X : Externals) (call : LoopCall) : Run where
  call := call
  phase := .looping (loop X call)
  streamer := .waiting
  queue := []
  consent := false
  cancel := false
  persisted := none
  trace := []
  printed := []

/-- `JoinHandle::is_finished`. -/
def isFinished (run : Run) : Bool :=
  match run.phase with
  | .finished _ _ | .panicked _ => true
  | _ => false

/-- `ApplyConsent::grant` and `CancelToken::cancel`. -/
def setHandle (handle : Handle) (run : Run) : Run :=
  match handle with
  | .consent => { run with consent := true }
  | .cancel => { run with cancel := true }

/-- Neither the task nor the streamer is there any more. -/
def isOver (run : Run) : Bool := run.isFinished && run.streamer == .closed

end Run

/-! ### Steps -/

/-- The reader of diffs panics. -/
def panics (diff : String) : Bool :=
  match parseFileDiffs diff with
  | .error .panic => true
  | _ => false

/-- The adapter's reply is read for a diff. -/
def readsDiff : Question → Bool
  | .implement _ | .refine _ _ _ | .review _ _ _ | .crossfire _ _ _ => true
  | _ => false

inductive RunAction where
  /-- The task goes on in its loop; what the world answers is given. -/
  | advance (world : (q : Question) → q.Answer)
  /-- The task panics at the diff in a reply. -/
  | panic (diff : String)
  /-- A step of the streamer. -/
  | stream
  /-- The streamer is over, and the task goes on; with the events of the report, and whether it is saved. -/
  | conclude (events : List AgentEvent) (saved : Bool)
  /-- The task prints its next line, or is over. -/
  | print

namespace Run

variable (run : Run)

/-- The answer to a question of the loop: the handles are the daemon's. -/
def answer (world : (q : Question) → q.Answer) : (q : Question) → q.Answer
  | .isCancelled => run.cancel
  | .isGranted => run.consent
  | q => world q

def advance (world : (q : Question) → q.Answer) : Option (Run × Option Line) :=
  match run.phase with
  | .looping (.ask q next) =>
    let a := run.answer world q
    some ({ run with
      phase := .looping (next a)
      trace := run.trace ++ [⟨q, a⟩]
      queue := run.queue ++ recorded [⟨q, a⟩] }, none)
  | .looping (.done report) => some ({ run with phase := .flushing (.ok report) }, none)
  | .looping (.fail e) => some ({ run with phase := .flushing (.error e) }, none)
  | _ => none

def panic (diff : String) : Option (Run × Option Line) :=
  match run.phase with
  | .looping (.ask q _) =>
    if readsDiff q && panics diff then some ({ run with phase := .panicked diff }, none) else none
  | _ => none

/-- Print a line. -/
def say (line : Line) : Run := { run with printed := run.printed ++ [line] }

def stream : Option (Run × Option Line) :=
  let id := run.call.task.id
  match run.streamer, run.queue with
  | .waiting, round :: rest =>
    let started := (roundSeamEnvelopes id round).1
    some ({ run.say started with streamer := .ending round, queue := rest }, some started)
  | .waiting, [] =>
    -- The observer is released with the loop.
    if run.phase.isLooping then none else some ({ run with streamer := .closed }, none)
  | .ending round, _ =>
    let ended := (roundSeamEnvelopes id round).2
    some ({ run.say ended with streamer := .waiting }, some ended)
  | .closed, _ => none

def conclude (events : List AgentEvent) (saved : Bool) : Option (Run × Option Line) :=
  match run.phase, run.streamer with
  | .flushing outcome, .closed =>
    some ({ run with
      persisted := if saved then outcome.toOption else none
      phase := .printing outcome events (terminalLines run.call.task.id events outcome) }, none)
  | _, _ => none

def print : Option (Run × Option Line) :=
  match run.phase with
  | .printing outcome events (line :: rest) =>
    some ({ run.say line with phase := .printing outcome events rest }, some line)
  | .printing outcome events [] => some ({ run with phase := .finished outcome events }, none)
  | _ => none

/-- The run after the action, and the line that is printed. -/
def step : RunAction → Option (Run × Option Line)
  | .advance world => run.advance world
  | .panic diff => run.panic diff
  | .stream => run.stream
  | .conclude events saved => run.conclude events saved
  | .print => run.print

end Run

end Nerve.Daemon
