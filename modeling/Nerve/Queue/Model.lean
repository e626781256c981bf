import Nerve.Library.FileStore
import Nerve.Library.TransitionSystem
import Mathlib.Data.List.MinMax
import Mathlib.Data.String.Basic

/-!
# The Mayor queue

The task queue of `mayor_patrol.rs`: mayors put tasks into it, patrols claim and run them,
and a mayor's status poll moves the claims of patrols that seem dead back. All they share
is on disk (`Shared`). A process is in the middle of one operation (`Proc`), and
each step of it is one filesystem operation, so that the steps of any number of processes interleave in
every possible way; a step is `advance`, and `step` is the system.

What is left of names: a task file `<id>.json` goes by its `id`, and only the order in which a
patrol looks at them uses the whole file name. Directories that nothing removes are always there;
temporary files have other extensions, so a write through one is the final rename.
Updates of the coordination ledger are one step each, since its lock makes them so; they may fail, which
nobody minds. The mailbox is apart, in `Nerve.Queue.Mailbox`.
-/

namespace Nerve.Queue

/-! ### Tasks and results -/

structure PatrolTask where
  taskId : String
  prompt : String
  budgetMicrousd : Nat
  mcpServers : List String
  createdAt : Option Nat
  deriving DecidableEq, Repr

inductive PatrolVerdict where
  | success
  | failed
  | skipped
  deriving DecidableEq, Repr

structure PatrolResult where
  taskId : String
  patrolId : String
  verdict : PatrolVerdict
  costMicrousd : Nat
  patchSha : Option String
  error : Option String
  finishedAt : Option Nat
  deriving DecidableEq, Repr

/-- The errors of the queue; those of the system and of the parser by their text. -/
inductive MayorError where
  | io (message : String)
  | queueEmpty
  | claimFailed (message : String)
  | lockTimeout
  | taskAlreadyExists (taskId : String)
  | budgetCeilingExceeded (taskId : String) (requested ceiling : Nat)
  | invalidIdentifier (kind : String)
  | orphanRecovered (message : String)
  | serde (message : String)
  deriving DecidableEq, Repr

def MayorError.toText : MayorError → String
  | io message => s!"io: {message}"
  | queueEmpty => "queue empty"
  | claimFailed message => s!"claim failed: {message}"
  | lockTimeout => "lock timeout"
  | taskAlreadyExists taskId => s!"task already exists: {taskId}"
  | budgetCeilingExceeded taskId requested ceiling =>
    s!"budget ceiling exceeded for patrol {taskId}: requested {requested} > ceiling {ceiling}"
  | invalidIdentifier kind => s!"invalid {kind}: must be 1..=128 chars of [A-Za-z0-9_-]"
  | orphanRecovered message => s!"orphaned claim recovered: {message}"
  | serde message => s!"serde: {message}"

/-- What the system says of a file that is not there. -/
def notFound : MayorError := .io "No such file or directory (os error 2)"

def isValidQueueId (id : String) : Bool :=
  !id.isEmpty && id.utf8ByteSize ≤ 128 && id.toList.all fun c => c.isAlphanum || c == '-' || c == '_'

def validateFileComponent (kind value : String) : Except MayorError Unit :=
  if isValidQueueId value then .ok () else .error (.invalidIdentifier kind)

/-! ### The ledger -/

inductive LedgerState where
  | pending
  | claimed
  | done
  | failed
  deriving DecidableEq, Repr

structure LedgerEntry where
  taskId : String
  state : LedgerState
  owner : Option String
  createdAt : Option Nat
  claimedAt : Option Nat
  finishedAt : Option Nat
  costMicrousd : Option Nat
  verdict : Option PatrolVerdict
  deriving DecidableEq, Repr

def LedgerEntry.pending (taskId : String) : LedgerEntry := ⟨taskId, .pending, none, none, none, none, none, none⟩

abbrev Ledger := String → Option LedgerEntry

/-- The entry of a task, made if it is missing, is changed by `f`. -/
def Ledger.change (ledger : Ledger) (taskId : String) (f : LedgerEntry → LedgerEntry) : Ledger :=
  Function.update ledger taskId (some (f ((ledger taskId).getD (.pending taskId))))

def terminalState : PatrolVerdict → LedgerState
  | .success | .skipped => .done
  | .failed => .failed

def recordEnqueued (now : Nat) (taskId : String) (createdAt : Option Nat) (ledger : Ledger) : Ledger :=
  ledger.change taskId fun entry =>
    { entry with
      state := .pending
      owner := none
      claimedAt := none
      createdAt := entry.createdAt <|> createdAt <|> some now }

def recordClaimed (now : Nat) (taskId patrolId : String) (ledger : Ledger) : Ledger :=
  ledger.change taskId fun entry =>
    { entry with
      state := .claimed
      owner := some patrolId
      claimedAt := some now }

def recordFinished (now : Nat) (taskId : String) (verdict : PatrolVerdict) (costMicrousd : Nat) (ledger : Ledger) :
    Ledger :=
  ledger.change taskId fun entry =>
    { entry with
      state := terminalState verdict
      verdict := some verdict
      costMicrousd := some costMicrousd
      finishedAt := some now }

def recordRecovered (taskId : String) (ledger : Ledger) : Ledger :=
  ledger.change taskId fun entry =>
    { entry with
      state := .pending
      owner := none
      claimedAt := none }

/-! ### What is shared -/

/-- The directories a task file can be in. -/
inductive Place where
  | pending
  | claimed (patrolId : String)
  | done
  | failed
  deriving DecidableEq, Repr

/-- The settings the queue reads. -/
structure MayorPatrolConfig where
  claimTtlSecs : Nat
  coordinationEnabled : Bool
  deriving DecidableEq, Repr

/-- A process, by its number. -/
abbrev Pid := Nat

/-- What the processes share: the task files, the directories below `claimed/`, the results, when each
heartbeat was last written, the ledger, who holds `mayor.lock`, and the clock, in nanoseconds.
`enqueued` is on no disk: the tasks whose enqueue has succeeded, in order. -/
structure Shared where
  files : FileStore Place String PatrolTask
  patrolDirs : List String
  results : String → Option PatrolResult
  heartbeats : String → Option Nat
  ledger : Ledger
  mayorLock : Option Pid
  clock : Nat
  enqueued : List PatrolTask

namespace Shared

def exists? (q : Shared) (place : Place) (taskId : String) : Bool := (q.files.read place taskId).isSome

/-- A ledger update: it may fail, and coordination may be off. -/
def record (q : Shared) (cfg : MayorPatrolConfig) (succeeds : Bool) (f : Ledger → Ledger) : Shared :=
  if cfg.coordinationEnabled && succeeds then { q with ledger := f q.ledger } else q

/-- `remove_dir` of a patrol's directory, which takes only empty ones. -/
def removeDir (q : Shared) (patrolId : String) : Shared :=
  if (q.files.list (.claimed patrolId)).isEmpty then { q with patrolDirs := q.patrolDirs.erase patrolId } else q

def writeHeartbeat (q : Shared) (patrolId : String) : Shared :=
  { q with heartbeats := Function.update q.heartbeats patrolId (some q.clock) }

/-- `rename` of a task file: the source must be there, and so must the directory it goes to. -/
def renameTask (q : Shared) (src dst : Place) (taskId : String) : Option Shared :=
  match dst with
  | .claimed patrolId =>
    if patrolId ∈ q.patrolDirs then (q.files.rename src dst taskId).map fun files => { q with files := files }
    else none
  | _ => (q.files.rename src dst taskId).map fun files => { q with files := files }

end Shared

/-! ### Processes -/

/-- What an operation returns. -/
inductive Returned where
  | enqueued
  | finished (result : PatrolResult)
  | recovered (orphans : Nat)
  | heartbeat
  deriving DecidableEq, Repr

/-- `enqueue`: the places are looked at one after the other, those of the patrols in the
order in which they are listed; then the file is written and the ledger updated. -/
inductive EnqueuePhase where
  | lookPending
  | lookDone
  | lookFailed
  | lookResult
  | listClaimed
  | lookClaimed (patrols : List String)
  | write
  | ledger
  deriving DecidableEq, Repr

/-- `claim`: from `scan` to `unlock` with `mayor.lock` held. -/
inductive ClaimPhase where
  | heartbeat
  | lock
  | scan
  | makeDir (candidate : String)
  | rename (candidate : String)
  | read (candidate : String)
  | ledger (task : PatrolTask)
  | unlock (claimed : Except MayorError PatrolTask)
  deriving DecidableEq, Repr

/-- `run_task`: the dispatch is running in the first phase. -/
inductive RunPhase where
  | dispatch
  | result (result : PatrolResult)
  | ledger (result : PatrolResult)
  | rename (result : PatrolResult)
  | removeDir (result : PatrolResult)
  | heartbeat (result : PatrolResult)
  deriving DecidableEq, Repr

/-- `recover_orphans`, at the directory of a patrol: its heartbeat is read, and if it is stale, its claims are
listed and moved. `later` are the claims of this patrol still to be moved. -/
inductive SweepPhase where
  | heartbeat
  | list
  | rename (later : List String)
  | ledger (taskId : String) (later : List String)
  | removeDir
  deriving DecidableEq, Repr

/-- What a process is doing. -/
inductive Proc where
  | idle (last : Option (Except MayorError Returned))
  | enqueue (task : PatrolTask) (phase : EnqueuePhase)
  | claim (patrolId : String) (phase : ClaimPhase)
  | run (patrolId : String) (task : PatrolTask) (phase : RunPhase)
  | beat (patrolId : String)
  | sweepStart
  | sweepList (now : Nat)
  /-- So many orphans recovered, at this patrol's directory, with these directories to come. -/
  | sweep (now recovered : Nat) (patrolId : String) (phase : SweepPhase) (later : List String)
  deriving DecidableEq, Repr

/-- The operation is over, with this result. -/
def Proc.returned (r : Except MayorError Returned) : Proc := .idle (some r)

/-- What is not up to the program: the order in which a directory is listed, the outcome of a dispatch, that a
lock stays taken or a ledger update fails. -/
inductive Choice where
  | proceed
  | fail
  | listing (names : List String)
  | outcome (r : Except MayorError PatrolResult)
  deriving DecidableEq, Repr

/-! ### The operations, step by step -/

/-- Go on to `next`, unless the task is in the place. -/
def lookFor (task : PatrolTask) (found : Bool) (next : EnqueuePhase) : Proc :=
  if found then .returned (.error (.taskAlreadyExists task.taskId)) else .enqueue task next

def advanceEnqueue (cfg : MayorPatrolConfig) (task : PatrolTask) (q : Shared) :
    EnqueuePhase → Choice → Option (Proc × Shared)
  | .lookPending, .proceed => some (lookFor task (q.exists? .pending task.taskId) .lookDone, q)
  | .lookDone, .proceed => some (lookFor task (q.exists? .done task.taskId) .lookFailed, q)
  | .lookFailed, .proceed => some (lookFor task (q.exists? .failed task.taskId) .lookResult, q)
  | .lookResult, .proceed => some (lookFor task (q.results task.taskId).isSome .listClaimed, q)
  | .listClaimed, .listing patrols =>
    if patrols.Perm q.patrolDirs then some (.enqueue task (.lookClaimed patrols), q) else none
  | .lookClaimed [], .proceed => some (.enqueue task .write, q)
  | .lookClaimed (patrolId :: patrols), .proceed =>
    some (lookFor task (q.exists? (.claimed patrolId) task.taskId) (.lookClaimed patrols), q)
  | .write, .proceed =>
    -- whatever comes after this write, the call succeeds
    some (.enqueue task .ledger,
      { q with files := q.files.write .pending task.taskId task, enqueued := q.enqueued ++ [task] })
  | .ledger, choice =>
    some (.returned (.ok .enqueued),
      q.record cfg (choice == .proceed) (recordEnqueued q.clock task.taskId task.createdAt))
  | _, _ => none

/-- The first of the task files in `pending/`, in the order of their names. -/
def firstPending (q : Shared) : Option String :=
  (q.files.list .pending).argmin fun taskId => taskId ++ ".json"

/-- What `claim` makes of the file it moved. -/
def readClaimed (candidate : String) : Option PatrolTask → Except MayorError PatrolTask
  | none => .error notFound
  | some task =>
    match validateFileComponent "task_id" task.taskId with
    | .error e => .error e
    | .ok () =>
      if task.taskId ≠ candidate then
        .error (.claimFailed
          s!"pending filename `{candidate}` did not match payload task_id `{task.taskId}`")
      else .ok task

def advanceClaim (cfg : MayorPatrolConfig) (pid : Pid) (patrolId : String) (q : Shared) :
    ClaimPhase → Choice → Option (Proc × Shared)
  | .heartbeat, .proceed => some (.claim patrolId .lock, q.writeHeartbeat patrolId)
  | .lock, .proceed =>
    match q.mayorLock with
    | none => some (.claim patrolId .scan, { q with mayorLock := some pid })
    | some _ => none
  | .lock, .fail =>
    match q.mayorLock with
    | none => none
    | some _ => some (.returned (.error .lockTimeout), q)
  | .scan, .proceed =>
    match firstPending q with
    | none => some (.claim patrolId (.unlock (.error .queueEmpty)), q)
    | some candidate => some (.claim patrolId (.makeDir candidate), q)
  | .makeDir candidate, .proceed =>
    some (.claim patrolId (.rename candidate), { q with patrolDirs := q.patrolDirs.insert patrolId })
  | .rename candidate, .proceed =>
    match q.renameTask .pending (.claimed patrolId) candidate with
    | some q' => some (.claim patrolId (.read candidate), q')
    | none => some (.claim patrolId (.unlock (.error (.claimFailed s!"lost race for `{candidate}.json`"))), q)
  | .read candidate, .proceed =>
    match readClaimed candidate (q.files.read (.claimed patrolId) candidate) with
    | .error e => some (.claim patrolId (.unlock (.error e)), q)
    | .ok task => some (.claim patrolId (.ledger task), q)
  | .ledger task, choice =>
    some (.claim patrolId (.unlock (.ok task)),
      q.record cfg (choice == .proceed) (recordClaimed q.clock task.taskId patrolId))
  | .unlock claimed, .proceed =>
    let q := { q with mayorLock := none }
    match claimed with
    | .error e => some (.returned (.error e), q)
    | .ok task => some (.run patrolId task .dispatch, q)
  | _, _ => none

/-- The result of a dispatch, checked against the task's budget and put under the task's and patrol's names. -/
def settleResult (now : Nat) (patrolId : String) (task : PatrolTask) (r : Except MayorError PatrolResult) :
    PatrolResult :=
  let result : PatrolResult :=
    match r with
    | .ok result =>
      if result.costMicrousd > task.budgetMicrousd then
        { result with
          verdict := .failed
          error := some s!"cost {result.costMicrousd} exceeded ceiling {task.budgetMicrousd}" }
      else result
    | .error e => ⟨task.taskId, patrolId, .failed, 0, none, some e.toText, some now⟩
  { result with
    finishedAt := result.finishedAt <|> some now
    taskId := task.taskId
    patrolId := patrolId }

/-- Where the file of a finished task goes. -/
def destination : PatrolVerdict → Place
  | .success | .skipped => .done
  | .failed => .failed

def advanceRun (cfg : MayorPatrolConfig) (patrolId : String) (task : PatrolTask) (q : Shared) :
    RunPhase → Choice → Option (Proc × Shared)
  | .dispatch, .outcome r => some (.run patrolId task (.result (settleResult q.clock patrolId task r)), q)
  | .result result, .proceed =>
    some (.run patrolId task (.ledger result),
      { q with results := Function.update q.results task.taskId (some result) })
  | .ledger result, choice =>
    some (.run patrolId task (.rename result),
      q.record cfg (choice == .proceed) (recordFinished q.clock task.taskId result.verdict result.costMicrousd))
  | .rename result, .proceed =>
    -- that the claim is gone is no error
    some (.run patrolId task (.removeDir result),
      (q.renameTask (.claimed patrolId) (destination result.verdict) task.taskId).getD q)
  | .removeDir result, .proceed => some (.run patrolId task (.heartbeat result), q.removeDir patrolId)
  | .heartbeat result, .proceed => some (.returned (.ok (.finished result)), q.writeHeartbeat patrolId)
  | _, _ => none

/-- The heartbeat is younger than the time to live. One that is not there is not; one from
the future is. -/
def alive (cfg : MayorPatrolConfig) (now : Nat) : Option Nat → Bool
  | some mtime => now - mtime < cfg.claimTtlSecs * 1000000000
  | none => false

/-- The next patrol's directory. -/
def sweepNext (now recovered : Nat) : List String → Proc
  | [] => .returned (.ok (.recovered recovered))
  | patrolId :: later => .sweep now recovered patrolId .heartbeat later

def advanceSweep (cfg : MayorPatrolConfig) (now recovered : Nat) (patrolId : String) (later : List String) (q : Shared) :
    SweepPhase → Choice → Option (Proc × Shared)
  | .heartbeat, .proceed =>
    if alive cfg now (q.heartbeats patrolId) then some (sweepNext now recovered later, q)
    else some (.sweep now recovered patrolId .list later, q)
  | .list, .proceed =>
    if patrolId ∈ q.patrolDirs then none else some (.returned (.error notFound), q)
  | .list, .listing tasks =>
    if patrolId ∈ q.patrolDirs ∧ tasks.Perm (q.files.list (.claimed patrolId)) then
      some (.sweep now recovered patrolId (.rename tasks) later, q)
    else none
  | .rename [], .proceed => some (.sweep now recovered patrolId .removeDir later, q)
  | .rename (taskId :: tasks), .proceed =>
    match q.renameTask (.claimed patrolId) .pending taskId with
    | some q' => some (.sweep now (recovered + 1) patrolId (.ledger taskId tasks) later, q')
    | none => some (.returned (.error notFound), q)
  | .ledger taskId tasks, choice =>
    some (.sweep now recovered patrolId (.rename tasks) later,
      q.record cfg (choice == .proceed) (recordRecovered taskId))
  | .removeDir, .proceed => some (sweepNext now recovered later, q.removeDir patrolId)
  | _, _ => none

/-- One step of a process. -/
def advance (cfg : MayorPatrolConfig) (pid : Pid) (q : Shared) : Proc → Choice → Option (Proc × Shared)
  | .idle _, _ => none
  | .enqueue task phase, choice => advanceEnqueue cfg task q phase choice
  | .claim patrolId phase, choice => advanceClaim cfg pid patrolId q phase choice
  | .run patrolId task phase, choice => advanceRun cfg patrolId task q phase choice
  | .beat patrolId, .proceed => some (.returned (.ok .heartbeat), q.writeHeartbeat patrolId)
  | .sweepStart, .proceed => some (.sweepList q.clock, q)
  | .sweepList now, .listing patrols =>
    if patrols.Perm q.patrolDirs then some (sweepNext now 0 patrols, q) else none
  | .sweep now recovered patrolId phase later, choice => advanceSweep cfg now recovered patrolId later q phase choice
  | _, _ => none

/-! ### The system -/

/-- What an idle process can be told to do: a mayor with a total budget enqueues, a patrol claims
and runs a task, or refreshes its heartbeat while it waits, and a mayor polls the status. -/
inductive Operation where
  | enqueue (totalBudgetMicrousd : Option Nat) (task : PatrolTask)
  | claim (patrolId : String)
  | heartbeat (patrolId : String)
  | status
  deriving DecidableEq, Repr

/-- The checks before the first filesystem operation. -/
def checkEnqueue (totalBudgetMicrousd : Option Nat) (task : PatrolTask) : Except MayorError Unit :=
  match validateFileComponent "task_id" task.taskId with
  | .error e => .error e
  | .ok () =>
    match totalBudgetMicrousd with
    | some total =>
      if task.budgetMicrousd > total then .error (.budgetCeilingExceeded task.taskId task.budgetMicrousd total)
      else .ok ()
    | none => .ok ()

def Operation.begin : Operation → Proc
  | enqueue total task =>
    match checkEnqueue total task with
    | .error e => .returned (.error e)
    | .ok () => .enqueue task .lookPending
  | claim patrolId =>
    match validateFileComponent "patrol_id" patrolId with
    | .error e => .returned (.error e)
    | .ok () => .claim patrolId .heartbeat
  | heartbeat patrolId =>
    match validateFileComponent "patrol_id" patrolId with
    | .error e => .returned (.error e)
    | .ok () => .beat patrolId
  | status => .sweepStart

inductive Action where
  /-- Time passes. -/
  | tick (elapsed : Nat)
  | start (pid : Pid) (operation : Operation)
  | go (pid : Pid) (choice : Choice)
  /-- The process dies, or an I/O error ends its operation. -/
  | stop (pid : Pid)
  deriving DecidableEq, Repr

structure State where
  procs : Pid → Proc
  queue : Shared

/-- The process has taken a step. -/
def State.set (s : State) (pid : Pid) (next : Proc × Shared) : State where
  procs := Function.update s.procs pid next.1
  queue := next.2

def step (cfg : MayorPatrolConfig) (s : State) : Action → Option State
  | .tick elapsed => some { s with queue := { s.queue with clock := s.queue.clock + elapsed } }
  | .start pid operation =>
    match s.procs pid with
    | .idle _ => some (s.set pid (operation.begin, s.queue))
    | _ => none
  | .go pid choice => (advance cfg pid s.queue (s.procs pid) choice).map (s.set pid)
  | .stop pid =>
    let lock := if s.queue.mayorLock = some pid then none else s.queue.mayorLock
    some (s.set pid (.idle none, { s.queue with mayorLock := lock }))

/-- An empty queue, and nobody at work. -/
def State.initial : State where
  procs _ := .idle none
  queue := ⟨∅, [], fun _ => none, fun _ => none, fun _ => none, none, 0, []⟩

end Nerve.Queue
