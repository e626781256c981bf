import Nerve.Run.Types
import Nerve.Patch.UnifiedDiff
import Nerve.Library.Dialogue
import Nerve.Review.Verdict

/-!
# The end of a run

What a run does once its loop has ended, in either strategy: it selects the final
patch by the conflict policy, decides whether the run is blocked, asks for consent,
lets the classifier veto, applies the patch and reports. `conclude` is this common end; the
tournament passes it the two flags it never sets as false.

Everything outside the process is asked for (`Question`): the adapters, the check,
the operator's two handles, git and the working directory. SHA-256, the line diff and glob
matching are parameters (`Externals`).
-/

namespace Nerve.Run

open Nerve.Patch

/-! ### The world outside -/

/-- Pure functions of other crates. -/
structure Externals where
  sha256Hex : String → String
  textDiff : TextDiff
  /-- A rule of a profile matches a task. -/
  ruleMatches : String → Task → Except RunError Bool
  /-- One of the globs that compile matches the path. -/
  globsMatch : List String → PathBuf → Bool

/-- A verifier found from the files of the working directory. -/
structure DetectedVerifier where
  label : String
  command : List String
  deriving DecidableEq, Repr

/-- What a process leaves, its output read lossily. -/
structure ProcessOutput where
  status : ExitStatus
  stdout : String
  stderr : String
  deriving DecidableEq, Repr

/-- What a run asks of the world. The adapters also get the task and its directory, which are
the same throughout. -/
inductive Question where
  /-- Does the environment consent to a project's verifier? -/
  | projectVerifierConsent
  | detectBuiltinVerifier
  /-- Create and scan the scratch directory. -/
  | scratchWatcher
  /-- How many times the scratch directory is polled before the output is there. -/
  | pollsBeforeOutput
  | nextChange
  | implement (adapter : String)
  | refine (adapter : String) (previous : AgentOutput) (feedback : ReviewerFeedback)
  | review (adapter : String) (output : AgentOutput) (strictness : String)
  | crossfire (adapter : String) (scratchSummary strictness : String)
  /-- Set up the evaluator of a goal. -/
  | goalEvaluator (spec : GoalSpec)
  | evaluate (spec : GoalSpec)
  /-- `Synapse::record_round`, towards the checkpoint and the live observer. -/
  | recordRound (round : RoundRecord)
  | isCancelled
  | isGranted
  /-- A fresh identifier for a patch. -/
  | newPatchId
  /-- Write the three texts to temporary files and run `git merge-file -p` on them. -/
  | gitMergeFile (base lead reviewer : String)
  /-- `NvPatch::apply` in the working directory. -/
  | applyInPlace (patch : NvPatch)
  | worktreeIsolator
  | prepareRound
  | applyInWorktree (patch : NvPatch)
  | commitWorktreeRound
  | mergeRound
  | discardRound

/-- The answers to each question. -/
abbrev Question.Answer : Question → Type
  | projectVerifierConsent => Bool
  | detectBuiltinVerifier => Option DetectedVerifier
  | scratchWatcher => Except RunError Unit
  | pollsBeforeOutput => Nat
  | nextChange => Except RunError (Option String)
  | implement _ | refine _ _ _ => Except RunError AgentOutput
  | review _ _ _ | crossfire _ _ _ => Except RunError ReviewerFeedback
  | goalEvaluator _ => Except RunError Unit
  | evaluate _ => CheckOutcome
  | recordRound _ => Unit
  | isCancelled | isGranted => Bool
  | newPatchId => String
  | gitMergeFile _ _ _ => Except RunError ProcessOutput
  | applyInPlace _ | worktreeIsolator | prepareRound | applyInWorktree _ | commitWorktreeRound
  | mergeRound => Except RunError Unit
  | discardRound => Unit

/-- A part of a run. -/
abbrev RunM (α : Type) := Dialogue Question Question.Answer RunError α

/-- The exchanges of a run. -/
abbrev Trace := List (Exchange Question Question.Answer)

/-- Ask one question. -/
def ask (q : Question) : RunM q.Answer := Dialogue.query q

/-- `r?`. -/
def orFail {α : Type} (r : Except RunError α) : RunM α := Dialogue.ofExcept r

/-- `with_context`. -/
def withContext {α : Type} (context : String) (d : RunM α) : RunM α := d.mapError (context :: ·)

/-! ### Options and report -/

/-- The options of a run; of the two handles only whether they are there. -/
structure RunOptions where
  apply : Bool
  goal : Option GoalSpec
  worktree : Option Bool
  applyGrant : Bool
  cancelToken : Bool
  deriving DecidableEq, Repr

/-- Whether the operator has cancelled the run. -/
def RunOptions.isCancelled (options : RunOptions) : RunM Bool :=
  if options.cancelToken then ask .isCancelled else pure false

/-- Whether the run may apply its patch: by invocation, or by a grant. -/
def RunOptions.applyConsented (options : RunOptions) : RunM Bool :=
  if options.apply then pure true
  else if options.applyGrant then ask .isGranted
  else pure false

inductive ApplyRisk where
  | low
  | high
  deriving DecidableEq, Repr

structure ApplyClassification where
  risk : ApplyRisk
  reasons : List String
  filesTouched : Nat
  linesChanged : Nat
  downgraded : Bool
  deriving DecidableEq, Repr

def ApplyClassification.isHigh (c : ApplyClassification) : Bool := c.risk == .high

structure RunReport where
  task : Task
  selection : ProfileSelection
  rounds : List RoundRecord
  crossfireFeedback : List ReviewerFeedback
  finalOutput : AgentOutput
  finalFeedback : ReviewerFeedback
  finalPatch : Option NvPatch
  usage : UsageStats
  budgetExceeded : Bool
  noProgressExceeded : Bool
  crossfireHalted : Bool
  cancelled : Bool
  goalSatisfied : Option Bool
  applied : Bool
  blocked : Bool
  applyClassification : Option ApplyClassification
  ranUnconfined : Bool
  deriving DecidableEq, Repr

/-! ### The classifier -/

section Classifier

variable (X : Externals)

/-- The line counts as added or removed: it begins as such a line does, and not as a header does. -/
def countsAsChanged (line : List Char) : Bool :=
  ['+'].isPrefixOf line && !(['+', '+', '+'].isPrefixOf line) ||
    ['-'].isPrefixOf line && !(['-', '-', '-'].isPrefixOf line)

/-- The lines added or removed in the entry's unified diff, headers left out. -/
def changedLineCount (file : FilePatch) : Nat :=
  ((Review.lines (file.toUnifiedDiff X.textDiff).toList).filter countsAsChanged).length

def classifyApply (patch : Option NvPatch) (cfg : ApplyClassifierConfig) : ApplyClassification :=
  let files := (patch.map fun p => p.files.filter fun f => !f.isNoop).getD []
  let filesTouched := files.length
  let linesChanged := (files.map (changedLineCount X)).sum
  let reasons :=
    (if filesTouched > cfg.maxFiles then [s!"touches {filesTouched} files (> max_files {cfg.maxFiles})"] else []) ++
    (if linesChanged > cfg.maxLines then [s!"changes {linesChanged} lines (> max_lines {cfg.maxLines})"] else []) ++
    (if cfg.flagDestructiveOps then
      files.filterMap fun file =>
        match file.operation with
        | .delete => some s!"deletes {file.path.text}"
        | .rename origin => some s!"renames {origin.text} -> {file.path.text}"
        | _ => none
    else []) ++
    files.filterMap fun file =>
      if X.globsMatch cfg.riskyPathGlobs file.path then some s!"touches risky path {file.path.text}" else none
  { risk := if reasons.isEmpty then .low else .high
    reasons := reasons
    filesTouched := filesTouched
    linesChanged := linesChanged
    downgraded := false }

/-- The apply decision and the classification, given the decision so far. -/
def applyClassifierDecision (wantApply : Bool) (patch : Option NvPatch) (cfg : ApplyClassifierConfig) :
    Bool × Option ApplyClassification :=
  if !cfg.mode.classifies then (wantApply, none)
  else
    let classification := classifyApply X patch cfg
    let veto := cfg.mode.enforces && wantApply && classification.isHigh
    (wantApply && !veto, some { classification with downgraded := veto })

end Classifier

/-! ### The final patch -/

section FinalPatch

variable (X : Externals)

/-- The merged text. An exit status up to 127 is the number of conflicts left in it. -/
def gitMergeFile (base lead reviewer : String) : RunM String := do
  let output : ProcessOutput ← orFail (← ask (.gitMergeFile base lead reviewer))
  let failure : RunError :=
    let stderr := String.ofList (Text.trim output.stderr.toList)
    [s!"`git merge-file` failed with status {output.status.toText}: {stderr}"]
  match output.status with
  | .exited code => if code < 128 then pure output.stdout else .fail failure
  | .signaled _ => .fail failure

def mergeFilePatch (lead reviewer : FilePatch) : RunM FilePatch := do
  if !lead.operation.same reviewer.operation then
    .fail [s!"cannot merge different operations for `{lead.path.text}`"]
  else if lead.originalSha256 ≠ reviewer.originalSha256 then
    .fail [s!"cannot merge patches with different bases for `{lead.path.text}`"]
  else
    match lead.operation with
    | .modify | .create => do
      let merged ← withContext s!"git merge-file failed for `{lead.path.text}`"
        (gitMergeFile lead.original lead.modified reviewer.modified)
      pure (FilePatch.withOperation X.sha256Hex lead.path lead.operation lead.original merged)
    | .delete => .fail [s!"merge_attempt only supports modify/create conflicts, got Delete for `{lead.path.text}`"]
    | .rename origin =>
      .fail [s!"merge_attempt only supports modify/create conflicts, got Rename \x7b from: \"{origin.text}\" \x7d for `{lead.path.text}`"]

/-- Fold the reviewer's entries into the lead's, one after the other. -/
def mergeFiles (files : List FilePatch) : List FilePatch → RunM (List FilePatch)
  | [] => pure files
  | reviewerFile :: rest =>
    match files.findIdx? fun leadFile => leadFile.path.same reviewerFile.path with
    | none => mergeFiles (files ++ [reviewerFile]) rest
    | some index =>
      match files[index]? with
      | none => mergeFiles files rest
      | some leadFile =>
        if leadFile.same reviewerFile then mergeFiles files rest
        else do
          let merged ← mergeFilePatch X leadFile reviewerFile
          mergeFiles (files.set index merged) rest

def mergePatches (lead reviewer : Option NvPatch) : RunM (Option NvPatch) :=
  match lead, reviewer with
  | none, reviewer => pure reviewer
  | some lead, none => pure (some lead)
  | some lead, some reviewer => do
    let files ← mergeFiles X lead.files reviewer.files
    let id ← ask .newPatchId
    pure (some ⟨id, none, files⟩)

def selectFinalPatch (leadOutput : AgentOutput) (feedback : ReviewerFeedback) (policy : ConflictPolicy) :
    RunM (Option NvPatch) :=
  match policy with
  | .leadPriority | .abortOnConflict | .reviewerBlock | .manual => pure leadOutput.proposedPatch
  | .reviewerPriority => pure (feedback.suggestedPatch <|> leadOutput.proposedPatch)
  | .mergeAttempt =>
    withContext "failed to merge lead and reviewer patches"
      (mergePatches X leadOutput.proposedPatch feedback.suggestedPatch)

end FinalPatch

/-! ### Applying -/

def resolveWorktreeApply (options : RunOptions) (orchestration : Orchestration) : Bool :=
  options.worktree.getD orchestration.worktreeApply

/-- The apply in an isolated worktree. A failure after the round was prepared discards it. -/
def applyWithWorktree (patch : NvPatch) : RunM Bool := do
  withContext "worktree isolator setup failed" do orFail (← ask .worktreeIsolator)
  withContext "worktree prepare failed" do orFail (← ask .prepareRound)
  let patched : Except RunError Unit ← ask (.applyInWorktree patch)
  if let .error e := patched then
    ask .discardRound
    .fail ("worktree patch apply failed" :: e)
  else
    let committed : Except RunError Unit ← ask .commitWorktreeRound
    if let .error e := committed then
      ask .discardRound
      .fail ("worktree commit failed" :: e)
    else
      withContext "worktree merge failed" do orFail (← ask .mergeRound)
      pure true

def applyFinalPatch (finalPatch : Option NvPatch) (shouldApply useWorktree : Bool) : RunM Bool :=
  if !shouldApply then pure false
  else
    match finalPatch with
    | none => pure false
    | some patch =>
      if !useWorktree then do
        orFail (← ask (.applyInPlace patch))
        pure true
      else applyWithWorktree patch

/-! ### The gate -/

def goalCheckFailed (goal : Option GoalSpec) (checkResult : Option CheckResult) : Bool :=
  goal.isSome && !(checkResult.any CheckResult.isPassOrSkipped)

def isBlocked (feedback : ReviewerFeedback) (policy : ConflictPolicy) : Bool :=
  match policy with
  | .leadPriority | .reviewerPriority => false
  | .abortOnConflict => !(feedback.verdict == .lgtm || feedback.verdict == .acceptWithNits)
  | .mergeAttempt | .reviewerBlock => feedback.verdict == .block
  | .manual => true

/-- A run as its strategy leaves it. -/
structure Finished where
  rounds : List RoundRecord
  crossfireFeedback : List ReviewerFeedback
  finalOutput : AgentOutput
  finalFeedback : ReviewerFeedback
  usage : UsageStats
  budgetExceeded : Bool
  noProgressExceeded : Bool
  crossfireHalted : Bool
  cancelled : Bool
  lastCheck : Option CheckResult
  ranUnconfined : Bool

/-- The decision, the apply and the report. -/
def conclude (X : Externals) (task : Task) (config : Config) (selection : ProfileSelection) (options : RunOptions)
    (finalPatch : Option NvPatch) (run : Finished) : RunM RunReport := do
  let goalCheckFailed := goalCheckFailed options.goal run.lastCheck
  let nitsUnverified := run.finalFeedback.verdict == .acceptWithNits &&
    !(selection.reviewStrictness.permitsNits && run.lastCheck == some .pass)
  let blocked := run.budgetExceeded || run.noProgressExceeded || run.crossfireHalted || run.cancelled ||
    goalCheckFailed || nitsUnverified || isBlocked run.finalFeedback config.orchestration.conflictPolicy
  let consented ← options.applyConsented
  let wantApply := consented && !blocked
  let (allowApply, applyClassification) :=
    applyClassifierDecision X wantApply finalPatch config.orchestration.applyClassifier
  let applied ← applyFinalPatch finalPatch allowApply (resolveWorktreeApply options config.orchestration)
  let goalSatisfied := options.goal.map fun _ =>
    run.lastCheck.any CheckResult.isPassOrSkipped &&
      run.finalFeedback.verdict.acceptsUnder selection.reviewStrictness.permitsNits &&
      !run.budgetExceeded && !run.noProgressExceeded && !run.crossfireHalted && !run.cancelled
  pure
    { task := task
      selection := selection
      rounds := run.rounds
      crossfireFeedback := run.crossfireFeedback
      finalOutput := run.finalOutput
      finalFeedback := run.finalFeedback
      finalPatch := finalPatch
      usage := run.usage
      budgetExceeded := run.budgetExceeded
      noProgressExceeded := run.noProgressExceeded
      crossfireHalted := run.crossfireHalted
      cancelled := run.cancelled
      goalSatisfied := goalSatisfied
      applied := applied
      blocked := blocked
      applyClassification := applyClassification
      ranUnconfined := run.ranUnconfined }

end Nerve.Run
