import Nerve.Run.ApplyGate
import Nerve.Library.Text

/-!
# The loop

The strategies of a run. Consensus and pipeline have the lead implement the task and the reviewer
review it, round after round with a refinement between two, until the verdict and the
check accept, or the run is stopped: by its budget, the operator, a blocking review, a blocking
live review under `halt`, or want of progress. A tournament has both adapters implement
the task and review each other, once. Either ends in `conclude`.

The variables of the source's loop are a `LoopState`. While the lead generates, the scratch
directory is polled and each change goes to the reviewer; how often it is polled before the
output is there is the world's answer. The events the adapters stream do not come back into the
run and are left out; the checkpoint of a round and its live observer get the record.
-/

namespace Nerve.Run

open Nerve.Patch

/-! ### Feedback the loop makes up -/

/-- A rejection with one blocking issue. -/
def blockFeedback (reviewerId message rawText : String) : ReviewerFeedback where
  reviewerId := reviewerId
  verdict := .block
  issues := [⟨.blocking, message⟩]
  suggestedPatch := none
  cost := none
  rawText := rawText

def noProgressFeedback (reviewerId : String) (count : Nat) : ReviewerFeedback :=
  blockFeedback reviewerId s!"No progress for {count} consecutive rounds (no closer to a green check)"
    s!"BLOCK: no-progress exceeded after {count} stalled rounds"

def cancelledFeedback (reviewerId : String) : ReviewerFeedback :=
  blockFeedback reviewerId "Run cancelled by operator" "BLOCK: run cancelled by operator"

def budgetExceededFeedback (reviewerId : String) (usage : UsageStats) : ReviewerFeedback :=
  blockFeedback reviewerId s!"Session budget exceeded: {usage.totalTokens} total tokens"
    s!"BLOCK: session budget exceeded after {usage.totalTokens} total tokens"

/-! ### Budget -/

def accumulateOutputUsage (total : UsageStats) (output : AgentOutput) : UsageStats :=
  match output.cost with
  | some cost => total.addAssign cost
  | none => total

def accumulateFeedbackUsage (total : UsageStats) (feedback : ReviewerFeedback) : UsageStats :=
  match feedback.cost with
  | some cost => total.addAssign cost
  | none => total

def exceedsBudget (usage : UsageStats) (orchestration : Orchestration) : Bool :=
  orchestration.maxTotalTokens.any (fun limit => usage.totalTokens > limit) ||
    orchestration.maxEstimatedCostMicrousd.any fun limit =>
      usage.estimatedCostMicrousd.any fun cost => cost > limit

/-! ### Live crossfire -/

def verdictSeverityRank : Verdict → Nat
  | .lgtm => 0
  | .acceptWithNits => 1
  | .requestChanges => 2
  | .block => 3

def verdictToken : Verdict → String
  | .lgtm => "LGTM"
  | .acceptWithNits => "ACCEPT_WITH_NITS"
  | .requestChanges => "REQUEST_CHANGES"
  | .block => "BLOCK"

def issueSeverityToken : IssueSeverity → String
  | .info => "INFO"
  | .warning => "WARNING"
  | .blocking => "BLOCKING"

/-- The most severe verdict, if there is any; of equals the last. -/
def mostSevereCrossfire : List ReviewerFeedback → Option Verdict
  | [] => none
  | item :: rest => some (rest.foldl (fun v item =>
      if verdictSeverityRank v ≤ verdictSeverityRank item.verdict then item.verdict else v) item.verdict)

/-- The review for the next refinement: the live hints raise the verdict and are added to
the issues and the text. -/
def mergeCrossfireIntoFeedback (base : ReviewerFeedback) (crossfire : List ReviewerFeedback) : ReviewerFeedback :=
  if crossfire.isEmpty then base
  else
    let merged := crossfire.foldl (fun merged item =>
      { merged with
        verdict := if verdictSeverityRank item.verdict > verdictSeverityRank merged.verdict then item.verdict
          else merged.verdict
        issues := merged.issues ++ item.issues }) base
    let hint (item : ReviewerFeedback) : String :=
      let body := String.ofList (Text.trim item.rawText.toList)
      s!"\n[CROSSFIRE {verdictToken item.verdict}]" ++ (if body.isEmpty then "" else " " ++ body) ++
        String.join (item.issues.map fun issue => s!"\n  - {issueSeverityToken issue.severity}: {issue.message}")
    let section_ :=
      "--- Live crossfire feedback (over-the-shoulder review captured during generation) ---\n" ++
      "Treat the following as ADDITIONAL change requests for this refine:" ++ String.join (crossfire.map hint)
    let rawText := if (Text.trim merged.rawText.toList).isEmpty then section_
      else s!"{merged.rawText}\n\n{section_}"
    { merged with rawText := rawText }

/-- Poll the scratch directory so many times; each change goes to the reviewer. -/
def pollScratch (reviewer strictness : String) : Nat → RunM (List ReviewerFeedback)
  | 0 => pure []
  | polls + 1 => do
    let change ← orFail (← ask .nextChange)
    let feedback ← match change with
      | none => pure []
      | some summary => do
        let feedback ← orFail (← ask (.crossfire reviewer summary strictness))
        pure [feedback]
    let rest ← pollScratch reviewer strictness polls
    pure (feedback ++ rest)

/-- A generation of the lead, watched by the reviewer. -/
def collectOutputWithCrossfire (generation : RunM (Except RunError AgentOutput)) (reviewer strictness : String) :
    RunM (AgentOutput × List ReviewerFeedback) := do
  orFail (← ask .scratchWatcher)
  let polls ← ask .pollsBeforeOutput
  let collected ← pollScratch reviewer strictness polls
  let output ← orFail (← generation)
  pure (output, collected)

/-! ### The goal -/

/-- The verifier the configuration asks for, as a goal, if it is trusted. -/
def resolveBuiltinVerifier (orchestration : Orchestration) (execTrusted : Bool) : RunM (Option GoalSpec) :=
  let cfg := orchestration.builtinVerifier
  let spec (command : List String) : Option GoalSpec :=
    if command.isEmpty then none
    else some
      { id := "builtin-verifier"
        checkCmd := command
        timeoutSecs := cfg.timeoutSecs
        cwd := none
        env := []
        noProgressMax := none }
  if cfg.mode = .off || !execTrusted then pure none
  else
    match cfg.mode with
    | .off => pure none
    | .auto => do
      let detected : Option DetectedVerifier ← ask .detectBuiltinVerifier
      pure (detected.bind fun d => spec d.command)
    | .command => pure (spec cfg.command)

/-- Without a goal of its own a run gets the built-in verifier's. -/
def applyBuiltinVerifier (options : RunOptions) (config : Config) : RunM RunOptions :=
  if options.goal.isSome then pure options
  else do
    let consent : Bool ← ask .projectVerifierConsent
    let resolved ← resolveBuiltinVerifier config.orchestration (config.builtinVerifierExecTrusted consent)
    pure { options with goal := resolved }

def buildGoalEvaluator (options : RunOptions) : RunM (Option GoalSpec) :=
  match options.goal with
  | none => pure none
  | some spec => do
    withContext "goal evaluator setup failed" do orFail (← ask (.goalEvaluator spec))
    pure (some spec)

def runGoalCheck : Option GoalSpec → RunM CheckOutcome
  | some spec => ask (.evaluate spec)
  | none => pure ⟨.skipped, false⟩

/-! ### Progress -/

def checkResultProgress : CheckResult → Option Nat
  | .pass => some 1000
  | .skipped => none
  | .fail _ progress => progress

/-- The round brought the same patch again, or another one no closer to green than the best so far. -/
def roundIsStalled (prevSha curSha : Option String) (best current : Option Nat) : Bool :=
  match prevSha, curSha with
  | some prev, some cur =>
    if prev = cur then true
    else
      match current, best with
      | some now, some b => now ≤ b
      | _, _ => false
  | _, _ => false

/-! ### The rounds -/

/-- The variables of the loop. -/
structure LoopState where
  leadOutput : AgentOutput
  currentCrossfire : List ReviewerFeedback
  usage : UsageStats
  finalFeedback : ReviewerFeedback
  budgetExceeded : Bool
  previousPatchSha : Option String
  noProgressCount : Nat
  noProgressExceeded : Bool
  crossfireHalted : Bool
  cancelled : Bool
  lastCheck : Option CheckResult
  ranUnconfined : Bool
  bestProgress : Option Nat
  rounds : List RoundRecord
  crossfireFeedback : List ReviewerFeedback
  deriving DecidableEq, Repr

/-- What a run is started with. -/
structure Setting where
  externals : Externals
  config : Config
  selection : ProfileSelection
  lead : String
  reviewer : String
  options : RunOptions

namespace Setting

variable (S : Setting)

def strictness : String := strictnessLabel S.selection.reviewStrictness

def canonicalHash (p : NvPatch) : String := p.canonicalHash S.externals.sha256Hex

def noProgressMax : Nat := (S.options.goal.bind GoalSpec.noProgressMax).getD 0

/-- Review the lead's output and run the check, and record the round. -/
def reviewRound (goal : Option GoalSpec) (roundIndex : Nat) (s : LoopState) :
    RunM (LoopState × CheckResult × Option String) := do
  let feedback ← withContext s!"reviewer adapter `{S.reviewer}` failed" do
    orFail (← ask (.review S.reviewer s.leadOutput S.strictness))
  let usage := accumulateFeedbackUsage s.usage feedback
  let outcome ← runGoalCheck goal
  let patchSha := s.leadOutput.proposedPatch.map S.canonicalHash
  let record : RoundRecord :=
    { round := roundIndex
      lead := s.leadOutput
      reviewer := feedback
      checkResult := some outcome.result
      patchSha := patchSha
      envelopeId := none }
  ask (.recordRound record)
  let s := { s with
    usage := usage
    ranUnconfined := s.ranUnconfined || outcome.ranUnconfined
    lastCheck := some outcome.result
    rounds := s.rounds ++ [record]
    finalFeedback := feedback
    budgetExceeded := exceedsBudget usage S.config.orchestration }
  pure (s, outcome.result, patchSha)

/-- The verdict accepts and the check is green. -/
def terminal (verdict : Verdict) (checkResult : CheckResult) : Bool :=
  match verdict with
  | .lgtm => checkResult.isPassOrSkipped
  | .acceptWithNits => S.selection.reviewStrictness.permitsNits && checkResult == .pass
  | _ => false

/-- The no-progress guard, and the bookkeeping for the next round. Gives whether the loop stops. -/
def guardProgress (s : LoopState) (checkResult : CheckResult) (patchSha : Option String) : Bool × LoopState :=
  let roundProgress := checkResultProgress checkResult
  let carry (s : LoopState) : LoopState := { s with
    bestProgress := match roundProgress with
      | some p => some (s.bestProgress.elim p fun b => max b p)
      | none => s.bestProgress
    previousPatchSha := patchSha }
  if S.noProgressMax > 0 && (s.finalFeedback.verdict == .requestChanges || s.finalFeedback.verdict == .acceptWithNits) &&
      roundIsStalled s.previousPatchSha patchSha s.bestProgress roundProgress then
    let count := saturatingAddU8 s.noProgressCount 1
    if count ≥ S.noProgressMax then
      (true, { s with
        noProgressCount := count
        noProgressExceeded := true
        finalFeedback := noProgressFeedback S.reviewer count })
    else (false, carry { s with noProgressCount := count })
  else (false, carry { s with noProgressCount := 0 })

/-- What the round comes to. Gives whether the loop stops. -/
def settleRound (s : LoopState) (checkResult : CheckResult) (patchSha : Option String) : RunM (Bool × LoopState) := do
  if s.budgetExceeded then
    pure (true, { s with finalFeedback := budgetExceededFeedback S.reviewer s.usage })
  else if S.terminal s.finalFeedback.verdict checkResult then pure (true, s)
  else if ← S.options.isCancelled then
    pure (true, { s with cancelled := true, finalFeedback := cancelledFeedback S.reviewer })
  else if s.finalFeedback.verdict == .block then pure (true, s)
  else if S.config.orchestration.crossfireAction.halts && mostSevereCrossfire s.currentCrossfire == some .block then
    pure (true, { s with crossfireHalted := true })
  else pure (S.guardProgress s checkResult patchSha)

/-- The lead's output so far is replaced by a new generation. -/
def generated (s : LoopState) (output : AgentOutput) (crossfire : List ReviewerFeedback) : LoopState :=
  let usage := accumulateOutputUsage s.usage output
  let budgetExceeded := exceedsBudget usage S.config.orchestration
  { s with
    leadOutput := output
    currentCrossfire := crossfire
    crossfireFeedback := s.crossfireFeedback ++ crossfire
    usage := usage
    budgetExceeded := budgetExceeded
    finalFeedback := if budgetExceeded then budgetExceededFeedback S.reviewer usage else s.finalFeedback }

def refineRound (s : LoopState) : RunM LoopState := do
  let refineFeedback := if S.config.orchestration.crossfireAction.redirects
    then mergeCrossfireIntoFeedback s.finalFeedback s.currentCrossfire else s.finalFeedback
  let (output, crossfire) ← withContext s!"lead adapter `{S.lead}` failed during refinement"
    (collectOutputWithCrossfire (ask (.refine S.lead s.leadOutput refineFeedback)) S.reviewer S.strictness)
  pure (S.generated s output crossfire)

/-- The rounds from number `roundIndex` on, with so many refinements left. -/
def refinementLoop (goal : Option GoalSpec) : (refinements roundIndex : Nat) → LoopState → RunM LoopState
  | refinements, roundIndex, s =>
    if s.budgetExceeded then pure s
    else do
      let (s, checkResult, patchSha) ← S.reviewRound goal roundIndex s
      let (stop, s) ← S.settleRound s checkResult patchSha
      if stop then pure s
      else
        match refinements with
        | 0 => pure s
        | refinements + 1 => do
          let s ← S.refineRound s
          refinementLoop goal refinements (roundIndex + 1) s

/-! ### The strategies -/

/-- The state before the first generation. -/
def initial (output : AgentOutput) : LoopState where
  leadOutput := output
  currentCrossfire := []
  usage := UsageStats.default
  finalFeedback := .lgtm S.reviewer "review not run"
  budgetExceeded := false
  previousPatchSha := none
  noProgressCount := 0
  noProgressExceeded := false
  crossfireHalted := false
  cancelled := false
  lastCheck := none
  ranUnconfined := false
  bestProgress := none
  rounds := []
  crossfireFeedback := []

def maxRefinementRounds : Nat :=
  match S.config.orchestration.defaultStrategy with
  | .consensus => S.selection.maxRefinementRounds
  | .pipeline | .tournament => 0

/-- Consensus and pipeline. -/
def runConsensus (task : Task) : RunM RunReport := do
  let (output, crossfire) ← withContext s!"lead adapter `{S.lead}` failed"
    (collectOutputWithCrossfire (ask (.implement S.lead)) S.reviewer S.strictness)
  let s := S.generated (S.initial output) output crossfire
  let goal ← buildGoalEvaluator S.options
  let s ← S.refinementLoop goal S.maxRefinementRounds 0 s
  let finalPatch ← selectFinalPatch S.externals s.leadOutput s.finalFeedback S.config.orchestration.conflictPolicy
  conclude S.externals task S.config S.selection S.options finalPatch
    { rounds := s.rounds
      crossfireFeedback := s.crossfireFeedback
      finalOutput := s.leadOutput
      finalFeedback := s.finalFeedback
      usage := s.usage
      budgetExceeded := s.budgetExceeded
      noProgressExceeded := s.noProgressExceeded
      crossfireHalted := s.crossfireHalted
      cancelled := s.cancelled
      lastCheck := s.lastCheck
      ranUnconfined := s.ranUnconfined }

/-- The candidates' reviews: what was used, whether that was too much, the output chosen
and the feedback it goes with. -/
def judgeTournament (leadOutput reviewerOutput : AgentOutput) :
    RunM (UsageStats × Bool × AgentOutput × ReviewerFeedback) := do
  let usage := accumulateOutputUsage (accumulateOutputUsage UsageStats.default leadOutput) reviewerOutput
  if exceedsBudget usage S.config.orchestration then
    pure (usage, true, leadOutput, budgetExceededFeedback S.reviewer usage)
  else
    let leadReview ← withContext s!"reviewer adapter `{S.reviewer}` failed" do
      orFail (← ask (.review S.reviewer leadOutput S.strictness))
    let usage := accumulateFeedbackUsage usage leadReview
    let reviewerReview ← withContext s!"lead adapter `{S.lead}` failed during tournament review" do
      orFail (← ask (.review S.lead reviewerOutput S.strictness))
    let usage := accumulateFeedbackUsage usage reviewerReview
    if exceedsBudget usage S.config.orchestration then
      pure (usage, true, leadOutput, budgetExceededFeedback S.reviewer usage)
    else if leadReview.verdict.isTerminalSuccess then pure (usage, false, leadOutput, leadReview)
    else if reviewerReview.verdict.isTerminalSuccess ||
        S.config.orchestration.conflictPolicy == .reviewerPriority then
      pure (usage, false, reviewerOutput, reviewerReview)
    else pure (usage, false, leadOutput, leadReview)

def runTournamentStrategy (task : Task) : RunM RunReport := do
  let leadOutput ← withContext "tournament candidate generation failed" do orFail (← ask (.implement S.lead))
  let reviewerOutput ← withContext "tournament candidate generation failed" do orFail (← ask (.implement S.reviewer))
  let (usage, budgetExceeded, finalOutput, finalFeedback) ← S.judgeTournament leadOutput reviewerOutput
  let goal ← buildGoalEvaluator S.options
  let outcome ← runGoalCheck goal
  let record : RoundRecord :=
    { round := 0
      lead := finalOutput
      reviewer := finalFeedback
      checkResult := some outcome.result
      patchSha := finalOutput.proposedPatch.map S.canonicalHash
      envelopeId := none }
  ask (.recordRound record)
  let finalPatch ← selectFinalPatch S.externals finalOutput finalFeedback S.config.orchestration.conflictPolicy
  let cancelled ← S.options.isCancelled
  conclude S.externals task S.config S.selection S.options finalPatch
    { rounds := [record]
      crossfireFeedback := []
      finalOutput := finalOutput
      finalFeedback := finalFeedback
      usage := usage
      budgetExceeded := budgetExceeded
      noProgressExceeded := false
      crossfireHalted := false
      cancelled := cancelled
      lastCheck := some outcome.result
      ranUnconfined := outcome.ranUnconfined }

end Setting

def findAdapter (adapters : List String) (id : String) : Except RunError String :=
  match adapters.find? (· == id) with
  | some adapter => .ok adapter
  | none => .error [s!"no adapter registered for `{id}`"]

/-- A run, with the identifiers of the adapters that are registered. -/
def runSynapticLoop (X : Externals) (task : Task) (config : Config) (adapters : List String) (options : RunOptions) :
    RunM RunReport := do
  let options ← applyBuiltinVerifier options config
  let selection ← orFail (config.selectProfile X.ruleMatches task)
  let lead ← orFail (findAdapter adapters selection.lead)
  let reviewer ← orFail (findAdapter adapters selection.reviewer)
  let S : Setting := ⟨X, config, selection, lead, reviewer, options⟩
  match config.orchestration.defaultStrategy with
  | .tournament => S.runTournamentStrategy task
  | .consensus | .pipeline => S.runConsensus task

end Nerve.Run
