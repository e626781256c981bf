import Nerve.Library.Text
import Nerve.Patch.Model
import Mathlib.Algebra.Group.Nat.Defs

/-!
# What a run is made of

The data of `nerve-types` and of `nerve-config` that a run of the loop reads: tasks, the
outputs of adapters, reviews, checks and round records, and the settings that decide
how a run goes on and when it stops. Machine integers are natural numbers with
the source's saturation where it adds. Token and cost figures are `u64`, round numbers and
the no-progress counter `u8`.
-/

namespace Nerve.Run

open Nerve.Patch

/-- `u8::saturating_add`. -/
def saturatingAddU8 (a b : Nat) : Nat := min (a + b) (2 ^ 8 - 1)

/-! ### Tasks, outputs, reviews -/

structure Task where
  id : String
  prompt : String
  cwd : PathBuf
  contextPaths : List PathBuf
  deriving DecidableEq, Repr

structure ToolCall where
  name : String
  arguments : String
  deriving DecidableEq, Repr

/-- What an agent sends while it runs. -/
inductive AgentEvent where
  | stdout (agentId line : String)
  | stderr (agentId line : String)
  | tool (agentId : String) (call : ToolCall)
  | done (agentId : String)
  deriving DecidableEq, Repr

/-- How a process ended. -/
inductive ExitStatus where
  | exited (code : Nat)
  /-- Killed by a signal; the text is how the status is shown. -/
  | signaled (shown : String)
  deriving DecidableEq, Repr

def ExitStatus.toText : ExitStatus → String
  | .exited code => s!"exit status: {code}"
  | .signaled shown => shown

def ExitStatus.success (status : ExitStatus) : Bool := status == .exited 0

structure UsageStats where
  inputTokens : Nat
  outputTokens : Nat
  estimatedCostMicrousd : Option Nat
  deriving DecidableEq, Repr

namespace UsageStats

/-- Nothing used. -/
def default : UsageStats := ⟨0, 0, none⟩

def totalTokens (u : UsageStats) : Nat := Text.saturatingAdd u.inputTokens u.outputTokens

def addAssign (u other : UsageStats) : UsageStats where
  inputTokens := Text.saturatingAdd u.inputTokens other.inputTokens
  outputTokens := Text.saturatingAdd u.outputTokens other.outputTokens
  estimatedCostMicrousd :=
    match u.estimatedCostMicrousd, other.estimatedCostMicrousd with
    | some current, some next => some (Text.saturatingAdd current next)
    | some current, none => some current
    | none, some next => some next
    | none, none => none

end UsageStats

structure AgentOutput where
  agentId : String
  rawText : String
  proposedPatch : Option NvPatch
  toolCalls : List ToolCall
  cost : Option UsageStats
  deriving DecidableEq, Repr

inductive Verdict where
  | lgtm
  | acceptWithNits
  | requestChanges
  | block
  deriving DecidableEq, Repr

namespace Verdict

def isTerminalSuccess : Verdict → Bool
  | .lgtm => true
  | _ => false

/-- Whether the verdict is an acceptance, given whether nits are permitted. -/
def acceptsUnder (v : Verdict) (nitsPermitted : Bool) : Bool :=
  match v with
  | .lgtm => true
  | .acceptWithNits => nitsPermitted
  | _ => false

end Verdict

inductive IssueSeverity where
  | info
  | warning
  | blocking
  deriving DecidableEq, Repr

structure Issue where
  severity : IssueSeverity
  message : String
  deriving DecidableEq, Repr

structure ReviewerFeedback where
  reviewerId : String
  verdict : Verdict
  issues : List Issue
  suggestedPatch : Option NvPatch
  cost : Option UsageStats
  rawText : String
  deriving DecidableEq, Repr

def ReviewerFeedback.lgtm (reviewerId rawText : String) : ReviewerFeedback where
  reviewerId := reviewerId
  verdict := .lgtm
  issues := []
  suggestedPatch := none
  cost := none
  rawText := rawText

/-! ### Checks and rounds -/

inductive CheckResult where
  | pass
  /-- The progress is a ratio in thousandths. -/
  | fail (reason : String) (progress : Option Nat)
  | skipped
  deriving DecidableEq, Repr

/-- The check is green, or there was none to run. -/
def CheckResult.isPassOrSkipped : CheckResult → Bool
  | .pass | .skipped => true
  | .fail _ _ => false

structure CheckOutcome where
  result : CheckResult
  ranUnconfined : Bool
  deriving DecidableEq, Repr

structure RoundRecord where
  round : Nat
  lead : AgentOutput
  reviewer : ReviewerFeedback
  checkResult : Option CheckResult
  patchSha : Option String
  envelopeId : Option String
  deriving DecidableEq, Repr

structure GoalSpec where
  id : String
  checkCmd : List String
  timeoutSecs : Nat
  cwd : Option PathBuf
  env : List (String × String)
  noProgressMax : Option Nat
  deriving DecidableEq, Repr

/-! ### Settings -/

inductive Strategy where
  | consensus
  | pipeline
  | tournament
  deriving DecidableEq, Repr

inductive ConflictPolicy where
  | leadPriority
  | reviewerPriority
  | mergeAttempt
  | abortOnConflict
  | reviewerBlock
  | manual
  deriving DecidableEq, Repr

inductive ReviewStrictness where
  | low
  | normal
  | high
  deriving DecidableEq, Repr

def ReviewStrictness.permitsNits : ReviewStrictness → Bool
  | .low | .normal => true
  | .high => false

def strictnessLabel : ReviewStrictness → String
  | .low => "low"
  | .normal => "normal"
  | .high => "high"

inductive CrossfireAction where
  | off
  | redirect
  | halt
  deriving DecidableEq, Repr

namespace CrossfireAction

def redirects : CrossfireAction → Bool
  | .redirect | .halt => true
  | .off => false

def halts : CrossfireAction → Bool
  | .halt => true
  | _ => false

end CrossfireAction

inductive ApplyClassifierMode where
  | off
  | advisory
  | enforce
  deriving DecidableEq, Repr

namespace ApplyClassifierMode

def classifies : ApplyClassifierMode → Bool
  | .advisory | .enforce => true
  | .off => false

def enforces : ApplyClassifierMode → Bool
  | .enforce => true
  | _ => false

end ApplyClassifierMode

structure ApplyClassifierConfig where
  mode : ApplyClassifierMode
  maxFiles : Nat
  maxLines : Nat
  riskyPathGlobs : List String
  flagDestructiveOps : Bool
  deriving DecidableEq, Repr

inductive BuiltinVerifierMode where
  | off
  | auto
  | command
  deriving DecidableEq, Repr

structure BuiltinVerifierConfig where
  mode : BuiltinVerifierMode
  command : List String
  timeoutSecs : Nat
  deriving DecidableEq, Repr

/-- The settings of the loop. -/
structure Orchestration where
  defaultStrategy : Strategy
  maxRefinementRounds : Nat
  conflictPolicy : ConflictPolicy
  maxTotalTokens : Option Nat
  maxEstimatedCostMicrousd : Option Nat
  worktreeApply : Bool
  builtinVerifier : BuiltinVerifierConfig
  crossfireAction : CrossfireAction
  applyClassifier : ApplyClassifierConfig
  deriving DecidableEq, Repr

inductive ConfigSource where
  | project
  | user
  | default
  deriving DecidableEq, Repr

inductive MatchRules where
  | any (rules : List String)
  | logic (allRules anyRules : List String)
  deriving DecidableEq, Repr

structure Profile where
  id : String
  matchRules : MatchRules
  lead : String
  reviewer : String
  reviewStrictness : ReviewStrictness
  maxRefinementRounds : Option Nat
  deriving DecidableEq, Repr

structure Roles where
  architect : String
  reviewer : String
  deriving DecidableEq, Repr

structure Config where
  orchestration : Orchestration
  roles : Roles
  profiles : List Profile
  source : ConfigSource
  deriving DecidableEq, Repr

structure ProfileSelection where
  id : Option String
  lead : String
  reviewer : String
  reviewStrictness : ReviewStrictness
  maxRefinementRounds : Nat
  deriving DecidableEq, Repr

/-- Whether an executing built-in verifier may run the repository's code. -/
def Config.builtinVerifierExecTrusted (c : Config) (operatorConsent : Bool) : Bool :=
  match c.source with
  | .user | .default => true
  | .project => operatorConsent

/-! ### Choosing the profile -/

/-- An error with its contexts, outermost first. -/
abbrev RunError := List String

section Profiles

-- `ruleMatches`: the rule's text occurs in the prompt, letter case aside, or it is a glob and
-- matches a context path.
variable (ruleMatches : String → Task → Except RunError Bool)

def anyRuleMatches : List String → Task → Except RunError Bool
  | [], _ => .ok false
  | rule :: rules, task =>
    match ruleMatches rule task with
    | .error e => .error e
    | .ok true => .ok true
    | .ok false => anyRuleMatches rules task

def allRulesMatch : List String → Task → Except RunError Bool
  | [], _ => .ok true
  | rule :: rules, task =>
    match ruleMatches rule task with
    | .error e => .error e
    | .ok false => .ok false
    | .ok true => allRulesMatch rules task

def MatchRules.isEmpty : MatchRules → Bool
  | .any rules => rules.isEmpty
  | .logic allRules anyRules => allRules.isEmpty && anyRules.isEmpty

def Profile.matches (p : Profile) (task : Task) : Except RunError Bool :=
  if p.matchRules.isEmpty then .ok false
  else
    match p.matchRules with
    | .any rules => anyRuleMatches ruleMatches rules task
    | .logic allRules anyRules =>
      match allRulesMatch ruleMatches allRules task with
      | .error e => .error e
      | .ok allMatch =>
        if anyRules.isEmpty && !allRules.isEmpty then .ok allMatch
        else
          match anyRuleMatches ruleMatches anyRules task with
          | .error e => .error e
          | .ok anyMatch => .ok (allMatch && anyMatch)

/-- The first profile that matches, else the roles of the configuration. -/
def Config.selectProfile (c : Config) (task : Task) : Except RunError ProfileSelection :=
  let rec go : List Profile → Except RunError ProfileSelection
    | [] => .ok
        { id := none
          lead := c.roles.architect
          reviewer := c.roles.reviewer
          reviewStrictness := .normal
          maxRefinementRounds := c.orchestration.maxRefinementRounds }
    | p :: ps =>
      match p.matches ruleMatches task with
      | .error e => .error e
      | .ok true => .ok
          { id := some p.id
            lead := p.lead
            reviewer := p.reviewer
            reviewStrictness := p.reviewStrictness
            maxRefinementRounds := p.maxRefinementRounds.getD c.orchestration.maxRefinementRounds }
      | .ok false => go ps
  go c.profiles

end Profiles

end Nerve.Run
