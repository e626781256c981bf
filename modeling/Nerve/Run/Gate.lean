import Nerve.Run.Loop

/-!
# The apply gate

A patch is applied only to a run that the operator consented to and that is not blocked, and
every way in which a run can go wrong blocks it. `GateHolds` says so of a report and
the exchanges it came from, and `apply_gate` that it holds of every report any run returns.
The flags a report combines are set on many paths, but it is `conclude` that combines
them, on every path; what it takes from the loop is only that the last check it
was told of is the one in the last round record (`Setting.refinementLoop_tracks`).
-/

namespace Nerve.Run

open Nerve Nerve.Patch Dialogue

/-- The check of the last round. -/
def RunReport.lastCheck (report : RunReport) : Option CheckResult :=
  report.rounds.getLast?.bind RoundRecord.checkResult

/-- The run was stopped: by its budget, for want of progress, by a live block, or by the operator. -/
def RunReport.Stopped (report : RunReport) : Prop :=
  report.budgetExceeded = true ∨ report.noProgressExceeded = true ∨ report.crossfireHalted = true ∨
    report.cancelled = true

/-- The operator granted the apply during the run. -/
def Granted (trace : Trace) : Prop := (⟨.isGranted, true⟩ : Exchange Question Question.Answer) ∈ trace

/-- The gate, for a run with these options and exchanges. A goal is in force when the options set one or
the report says whether it was met. -/
structure GateHolds (options : RunOptions) (trace : Trace) (report : RunReport) : Prop where
  applied : report.applied = true →
    (options.apply = true ∨ Granted trace) ∧ report.blocked = false ∧ report.finalPatch.isSome
  not_applied_of_blocked : report.blocked = true → report.applied = false
  blocked_of_stopped : report.Stopped → report.blocked = true
  blocked_of_goal : options.goal.isSome ∨ report.goalSatisfied.isSome →
    ¬ (report.lastCheck = some .pass ∨ report.lastCheck = some .skipped) → report.blocked = true
  blocked_of_nits : report.finalFeedback.verdict = .acceptWithNits →
    ¬ (report.selection.reviewStrictness.permitsNits = true ∧ report.lastCheck = some .pass) → report.blocked = true
  not_satisfied : report.Stopped ∨
      report.finalFeedback.verdict.acceptsUnder report.selection.reviewStrictness.permitsNits = false →
    report.goalSatisfied ≠ some true
  checked_of_satisfied : report.goalSatisfied = some true →
    report.lastCheck = some .pass ∨ report.lastCheck = some .skipped

theorem Granted.append_left {es es' : Trace} (h : Granted es') : Granted (es ++ es') := List.mem_append_right es h

/-- More exchanges before the run do not weaken the gate. -/
theorem GateHolds.append {options : RunOptions} {es es' : Trace} {report : RunReport}
    (h : GateHolds options es' report) : GateHolds options (es ++ es') report :=
  { h with applied := fun ha => ⟨(h.applied ha).1.imp_right Granted.append_left, (h.applied ha).2⟩ }

/-! ### Consent, veto, apply -/

theorem RunOptions.applyConsented_ensures (options : RunOptions) :
    options.applyConsented.Ensures fun es consented => consented = true → options.apply = true ∨ Granted es := by
  unfold applyConsented
  split_ifs with happly
  · exact ensures_pure fun _ => Or.inl happly
  · refine ensures_query fun granted hgranted => Or.inr ?_
    exact List.mem_singleton.mpr (by rw [← hgranted])
  · exact ensures_pure fun h => absurd h Bool.false_ne_true

/-- The classifier can only veto. -/
theorem applyClassifierDecision_le {X : Externals} {wantApply : Bool} {patch : Option NvPatch}
    {cfg : ApplyClassifierConfig} (h : (applyClassifierDecision X wantApply patch cfg).1 = true) :
    wantApply = true := by
  unfold applyClassifierDecision at h
  split_ifs at h
  · exact h
  · exact (Bool.and_eq_true_iff.mp h).1

theorem applyFinalPatch_ensures (finalPatch : Option NvPatch) (shouldApply useWorktree : Bool) :
    (applyFinalPatch finalPatch shouldApply useWorktree).Ensures fun _ applied =>
      applied = true → shouldApply = true ∧ finalPatch.isSome := by
  rcases shouldApply with _ | _
  · exact ensures_pure fun h => absurd h Bool.false_ne_true
  rcases finalPatch with _ | patch
  · exact ensures_pure fun h => absurd h Bool.false_ne_true
  · exact fun _ _ _ _ => ⟨rfl, rfl⟩

/-! ### The end of a run -/

theorem Option.any_isPassOrSkipped {check : Option CheckResult} :
    check.any CheckResult.isPassOrSkipped = true ↔ check = some .pass ∨ check = some .skipped := by
  rcases check with _ | _ | _ | _ <;> simp [CheckResult.isPassOrSkipped]

theorem eq_false_of_not {b : Bool} (h : (!b) = true) : b = false := by
  cases b
  · rfl
  · cases h

/-- **The end of every run keeps the gate**, if it is told of the last round's check. -/
theorem conclude_ensures {X : Externals} {task : Task} {config : Config} {selection : ProfileSelection}
    {options : RunOptions} {finalPatch : Option NvPatch} {run : Finished}
    (hlast : run.lastCheck = run.rounds.getLast?.bind RoundRecord.checkResult) :
    (conclude X task config selection options finalPatch run).Ensures (GateHolds options) := by
  unfold conclude
  refine options.applyConsented_ensures.bind fun es₁ consented hconsented => ?_
  refine (applyFinalPatch_ensures _ _ _).bind fun es₂ applied happlied => ?_
  refine ensures_pure ?_
  rw [List.append_nil]
  have hgate (ha : applied = true) := (Bool.and_eq_true_iff.mp (applyClassifierDecision_le (happlied ha).1)).imp_right
    eq_false_of_not
  constructor
  · intro ha
    obtain ⟨hc, hb⟩ := hgate ha
    exact ⟨(hconsented hc).imp_right (List.mem_append_left _), hb, (happlied ha).2⟩
  · intro hb
    rw [Bool.eq_false_iff]
    intro ha
    rw [(hgate ha).2] at hb
    cases hb
  · rintro (h | h | h | h) <;> simp only at h <;> simp [h]
  · intro hgoal hcheck
    have hsome : options.goal.isSome = true := by
      rcases hgoal with hgoal | hgoal
      · exact hgoal
      · simpa using hgoal
    have hnot : run.lastCheck.any CheckResult.isPassOrSkipped = false := by
      rw [Bool.eq_false_iff, ne_eq, Option.any_isPassOrSkipped, hlast]
      exact hcheck
    simp [goalCheckFailed, hsome, hnot]
  · intro hverdict hpass
    simp only at hverdict
    have hnot : (selection.reviewStrictness.permitsNits && run.lastCheck == some .pass) = false := by
      rw [Bool.eq_false_iff, ne_eq, Bool.and_eq_true_iff, beq_iff_eq, hlast]
      exact hpass
    simp [hverdict, hnot]
  · intro hnot
    rcases hg : options.goal with _ | spec
    · simp
    · rcases hnot with (h | h | h | h) | h <;> simp only at h <;> simp [h]
  · intro hsatisfied
    rw [RunReport.lastCheck, ← hlast, ← Option.any_isPassOrSkipped]
    rcases hg : options.goal with _ | spec
    · simp [hg] at hsatisfied
    · simp only [hg, Option.map_some, Option.some.injEq, Bool.and_eq_true] at hsatisfied
      exact hsatisfied.1.1.1.1.1

/-! ### The rounds -/

namespace Setting

variable (S : Setting)

/-- The last check is that of the last round. -/
def Tracks (s : LoopState) : Prop := s.lastCheck = s.rounds.getLast?.bind RoundRecord.checkResult

theorem reviewRound_tracks (goal : Option GoalSpec) (roundIndex : Nat) (s : LoopState) :
    (S.reviewRound goal roundIndex s).Ensures fun _ r => Tracks r.1 := by
  unfold reviewRound
  refine ensures_bind fun _ feedback => ?_
  refine ensures_bind fun _ outcome => ?_
  refine ensures_bind fun _ _ => ?_
  exact ensures_pure (by simp [Tracks])

/-- Settling a round leaves the records and the check alone. -/
theorem settleRound_ensures (s : LoopState) (checkResult : CheckResult) (patchSha : Option String) :
    (S.settleRound s checkResult patchSha).Ensures fun _ r =>
      r.2.rounds = s.rounds ∧ r.2.lastCheck = s.lastCheck := by
  have hguard : (S.guardProgress s checkResult patchSha).2.rounds = s.rounds ∧
      (S.guardProgress s checkResult patchSha).2.lastCheck = s.lastCheck := by
    dsimp only [guardProgress]
    split_ifs <;> exact ⟨rfl, rfl⟩
  unfold settleRound
  split
  · exact ensures_pure ⟨rfl, rfl⟩
  split
  · exact ensures_pure ⟨rfl, rfl⟩
  · refine ensures_bind fun _ cancelled => ?_
    split_ifs
    · exact ensures_pure ⟨rfl, rfl⟩
    · exact ensures_pure ⟨rfl, rfl⟩
    · exact ensures_pure ⟨rfl, rfl⟩
    · exact ensures_pure hguard

theorem refineRound_ensures (s : LoopState) :
    (S.refineRound s).Ensures fun _ s' => s'.rounds = s.rounds ∧ s'.lastCheck = s.lastCheck := by
  unfold refineRound
  exact ensures_bind fun _ _ => ensures_pure ⟨rfl, rfl⟩

/-- However the rounds end, the last check is that of the last record. -/
theorem refinementLoop_tracks (goal : Option GoalSpec) (refinements roundIndex : Nat) {s : LoopState}
    (h : Tracks s) : (S.refinementLoop goal refinements roundIndex s).Ensures fun _ s' => Tracks s' := by
  have hround {s s' : LoopState} (h : Tracks s) (hs : s'.rounds = s.rounds ∧ s'.lastCheck = s.lastCheck) :
      Tracks s' := by
    rw [Tracks, hs.1, hs.2]
    exact h
  induction refinements generalizing roundIndex s with
  | zero =>
    rw [refinementLoop]
    split_ifs
    · exact ensures_pure h
    · refine (S.reviewRound_tracks goal roundIndex s).bind fun _ r hr => ?_
      refine (S.settleRound_ensures _ _ _).bind fun _ ⟨stop, s'⟩ hr' => ?_
      rcases stop with _ | _ <;> exact ensures_pure (hround hr hr')
  | succ refinements ih =>
    rw [refinementLoop]
    split_ifs
    · exact ensures_pure h
    · refine (S.reviewRound_tracks goal roundIndex s).bind fun _ r hr => ?_
      refine (S.settleRound_ensures _ _ _).bind fun _ ⟨stop, s'⟩ hr' => ?_
      rcases stop with _ | _
      · refine (S.refineRound_ensures _).bind fun _ s'' hs'' => ?_
        exact ih (roundIndex + 1) (hround (hround hr hr') hs'')
      · exact ensures_pure (hround hr hr')

theorem runConsensus_ensures (task : Task) : (S.runConsensus task).Ensures (GateHolds S.options) := by
  unfold runConsensus
  refine ensures_bind fun _ ⟨output, crossfire⟩ => ?_
  refine ensures_bind fun _ goal => ?_
  have hinitial : Tracks (S.generated (S.initial output) output crossfire) := rfl
  refine (S.refinementLoop_tracks goal _ 0 hinitial).bind fun _ s hs => ?_
  refine ensures_bind fun _ finalPatch => ?_
  refine (conclude_ensures ?_).mono fun es report h => h.append.append.append.append
  exact hs

theorem runTournamentStrategy_ensures (task : Task) :
    (S.runTournamentStrategy task).Ensures (GateHolds S.options) := by
  unfold runTournamentStrategy
  iterate 8 refine ensures_bind fun _ _ => ?_
  exact (conclude_ensures rfl).mono fun es report h => h.append.append.append.append.append.append.append.append

end Setting

/-! ### The result -/

theorem applyBuiltinVerifier_ensures (options : RunOptions) (config : Config) :
    (applyBuiltinVerifier options config).Ensures fun _ options' =>
      options'.apply = options.apply ∧ (options.goal.isSome → options'.goal.isSome) := by
  unfold applyBuiltinVerifier
  split_ifs with hgoal
  · exact ensures_pure ⟨rfl, id⟩
  · refine ensures_bind fun _ consent => ensures_bind fun _ resolved => ensures_pure ⟨rfl, fun h => absurd h hgoal⟩

theorem runSynapticLoop_ensures (X : Externals) (task : Task) (config : Config) (adapters : List String)
    (options : RunOptions) : (runSynapticLoop X task config adapters options).Ensures (GateHolds options) := by
  unfold runSynapticLoop
  refine (applyBuiltinVerifier_ensures options config).bind fun _ options' hoptions => ?_
  refine ensures_bind fun _ selection => ?_
  refine ensures_bind fun _ lead => ?_
  refine ensures_bind fun _ reviewer => ?_
  have hgate {es : Trace} {report : RunReport} (h : GateHolds options' es report) : GateHolds options es report :=
    { h with
      applied := hoptions.1 ▸ h.applied
      blocked_of_goal := fun hg => h.blocked_of_goal (hg.imp_left hoptions.2) }
  split
  · exact (Setting.runTournamentStrategy_ensures _ task).mono fun es report h => (hgate h).append.append.append.append
  · exact (Setting.runConsensus_ensures _ task).mono fun es report h => (hgate h).append.append.append.append
  · exact (Setting.runConsensus_ensures _ task).mono fun es report h => (hgate h).append.append.append.append

/-- **The apply gate** holds of the report of every run of every strategy, whatever the world answers. -/
theorem apply_gate {X : Externals} {task : Task} {config : Config} {adapters : List String} {options : RunOptions}
    {trace : Trace} {report : RunReport}
    (h : Runs (runSynapticLoop X task config adapters options) trace (.ok report)) :
    GateHolds options trace report :=
  runSynapticLoop_ensures X task config adapters options trace report h

/-! ### A run -/

/-- Other crates as far as the sample run goes: no rules, no globs, one digest. -/
def sampleExternals : Externals where
  sha256Hex _ := "digest"
  textDiff _ _ _ _ := ""
  ruleMatches _ _ := .ok false
  globsMatch _ _ := false

/-- One lead, one reviewer, one refinement, no limits. -/
def sampleConfig (policy : ConflictPolicy) : Config where
  orchestration :=
    { defaultStrategy := .consensus
      maxRefinementRounds := 1
      conflictPolicy := policy
      maxTotalTokens := none
      maxEstimatedCostMicrousd := none
      worktreeApply := false
      builtinVerifier := ⟨.off, [], 600⟩
      crossfireAction := .off
      applyClassifier := ⟨.off, 25, 800, [], true⟩ }
  roles := ⟨"claude-code", "codex"⟩
  profiles := []
  source := .default

def sampleTask : Task := ⟨"task", "add a file", ⟨"/work"⟩, []⟩

def sampleGoal : GoalSpec := ⟨"goal", ["cargo", "test"], 600, none, [], none⟩

/-- A run with a goal that the operator may grant the apply. -/
def sampleOptions : RunOptions where
  apply := false
  goal := some sampleGoal
  worktree := none
  applyGrant := true
  cancelToken := false

/-- A world that answers each question in one way: the lead's output, the review, the check. -/
def sampleWorld (output : AgentOutput) (review : ReviewerFeedback) (check : CheckResult) (_ : Trace) :
    (q : Question) → q.Answer
  | .projectVerifierConsent => false
  | .detectBuiltinVerifier => none
  | .scratchWatcher => .ok ()
  | .pollsBeforeOutput => 0
  | .nextChange => .ok none
  | .implement _ => .ok output
  | .refine _ _ _ => .ok output
  | .review _ _ _ => .ok review
  | .crossfire _ _ _ => .ok review
  | .goalEvaluator _ => .ok ()
  | .evaluate _ => ⟨check, false⟩
  | .recordRound _ => ()
  | .isCancelled => false
  | .isGranted => true
  | .newPatchId => "patch"
  | .gitMergeFile _ lead _ => .ok ⟨.exited 0, lead, ""⟩
  | .applyInPlace _ => .ok ()
  | .worktreeIsolator => .ok ()
  | .prepareRound => .ok ()
  | .applyInWorktree _ => .ok ()
  | .commitWorktreeRound => .ok ()
  | .mergeRound => .ok ()
  | .discardRound => ()

/-- The output of a lead that creates one file. -/
def sampleOutput : AgentOutput where
  agentId := "claude-code"
  rawText := ""
  proposedPatch := some ⟨"patch", none, [.create sampleSha256Hex ⟨"a"⟩ "text\n"]⟩
  toolCalls := []
  cost := none

/-- A granted run is applied. -/
theorem apply_gate_granted : ∃ trace report,
    Runs (runSynapticLoop sampleExternals sampleTask (sampleConfig .reviewerBlock) ["claude-code", "codex"]
      sampleOptions) trace (.ok report) ∧ report.applied = true ∧ GateHolds sampleOptions trace report := by
  have hruns := runs_play (sampleWorld sampleOutput (.lgtm "codex" "LGTM") .pass) []
    (runSynapticLoop sampleExternals sampleTask (sampleConfig .reviewerBlock) ["claude-code", "codex"] sampleOptions)
  exact ⟨_, _, hruns, rfl, apply_gate hruns⟩

end Nerve.Run
