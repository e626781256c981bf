import Nerve.Run.Loop

/-!
# The stages of a run

Which questions a part of a run can ask: each question belongs to a stage, and the parts
around the loop ask only the questions of theirs. What a stage leaves alone (the tree, the history of the
run) is then a statement about its questions.
-/

namespace Nerve.Run

open Nerve Nerve.Patch Dialogue

inductive Stage where
  /-- The verifier and the evaluator. -/
  | setUp
  /-- A generation of the lead, watched. -/
  | generate
  /-- A review and a check. -/
  | review
  /-- Between the rounds. -/
  | settle
  /-- The final patch is selected. -/
  | merge
  /-- Consent and apply. -/
  | finish
  deriving DecidableEq, Repr

def Question.stage : Question → Stage
  | .projectVerifierConsent | .detectBuiltinVerifier | .goalEvaluator _ => .setUp
  | .scratchWatcher | .pollsBeforeOutput | .nextChange | .implement _ | .refine _ _ _ | .crossfire _ _ _ => .generate
  | .review _ _ _ | .evaluate _ | .recordRound _ => .review
  | .isCancelled => .settle
  | .newPatchId | .gitMergeFile _ _ _ => .merge
  | .isGranted | .applyInPlace _ | .worktreeIsolator | .prepareRound | .applyInWorktree _ | .commitWorktreeRound
  | .mergeRound | .discardRound => .finish

/-- A part of a run that asks only the questions of one stage. -/
abbrev InStage {α : Type} (stage : Stage) (d : RunM α) : Prop := d.Asks fun q => q.stage = stage

theorem InStage.ne {α : Type} {stage other : Stage} {d : RunM α} (h : InStage stage d) (hstage : stage ≠ other) :
    d.Asks fun q => q.stage ≠ other :=
  h.mono fun _ hq => hq ▸ hstage

theorem ask_inStage {q : Question} {stage : Stage} (h : q.stage = stage) : InStage stage (ask q) := asks_query h

theorem orFail_inStage {α : Type} (stage : Stage) (r : Except RunError α) : InStage stage (orFail r) := asks_ofExcept r

/-- A question, and the failure it may answer with. -/
theorem askOrFail_asks {α : Type} {P : Question → Prop} {q : Question} (context : String) (h : P q)
    (r : q.Answer → Except RunError α) : (withContext context do orFail (r (← ask q))).Asks P :=
  Asks.mapError (Asks.bind (asks_query h) fun _ => asks_ofExcept _)

theorem askOrFail_inStage {α : Type} {stage : Stage} {q : Question} (context : String) (h : q.stage = stage)
    (r : q.Answer → Except RunError α) : InStage stage (withContext context do orFail (r (← ask q))) :=
  askOrFail_asks context h r

/-- The verifier takes at most two questions. -/
theorem applyBuiltinVerifier_asks {P : Question → Prop} (hconsent : P .projectVerifierConsent)
    (hdetect : P .detectBuiltinVerifier) (options : RunOptions) (config : Config) :
    (applyBuiltinVerifier options config).Asks P := by
  have hresolve (execTrusted : Bool) : (resolveBuiltinVerifier config.orchestration execTrusted).Asks P := by
    unfold resolveBuiltinVerifier
    dsimp only
    split
    · exact asks_pure _
    split
    · exact asks_pure _
    · exact Asks.bind (asks_query hdetect) fun _ => asks_pure _
    · exact asks_pure _
  unfold applyBuiltinVerifier
  split_ifs
  · exact asks_pure _
  · exact Asks.bind (asks_query hconsent) fun _ => (hresolve _).bind fun _ => asks_pure _

theorem applyBuiltinVerifier_inStage (options : RunOptions) (config : Config) :
    InStage .setUp (applyBuiltinVerifier options config) :=
  applyBuiltinVerifier_asks (P := fun q => q.stage = .setUp) rfl rfl options config

theorem buildGoalEvaluator_inStage (options : RunOptions) : InStage .setUp (buildGoalEvaluator options) := by
  unfold buildGoalEvaluator
  split
  · exact asks_pure _
  · exact (askOrFail_inStage _ rfl _).bind fun _ => asks_pure _

theorem buildGoalEvaluator_ensures (options : RunOptions) :
    (buildGoalEvaluator options).Ensures fun _ goal => goal = options.goal := by
  unfold buildGoalEvaluator
  split
  · exact ensures_pure (Eq.symm ‹_›)
  · exact ensures_bind fun _ _ => ensures_pure (Eq.symm ‹_›)

section End

variable (X : Externals)

theorem gitMergeFile_inStage (base lead reviewer : String) : InStage .merge (gitMergeFile base lead reviewer) := by
  refine (ask_inStage rfl).bind fun _ => (orFail_inStage _ _).bind fun output => ?_
  dsimp only
  split
  · split_ifs
    · exact asks_pure _
    · exact asks_fail _
  · exact asks_fail _

theorem mergeFilePatch_inStage (lead reviewer : FilePatch) : InStage .merge (mergeFilePatch X lead reviewer) := by
  unfold mergeFilePatch
  split_ifs
  · exact asks_fail _
  · exact asks_fail _
  · split
    · exact (gitMergeFile_inStage _ _ _).mapError.bind fun _ => asks_pure _
    · exact (gitMergeFile_inStage _ _ _).mapError.bind fun _ => asks_pure _
    · exact asks_fail _
    · exact asks_fail _

theorem mergeFiles_inStage (files reviewerFiles : List FilePatch) :
    InStage .merge (mergeFiles X files reviewerFiles) := by
  induction reviewerFiles generalizing files with
  | nil => exact asks_pure _
  | cons reviewerFile rest ih =>
    unfold mergeFiles
    split
    · exact ih _
    · split
      · exact ih _
      · split_ifs
        · exact ih _
        · exact (mergeFilePatch_inStage X _ _).bind fun _ => ih _

theorem selectFinalPatch_inStage (output : AgentOutput) (feedback : ReviewerFeedback) (policy : ConflictPolicy) :
    InStage .merge (selectFinalPatch X output feedback policy) := by
  cases policy with
  | mergeAttempt =>
    refine Asks.mapError ?_
    unfold mergePatches
    split
    · exact asks_pure _
    · exact asks_pure _
    · exact (mergeFiles_inStage X _ _).bind fun _ => (ask_inStage rfl).bind fun _ => asks_pure _
  | _ => exact asks_pure _

/-- A question of the apply itself. -/
def Question.IsApply (q : Question) : Prop := q.stage = .finish ∧ q ≠ .isGranted

theorem applyWithWorktree_asks (patch : NvPatch) : (applyWithWorktree patch).Asks Question.IsApply := by
  unfold applyWithWorktree
  refine (askOrFail_asks _ ⟨rfl, nofun⟩ _).bind fun _ => (askOrFail_asks _ ⟨rfl, nofun⟩ _).bind fun _ => ?_
  refine Asks.bind (asks_query ⟨rfl, nofun⟩) fun patched => ?_
  split
  · exact Asks.bind (asks_query ⟨rfl, nofun⟩) fun _ => asks_fail _
  · refine Asks.bind (asks_query ⟨rfl, nofun⟩) fun committed => ?_
    split
    · exact Asks.bind (asks_query ⟨rfl, nofun⟩) fun _ => asks_fail _
    · exact (askOrFail_asks _ ⟨rfl, nofun⟩ _).bind fun _ => asks_pure _

theorem applyFinalPatch_asks (finalPatch : Option NvPatch) (shouldApply useWorktree : Bool) :
    (applyFinalPatch finalPatch shouldApply useWorktree).Asks Question.IsApply := by
  rcases shouldApply with _ | _
  · exact asks_pure _
  rcases finalPatch with _ | patch
  · exact asks_pure _
  rcases useWorktree with _ | _
  · exact Asks.bind (asks_query ⟨rfl, nofun⟩) fun _ => Asks.bind (asks_ofExcept _) fun _ => asks_pure _
  · exact applyWithWorktree_asks patch

theorem applyFinalPatch_inStage (finalPatch : Option NvPatch) (shouldApply useWorktree : Bool) :
    InStage .finish (applyFinalPatch finalPatch shouldApply useWorktree) :=
  (applyFinalPatch_asks finalPatch shouldApply useWorktree).mono fun _ => And.left

theorem conclude_inStage (task : Task) (config : Config) (selection : ProfileSelection) (options : RunOptions)
    (finalPatch : Option NvPatch) (run : Finished) :
    InStage .finish (conclude X task config selection options finalPatch run) := by
  have hconsent : InStage .finish options.applyConsented := by
    unfold RunOptions.applyConsented
    split_ifs
    · exact asks_pure _
    · exact ask_inStage rfl
    · exact asks_pure _
  unfold conclude
  exact hconsent.bind fun _ => (applyFinalPatch_inStage _ _ _).bind fun _ => asks_pure _

end End

/-! ### The rounds -/

theorem pollScratch_inStage (reviewer strictness : String) (polls : Nat) :
    InStage .generate (pollScratch reviewer strictness polls) := by
  induction polls with
  | zero => exact asks_pure _
  | succ polls ih =>
    refine (ask_inStage rfl).bind fun change => (orFail_inStage _ _).bind fun change => ?_
    rcases change with _ | summary
    · exact ih.bind fun _ => asks_pure _
    · exact (ask_inStage rfl).bind fun _ => (orFail_inStage _ _).bind fun _ => ih.bind fun _ => asks_pure _

theorem collectOutputWithCrossfire_inStage {generation : RunM (Except RunError AgentOutput)}
    (h : InStage .generate generation) (reviewer strictness : String) :
    InStage .generate (collectOutputWithCrossfire generation reviewer strictness) := by
  refine (ask_inStage rfl).bind fun _ => (orFail_inStage _ _).bind fun _ => (ask_inStage rfl).bind fun polls => ?_
  exact (pollScratch_inStage _ _ _).bind fun _ => h.bind fun _ => (orFail_inStage _ _).bind fun _ => asks_pure _

theorem runGoalCheck_inStage (goal : Option GoalSpec) : InStage .review (runGoalCheck goal) := by
  rcases goal with _ | spec
  · exact asks_pure _
  · exact ask_inStage rfl

theorem isCancelled_inStage (options : RunOptions) : InStage .settle options.isCancelled := by
  unfold RunOptions.isCancelled
  split_ifs
  · exact ask_inStage rfl
  · exact asks_pure _

namespace Setting

variable (S : Setting)

theorem reviewRound_inStage (goal : Option GoalSpec) (roundIndex : Nat) (s : LoopState) :
    InStage .review (S.reviewRound goal roundIndex s) :=
  Asks.bind (askOrFail_inStage _ rfl _) fun _ => (runGoalCheck_inStage goal).bind fun _ =>
    (ask_inStage rfl).bind fun _ => asks_pure _

theorem settleRound_inStage (s : LoopState) (checkResult : CheckResult) (patchSha : Option String) :
    InStage .settle (S.settleRound s checkResult patchSha) := by
  unfold settleRound
  split
  · exact asks_pure _
  split
  · exact asks_pure _
  · refine (isCancelled_inStage _).bind fun _ => ?_
    split_ifs <;> exact asks_pure _

theorem refineRound_inStage (s : LoopState) : InStage .generate (S.refineRound s) := by
  have hrefine (feedback : ReviewerFeedback) : InStage .generate (ask (.refine S.lead s.leadOutput feedback)) :=
    ask_inStage rfl
  exact Asks.bind (collectOutputWithCrossfire_inStage (hrefine _) _ _).mapError fun _ => asks_pure _

/-- The loop asks what its reviews ask, and the questions of two other stages. -/
theorem refinementLoop_asks {P : Question → Prop} {goal : Option GoalSpec}
    (hreview : ∀ roundIndex s, (S.reviewRound goal roundIndex s).Asks P)
    (hrest : ∀ q : Question, q.stage = .settle ∨ q.stage = .generate → P q)
    (refinements roundIndex : Nat) (s : LoopState) : (S.refinementLoop goal refinements roundIndex s).Asks P := by
  have hsettle (s : LoopState) (c : CheckResult) (sha : Option String) : (S.settleRound s c sha).Asks P :=
    (S.settleRound_inStage s c sha).mono fun q hq => hrest q (Or.inl hq)
  have hrefine (s : LoopState) : (S.refineRound s).Asks P :=
    (S.refineRound_inStage s).mono fun q hq => hrest q (Or.inr hq)
  induction refinements generalizing roundIndex s with
  | zero =>
    rw [refinementLoop]
    split_ifs
    · exact asks_pure _
    · refine (hreview roundIndex s).bind fun _ => (hsettle _ _ _).bind fun ⟨stop, s'⟩ => ?_
      rcases stop with _ | _ <;> exact asks_pure _
  | succ refinements ih =>
    rw [refinementLoop]
    split_ifs
    · exact asks_pure _
    · refine (hreview roundIndex s).bind fun _ => (hsettle _ _ _).bind fun ⟨stop, s'⟩ => ?_
      rcases stop with _ | _
      · exact (hrefine s').bind fun s'' => ih _ s''
      · exact asks_pure _

/-- The judge asks for reviews. -/
theorem judgeTournament_asks {P : Question → Prop}
    (hreview : ∀ adapter output strictness, P (.review adapter output strictness))
    (leadOutput reviewerOutput : AgentOutput) : (S.judgeTournament leadOutput reviewerOutput).Asks P := by
  have hask (context adapter : String) (output : AgentOutput) :
      (withContext context do orFail (← ask (.review adapter output S.strictness))).Asks P :=
    Asks.mapError (Asks.bind (asks_query (hreview _ _ _)) fun _ => asks_ofExcept _)
  unfold judgeTournament
  dsimp only
  split
  · exact asks_pure _
  refine Asks.bind (hask _ _ _) fun leadReview => Asks.bind (hask _ _ _) fun reviewerReview => ?_
  split_ifs <;> exact asks_pure _

theorem judgeTournament_inStage (leadOutput reviewerOutput : AgentOutput) :
    InStage .review (S.judgeTournament leadOutput reviewerOutput) :=
  S.judgeTournament_asks (fun _ _ _ => rfl) leadOutput reviewerOutput

end Setting

/-! ### What is reported -/

/-- The report takes these over from the run as its strategy left it. -/
structure Reports (selection : ProfileSelection) (options : RunOptions) (run : Finished) (report : RunReport) : Prop where
  selection : report.selection = selection
  rounds : report.rounds = run.rounds
  finalOutput : report.finalOutput = run.finalOutput
  usage : report.usage = run.usage
  budgetExceeded : report.budgetExceeded = run.budgetExceeded
  noProgressExceeded : report.noProgressExceeded = run.noProgressExceeded
  crossfireHalted : report.crossfireHalted = run.crossfireHalted
  cancelled : report.cancelled = run.cancelled
  goalSatisfied : report.goalSatisfied.isSome = options.goal.isSome

theorem conclude_reports (X : Externals) (task : Task) (config : Config) (selection : ProfileSelection)
    (options : RunOptions) (finalPatch : Option NvPatch) (run : Finished) :
    (conclude X task config selection options finalPatch run).Ensures fun _ report =>
      Reports selection options run report := by
  unfold conclude
  refine ensures_bind fun _ consented => ensures_bind fun _ applied => ?_
  exact ensures_pure ⟨rfl, rfl, rfl, rfl, rfl, rfl, rfl, rfl, Option.isSome_map⟩

/-- The report is of the task that was given. -/
theorem runSynapticLoop_task (X : Externals) (task : Task) (config : Config) (adapters : List String)
    (options : RunOptions) : (runSynapticLoop X task config adapters options).Ensures fun _ report => report.task = task := by
  have hconclude (selection : ProfileSelection) (options : RunOptions) (finalPatch : Option NvPatch) (run : Finished) :
      (conclude X task config selection options finalPatch run).Ensures fun _ report => report.task = task := by
    unfold conclude
    exact ensures_bind fun _ consented => ensures_bind fun _ applied => ensures_pure rfl
  have hconsensus (S : Setting) (hX : S.externals = X) (hconfig : S.config = config) :
      (S.runConsensus task).Ensures fun _ report => report.task = task := by
    subst hX hconfig
    unfold Setting.runConsensus
    iterate 4 refine ensures_bind fun _ _ => ?_
    exact hconclude _ _ _ _
  unfold runSynapticLoop
  iterate 4 refine ensures_bind fun _ _ => ?_
  dsimp only
  split
  · unfold Setting.runTournamentStrategy
    iterate 8 refine ensures_bind fun _ _ => ?_
    exact hconclude _ _ _ _
  · exact hconsensus _ rfl rfl
  · exact hconsensus _ rfl rfl

end Nerve.Run
