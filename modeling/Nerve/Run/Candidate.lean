import Nerve.Run.Gate
import Nerve.Run.Stages

/-!
# What the check has seen

The check of a round runs in the working directory, and a patch reaches the working directory
only after the loop has ended. So as long as nothing else writes there, every
check of a run sees the tree the run started on (`runSynapticLoop_checks`), whatever patches
the rounds are about. That the recorded result is the check's on the round's
candidate, and that an accepted patch passes, is then true exactly when the check cannot tell
the candidates from the tree without them: `candidate_checked_iff`. A check that passes on the tree as it is
and fails on the tree with the patch has the patch accepted and applied
(`failing_candidate_accepted`).

The tree is that of the files outside `.nerve`, where the run keeps its own.
-/

namespace Nerve.Run

open Nerve Nerve.Patch Nerve.FileTree Dialogue

/-! ### Exchanges on a tree -/

/-- A check that is a function of the tree. A check that runs does not end as skipped. -/
structure TreeCheck where
  result : FsTree → CheckResult
  never_skipped : ∀ t, result t ≠ .skipped

/-- The questions whose answering may change the tree. -/
def Question.writesTree : Question → Bool
  | .applyInPlace _ | .mergeRound => true
  | _ => false

/-- The exchange can happen on the tree `t` and leaves `t'`: the check sees `t`, and only an
apply and the merge of a worktree write. -/
def TreeStep (sha256Hex : String → String) (check : TreeCheck) (t t' : FsTree) :
    Exchange Question Question.Answer → Prop
  | ⟨.evaluate _, outcome⟩ => outcome.result = check.result t ∧ t' = t
  | ⟨.applyInPlace patch, answer⟩ =>
    answer = ((patch.apply sha256Hex false t).1.map fun _ => ()).mapError (fun e => [e.toText]) ∧
      t' = (patch.apply sha256Hex false t).2
  | ⟨.mergeRound, _⟩ => True
  | _ => t' = t

/-- The exchanges happen one after the other, from the tree `t` to the tree `t'`. -/
inductive OnTree (sha256Hex : String → String) (check : TreeCheck) : FsTree → Trace → FsTree → Prop
  | nil (t : FsTree) : OnTree sha256Hex check t [] t
  | cons {t t₁ t' : FsTree} {x : Exchange Question Question.Answer} {es : Trace}
      (hstep : TreeStep sha256Hex check t t₁ x) (hrest : OnTree sha256Hex check t₁ es t') :
      OnTree sha256Hex check t (x :: es) t'

/-- None of the exchanges writes. -/
def Quiet (es : Trace) : Prop := ∀ x ∈ es, x.question.writesTree = false

/-- The result of a check among the exchanges. -/
def checkOf : Exchange Question Question.Answer → Option CheckResult
  | ⟨.evaluate _, outcome⟩ => some outcome.result
  | _ => none

/-- Every check among the exchanges gives `c`. -/
def ChecksGive (c : CheckResult) (es : Trace) : Prop := ∀ x ∈ es, ∀ r, checkOf x = some r → r = c

theorem Quiet.append {es es' : Trace} (h : Quiet es) (h' : Quiet es') : Quiet (es ++ es') := fun x hx =>
  (List.mem_append.mp hx).elim (h x) (h' x)

theorem ChecksGive.left {c : CheckResult} {es es' : Trace} (h : ChecksGive c (es ++ es')) : ChecksGive c es :=
  fun x hx => h x (List.mem_append_left _ hx)

theorem ChecksGive.right {c : CheckResult} {es es' : Trace} (h : ChecksGive c (es ++ es')) : ChecksGive c es' :=
  fun x hx => h x (List.mem_append_right _ hx)

section OnTree

variable {sha256Hex : String → String} {check : TreeCheck} {t t' : FsTree}

theorem OnTree.left {es es' : Trace} (h : OnTree sha256Hex check t (es ++ es') t') :
    ∃ t₁, OnTree sha256Hex check t es t₁ := by
  induction es generalizing t with
  | nil => exact ⟨t, .nil t⟩
  | cons x es ih =>
    cases h with
    | cons hstep hrest =>
      obtain ⟨t₁, h₁⟩ := ih hrest
      exact ⟨t₁, .cons hstep h₁⟩

/-- A question that does not write leaves the tree, and a check sees it. -/
theorem TreeStep.of_quiet {x : Exchange Question Question.Answer} (h : TreeStep sha256Hex check t t' x)
    (hx : x.question.writesTree = false) : t' = t ∧ ∀ r, checkOf x = some r → r = check.result t := by
  obtain ⟨q, answer⟩ := x
  cases q with
  | evaluate spec => exact ⟨h.2, fun r hr => (Option.some.inj hr).symm.trans h.1⟩
  | applyInPlace _ => cases hx
  | mergeRound => cases hx
  | _ => exact ⟨h, fun r hr => by cases hr⟩

/-- As long as nothing writes, every check sees the first tree. -/
theorem OnTree.checksGive {es : Trace} (h : OnTree sha256Hex check t es t') (hes : Quiet es) :
    ChecksGive (check.result t) es := by
  induction h with
  | nil => intro x hx; cases hx
  | @cons t t₁ t' x es hstep hrest ih =>
    obtain ⟨hx, hes⟩ := List.forall_mem_cons.mp hes
    obtain ⟨rfl, hcheck⟩ := hstep.of_quiet hx
    exact List.forall_mem_cons.mpr ⟨hcheck, ih hes⟩

end OnTree

/-! ### Nothing writes before the end -/

/-- The part of a run asks no question that writes. -/
abbrev AsksQuietly {α : Type} (d : RunM α) : Prop := d.Asks fun q => q.writesTree = false

/-- Only the finish writes. -/
theorem InStage.quiet {α : Type} {stage : Stage} {d : RunM α} (h : InStage stage d) (hstage : stage ≠ .finish) :
    AsksQuietly d := by
  refine h.mono fun q hq => ?_
  subst hq
  cases q with
  | applyInPlace | mergeRound => exact absurd rfl hstage
  | _ => rfl

theorem orFail_quiet {α : Type} (r : Except RunError α) : AsksQuietly (orFail r) := asks_ofExcept r

/-! ### The rounds record what the checks gave -/

/-- The records all hold the result `c`. -/
def RecordsGive (c : CheckResult) (rounds : List RoundRecord) : Prop :=
  ∀ round ∈ rounds, round.checkResult = some c

theorem runGoalCheck_ensures {goal : Option GoalSpec} (hgoal : goal.isSome) :
    (runGoalCheck goal).Ensures fun es outcome => ∀ c, ChecksGive c es → outcome.result = c := by
  obtain ⟨spec, rfl⟩ := Option.isSome_iff_exists.mp hgoal
  exact ensures_query fun outcome c h => h _ (List.mem_singleton.mpr rfl) _ rfl

namespace Setting

variable (S : Setting)

theorem refinementLoop_quiet (goal : Option GoalSpec) (refinements roundIndex : Nat) (s : LoopState) :
    AsksQuietly (S.refinementLoop goal refinements roundIndex s) := by
  refine S.refinementLoop_asks (fun i s => (S.reviewRound_inStage goal i s).quiet (by decide)) (fun q hq => ?_) _ _ _
  cases q with
  | applyInPlace | mergeRound => exact absurd hq (by simp [Question.stage])
  | _ => rfl

theorem reviewRound_records {goal : Option GoalSpec} (hgoal : goal.isSome) (roundIndex : Nat) (s : LoopState) :
    (S.reviewRound goal roundIndex s).Ensures fun es r =>
      ∀ c, ChecksGive c es → RecordsGive c s.rounds → RecordsGive c r.1.rounds := by
  unfold reviewRound
  refine ensures_bind fun es feedback => ?_
  refine (runGoalCheck_ensures hgoal).bind fun es' outcome houtcome => ensures_bind fun es'' _ => ?_
  refine ensures_pure fun c hc h round hround => ?_
  rcases List.mem_append.mp hround with hround | hround
  · exact h round hround
  · rw [List.mem_singleton.mp hround, houtcome c hc.right.left]

/-- The rounds of the loop record what its checks gave. -/
theorem refinementLoop_records {goal : Option GoalSpec} (hgoal : goal.isSome) (refinements roundIndex : Nat)
    (s : LoopState) : (S.refinementLoop goal refinements roundIndex s).Ensures fun es s' =>
      ∀ c, ChecksGive c es → RecordsGive c s.rounds → RecordsGive c s'.rounds := by
  induction refinements generalizing roundIndex s with
  | zero =>
    rw [refinementLoop]
    split_ifs
    · exact ensures_pure fun c _ h => h
    · refine (S.reviewRound_records hgoal roundIndex s).bind fun es r hr => ?_
      refine (S.settleRound_ensures _ _ _).bind fun es' settled hs' => ?_
      obtain ⟨stop, s'⟩ := settled
      have hround (c : CheckResult) (hc : ChecksGive c es) (h : RecordsGive c s.rounds) : RecordsGive c s'.rounds := by
        rw [hs'.1]
        exact hr c hc h
      rcases stop with _ | _ <;> exact ensures_pure fun c hc h => hround c hc.left h
  | succ refinements ih =>
    rw [refinementLoop]
    split_ifs
    · exact ensures_pure fun c _ h => h
    · refine (S.reviewRound_records hgoal roundIndex s).bind fun es r hr => ?_
      refine (S.settleRound_ensures _ _ _).bind fun es' settled hs' => ?_
      obtain ⟨stop, s'⟩ := settled
      have hround (c : CheckResult) (hc : ChecksGive c es) (h : RecordsGive c s.rounds) : RecordsGive c s'.rounds := by
        rw [hs'.1]
        exact hr c hc h
      rcases stop with _ | _
      · refine (S.refineRound_ensures s').bind fun es₂ s₂ hs₂ => (ih _ s₂).mono fun es₃ s₃ h₃ c hc h => ?_
        refine h₃ c hc.right.right.right ?_
        rw [hs₂.1]
        exact hround c hc.left h
      · exact ensures_pure fun c hc h => hround c hc.left h

end Setting

/-! ### The tree the checks see -/

/-- With a goal in force, the exchanges begin with some that do not write, and the rounds of the
report record what the checks among these gave. -/
def ChecksBeforeEnd (options : RunOptions) (es : Trace) (report : RunReport) : Prop :=
  options.goal.isSome ∨ report.goalSatisfied.isSome →
    ∃ es₁ es₂, es = es₁ ++ es₂ ∧ Quiet es₁ ∧ ∀ c, ChecksGive c es₁ → RecordsGive c report.rounds

theorem ChecksBeforeEnd.append {options : RunOptions} {es es' : Trace} {report : RunReport} (hes : Quiet es)
    (h : ChecksBeforeEnd options es' report) : ChecksBeforeEnd options (es ++ es') report := by
  intro hgoal
  obtain ⟨es₁, es₂, rfl, hquiet, hrecords⟩ := h hgoal
  exact ⟨es ++ es₁, es₂, (List.append_assoc _ _ _).symm, hes.append hquiet, fun c hc => hrecords c hc.right⟩

namespace Setting

variable (S : Setting)

theorem runConsensus_checks (task : Task) :
    (S.runConsensus task).Ensures (ChecksBeforeEnd S.options) := by
  unfold runConsensus
  have hgenerate : AsksQuietly (withContext s!"lead adapter `{S.lead}` failed"
      (collectOutputWithCrossfire (ask (.implement S.lead)) S.reviewer S.strictness)) :=
    ((collectOutputWithCrossfire_inStage (ask_inStage (q := .implement S.lead) rfl) _ _).quiet (by decide)).mapError
  refine hgenerate.ensures.bind fun es₁ ⟨output, crossfire⟩ h₁ => ?_
  refine (((buildGoalEvaluator_inStage _).quiet (by decide)).ensures.and (buildGoalEvaluator_ensures _)).bind fun es₂ goal h₂ => ?_
  obtain ⟨h₂, rfl⟩ := h₂
  refine Ensures.bind (Φ := fun es s => Quiet es ∧ (S.options.goal.isSome → ∀ c, ChecksGive c es → RecordsGive c s.rounds))
    ?_ fun es₃ s h₃ => ?_
  · intro es s hr
    refine ⟨(S.refinementLoop_quiet _ _ _ _).forall_mem hr, fun hgoal c hc => ?_⟩
    refine S.refinementLoop_records hgoal _ _ _ es s hr c hc fun round hround => ?_
    cases hround
  refine ((selectFinalPatch_inStage _ _ _ _).quiet (by decide)).ensures.bind fun es₄ finalPatch h₄ => ?_
  refine (conclude_reports _ _ _ _ _ _ _).mono fun es₅ report hreport => ?_
  have hend : ChecksBeforeEnd S.options (es₃ ++ (es₄ ++ es₅)) report := by
    intro hgoal
    rw [hreport.goalSatisfied, or_self] at hgoal
    refine ⟨es₃, _, rfl, h₃.1, fun c hc => ?_⟩
    rw [hreport.rounds]
    exact h₃.2 hgoal c hc
  exact (hend.append h₂).append h₁

theorem runTournamentStrategy_checks (task : Task) :
    (S.runTournamentStrategy task).Ensures (ChecksBeforeEnd S.options) := by
  unfold runTournamentStrategy
  have hgenerate (adapter : String) : AsksQuietly (withContext "tournament candidate generation failed"
      (do orFail (← ask (.implement adapter)))) := by
    have himplement : InStage .generate (ask (.implement adapter)) := ask_inStage rfl
    exact Asks.mapError ((himplement.quiet (by decide)).bind fun _ => orFail_quiet _)
  refine (hgenerate S.lead).ensures.bind fun es₁ leadOutput h₁ => ?_
  refine (hgenerate S.reviewer).ensures.bind fun es₂ reviewerOutput h₂ => ?_
  refine ((S.judgeTournament_inStage _ _).quiet (by decide)).ensures.bind
    fun es₃ ⟨usage, budgetExceeded, finalOutput, finalFeedback⟩ h₃ => ?_
  refine (((buildGoalEvaluator_inStage _).quiet (by decide)).ensures.and (buildGoalEvaluator_ensures _)).bind fun es₄ goal h₄ => ?_
  obtain ⟨h₄, rfl⟩ := h₄
  refine Ensures.bind (Φ := fun es outcome => Quiet es ∧
    (S.options.goal.isSome → ∀ c, ChecksGive c es → outcome.result = c)) ?_ fun es₅ outcome h₅ => ?_
  · intro es outcome hr
    exact ⟨((runGoalCheck_inStage _).quiet (by decide)).forall_mem hr, fun hgoal => runGoalCheck_ensures hgoal es outcome hr⟩
  refine ensures_bind fun es₆ _ => ensures_bind fun es₇ finalPatch => ensures_bind fun es₈ cancelled => ?_
  refine (conclude_reports _ _ _ _ _ _ _).mono fun es₉ report hreport => ?_
  have hend : ChecksBeforeEnd S.options (es₅ ++ (es₆ ++ (es₇ ++ (es₈ ++ es₉)))) report := by
    intro hgoal
    rw [hreport.goalSatisfied, or_self] at hgoal
    refine ⟨es₅, _, rfl, h₅.1, fun c hc round hround => ?_⟩
    rw [hreport.rounds] at hround
    rw [List.mem_singleton.mp hround, h₅.2 hgoal c hc]
  exact (((hend.append h₄).append h₃).append h₂).append h₁

end Setting

/-- With a goal in force every check of a run comes before anything writes. -/
theorem runSynapticLoop_checks (X : Externals) (task : Task) (config : Config) (adapters : List String)
    (options : RunOptions) :
    (runSynapticLoop X task config adapters options).Ensures (ChecksBeforeEnd options) := by
  unfold runSynapticLoop
  refine (((applyBuiltinVerifier_inStage _ _).quiet (by decide)).ensures.and (applyBuiltinVerifier_ensures options config)).bind
    fun es₁ options' hoptions => ?_
  refine (orFail_quiet _).ensures.bind fun es₂ selection h₂ => ?_
  refine (orFail_quiet _).ensures.bind fun es₃ lead h₃ => ?_
  refine (orFail_quiet _).ensures.bind fun es₄ reviewer h₄ => ?_
  have hrun {es : Trace} {report : RunReport} (h : ChecksBeforeEnd options' es report) :
      ChecksBeforeEnd options (es₁ ++ (es₂ ++ (es₃ ++ (es₄ ++ es)))) report := by
    have h' : ChecksBeforeEnd options es report := fun hgoal => h (hgoal.imp_left hoptions.2.2)
    exact (((h'.append h₄).append h₃).append h₂).append hoptions.1
  split
  · exact (Setting.runTournamentStrategy_checks _ task).mono fun es report h => hrun h
  · exact (Setting.runConsensus_checks _ task).mono fun es report h => hrun h
  · exact (Setting.runConsensus_checks _ task).mono fun es report h => hrun h

/-! ### The candidates -/

/-- The tree with a round's patch, if the patch applies to it. -/
def patched (sha256Hex : String → String) (t : FsTree) : Option NvPatch → Option FsTree
  | none => some t
  | some patch =>
    match patch.apply sha256Hex false t with
    | (.ok _, t') => some t'
    | (.error _, _) => none

/-- The run reports success: the goal is met, or the patch applied. -/
def RunReport.Accepted (report : RunReport) : Prop := report.goalSatisfied = some true ∨ report.applied = true

/-- The results in the records are the check's on the rounds' patches, and an accepted patch passes. -/
structure ChecksCandidate (sha256Hex : String → String) (check : TreeCheck) (t : FsTree) (report : RunReport) :
    Prop where
  rounds : ∀ round ∈ report.rounds,
    round.checkResult = (patched sha256Hex t round.lead.proposedPatch).map check.result
  accepted : report.Accepted → (patched sha256Hex t report.finalPatch).map check.result = some .pass

/-- The patch applies and makes no difference to the check. -/
def Blind (sha256Hex : String → String) (check : TreeCheck) (t : FsTree) (patch : Option NvPatch) : Prop :=
  (patched sha256Hex t patch).map check.result = some (check.result t)

/-- An accepted run has passed its last check, if it had a goal. -/
theorem GateHolds.passed {options : RunOptions} {trace : Trace} {report : RunReport} (h : GateHolds options trace report)
    (hgoal : options.goal.isSome ∨ report.goalSatisfied.isSome) (haccepted : report.Accepted) :
    report.lastCheck = some .pass ∨ report.lastCheck = some .skipped := by
  rcases haccepted with hsatisfied | happlied
  · exact h.checked_of_satisfied hsatisfied
  · by_contra hcheck
    have hblocked := h.blocked_of_goal hgoal hcheck
    rw [(h.applied happlied).2.1] at hblocked
    cases hblocked

section Candidates

variable {X : Externals} {task : Task} {config : Config} {adapters : List String} {options : RunOptions}
  {trace : Trace} {report : RunReport} {check : TreeCheck} {t t' : FsTree}

/-- Whatever the rounds were about, their records hold the check's result on the first tree. -/
theorem records_give (hruns : Runs (runSynapticLoop X task config adapters options) trace (.ok report))
    (htree : OnTree X.sha256Hex check t trace t') (hgoal : options.goal.isSome ∨ report.goalSatisfied.isSome) :
    RecordsGive (check.result t) report.rounds := by
  obtain ⟨es₁, es₂, rfl, hquiet, hrecords⟩ := runSynapticLoop_checks X task config adapters options _ _ hruns hgoal
  obtain ⟨t₁, hes₁⟩ := htree.left
  exact hrecords _ (hes₁.checksGive hquiet)

/-- A run is accepted only if the first tree passes. -/
theorem passes_of_accepted (hruns : Runs (runSynapticLoop X task config adapters options) trace (.ok report))
    (htree : OnTree X.sha256Hex check t trace t') (hgoal : options.goal.isSome ∨ report.goalSatisfied.isSome)
    (haccepted : report.Accepted) : check.result t = .pass := by
  have hrecords := records_give hruns htree hgoal
  have hlast (r : CheckResult) (h : report.lastCheck = some r) : check.result t = r := by
    obtain ⟨round, hround, hr⟩ := Option.bind_eq_some_iff.mp h
    rw [hrecords round (List.mem_of_getLast? hround)] at hr
    exact Option.some.inj hr
  rcases (runSynapticLoop_ensures X task config adapters options _ _ hruns).passed hgoal haccepted with h | h
  · exact hlast .pass h
  · exact absurd (hlast .skipped h) (check.never_skipped t)

/-- **The check judges the candidates exactly when it is blind to them.** -/
theorem candidate_checked_iff (hruns : Runs (runSynapticLoop X task config adapters options) trace (.ok report))
    (htree : OnTree X.sha256Hex check t trace t') (hgoal : options.goal.isSome ∨ report.goalSatisfied.isSome) :
    ChecksCandidate X.sha256Hex check t report ↔
      (∀ round ∈ report.rounds, Blind X.sha256Hex check t round.lead.proposedPatch) ∧
        (report.Accepted → Blind X.sha256Hex check t report.finalPatch) := by
  have hrecords := records_give hruns htree hgoal
  have hpass := passes_of_accepted hruns htree hgoal
  constructor
  · intro h
    refine ⟨fun round hround => ?_, fun haccepted => ?_⟩
    · rw [Blind, ← h.rounds round hround, hrecords round hround]
    · rw [Blind, h.accepted haccepted, hpass haccepted]
  · rintro ⟨hrounds, hfinal⟩
    refine ⟨fun round hround => ?_, fun haccepted => ?_⟩
    · rw [hrecords round hround, hrounds round hround]
    · rw [hfinal haccepted, hpass haccepted]

end Candidates

/-! ### A run on a tree -/

/-- Like `sampleExternals`, with a digest that tells texts apart. -/
def hashingExternals : Externals := { sampleExternals with sha256Hex := sampleSha256Hex }

/-- A run with a goal and one reviewer. -/
def hashingRun : RunM RunReport :=
  runSynapticLoop hashingExternals sampleTask (sampleConfig .reviewerBlock) ["claude-code", "codex"] sampleOptions

/-- If the check passes on the empty tree, a patch that the reviewer likes is accepted and applied. -/
theorem hashingRun_accepted (check : TreeCheck) (hcheck : check.result Tree.empty = .pass) :
    ∃ trace report t', Runs hashingRun trace (.ok report) ∧
      OnTree hashingExternals.sha256Hex check Tree.empty trace t' ∧ report.goalSatisfied = some true ∧
      report.applied = true ∧ report.finalPatch = sampleOutput.proposedPatch := by
  have hruns := runs_play (sampleWorld sampleOutput (.lgtm "codex" "LGTM") .pass) [] hashingRun
  have htree : ∃ t', OnTree hashingExternals.sha256Hex check Tree.empty
      (hashingRun.play (sampleWorld sampleOutput (.lgtm "codex" "LGTM") .pass) []).1 t' := by
    -- the scratch directory twice, the lead, the evaluator, the review, the check, the record, the consent, the apply
    refine ⟨_, .cons rfl (.cons rfl (.cons rfl (.cons rfl (.cons rfl (.cons ⟨hcheck.symm, rfl⟩ (.cons rfl (.cons rfl
      (.cons ⟨?_, rfl⟩ (.nil _)))))))))⟩
    rfl
  obtain ⟨t', htree⟩ := htree
  exact ⟨_, _, t', hruns, htree, rfl, rfl, rfl⟩

/-- A run whose check passes on every tree. -/
theorem candidate_checked_iff_passing : ∃ trace report, Runs hashingRun trace (.ok report) ∧
    (ChecksCandidate hashingExternals.sha256Hex ⟨fun _ => .pass, by simp⟩ Tree.empty report ↔
      (∀ round ∈ report.rounds,
        Blind hashingExternals.sha256Hex ⟨fun _ => .pass, by simp⟩ Tree.empty round.lead.proposedPatch) ∧
      (report.Accepted → Blind hashingExternals.sha256Hex ⟨fun _ => .pass, by simp⟩ Tree.empty report.finalPatch)) := by
  obtain ⟨trace, report, t', hruns, htree, -⟩ := hashingRun_accepted ⟨fun _ => .pass, by simp⟩ rfl
  exact ⟨trace, report, hruns, candidate_checked_iff hruns htree (Or.inl rfl)⟩

/-- Passes as long as there is no file `a`. -/
def noFileA : TreeCheck where
  result t := if (t.file ["a"]).isSome then .fail "check exited 1" none else .pass
  never_skipped t := by split_ifs <;> simp

/-- A patch that makes the check fail is accepted and applied. -/
theorem failing_candidate_accepted :
    ¬ ∀ (X : Externals) (task : Task) (config : Config) (adapters : List String) (options : RunOptions)
      (check : TreeCheck) (t t' : FsTree) (trace : Trace) (report : RunReport),
      Runs (runSynapticLoop X task config adapters options) trace (.ok report) →
      OnTree X.sha256Hex check t trace t' → options.goal.isSome → ChecksCandidate X.sha256Hex check t report := by
  intro h
  obtain ⟨trace, report, t', hruns, htree, hsatisfied, -, hpatch⟩ := hashingRun_accepted noFileA rfl
  have hcandidate := (h _ _ _ _ _ _ _ _ _ _ hruns htree rfl).accepted (Or.inl hsatisfied)
  rw [hpatch] at hcandidate
  have hfails : (patched hashingExternals.sha256Hex Tree.empty sampleOutput.proposedPatch).map noFileA.result =
      some (.fail "check exited 1" none) := by decide
  rw [hfails] at hcandidate
  cases hcandidate

end Nerve.Run
