import Nerve.Run.Gate
import Nerve.Run.Stages
import Nerve.Session.Interactive

/-!
# Where a check comes from

Whose command does a run execute as its check? With no goal among its options, and a built-in
verifier that is off or asked for only by the project's configuration, a run hands nothing to the
evaluator (`unchecked_of_no_goal`).

A session gives its runs the active goal. The operator may have typed it, or confirmed it; and it
may have lain in the directory when the session got there. The last is the way in for a cloned tree
(`planted_goal_is_evaluated`). In a session that neither registers a goal nor gets into a directory
with such a file, no run has one (`calls_goalless`). The invariant along the session is that there
is no active goal.
-/

namespace Nerve.Session

open Nerve Nerve.Patch Nerve.Run Dialogue TransitionSystem Text

/-! ### A run without a goal -/

/-- The question hands a goal to the evaluator. -/
def givesCheck : Question → Bool
  | .goalEvaluator _ | .evaluate _ => true
  | _ => false

abbrev Unchecked {α : Type} (d : RunM α) : Prop := d.Asks fun q => givesCheck q = false

theorem unchecked_of_inStage {α : Type} {stage : Stage} {d : RunM α} (h : InStage stage d) (hsetUp : stage ≠ .setUp)
    (hreview : stage ≠ .review) : Unchecked d := by
  refine h.mono fun q hq => ?_
  subst hq
  cases q with
  | goalEvaluator => exact absurd rfl hsetUp
  | evaluate => exact absurd rfl hreview
  | _ => rfl

section Run

variable {S : Setting} (hgoal : S.options.goal = none)

theorem ask_unchecked {q : Question} (h : givesCheck q = false) : Unchecked (ask q) := asks_query h

theorem orFail_unchecked {α : Type} (r : Except RunError α) : Unchecked (orFail r) := asks_ofExcept r

theorem askOrFail_unchecked {α : Type} {q : Question} (text : String) (h : givesCheck q = false)
    (r : q.Answer → Except RunError α) : Unchecked (withContext text do orFail (r (← ask q))) :=
  Asks.mapError ((ask_unchecked h).bind fun _ => orFail_unchecked _)

theorem reviewRound_unchecked (roundIndex : Nat) (s : LoopState) : Unchecked (S.reviewRound none roundIndex s) :=
  Asks.bind (askOrFail_unchecked _ rfl _) fun _ => (asks_pure _).bind fun _ => (ask_unchecked rfl).bind fun _ => asks_pure _

/-- Without a goal no round runs a check. -/
theorem refinementLoop_unchecked (refinements roundIndex : Nat) (s : LoopState) :
    Unchecked (S.refinementLoop none refinements roundIndex s) := by
  refine S.refinementLoop_asks reviewRound_unchecked (fun q hq => ?_) refinements roundIndex s
  cases q with
  | goalEvaluator | evaluate => exact absurd hq (by simp [Question.stage])
  | _ => rfl

theorem judgeTournament_unchecked (leadOutput reviewerOutput : AgentOutput) :
    Unchecked (S.judgeTournament leadOutput reviewerOutput) := by
  unfold Setting.judgeTournament
  dsimp only
  split
  · exact asks_pure _
  refine Asks.bind (askOrFail_unchecked _ rfl _) fun leadReview => ?_
  refine Asks.bind (askOrFail_unchecked _ rfl _) fun reviewerReview => ?_
  split_ifs <;> exact asks_pure _

include hgoal

theorem buildGoalEvaluator_eq : buildGoalEvaluator S.options = pure none := by
  rw [buildGoalEvaluator, hgoal]

theorem runConsensus_unchecked (task : Run.Task) : Unchecked (S.runConsensus task) := by
  have hgenerate : Unchecked (withContext s!"lead adapter `{S.lead}` failed"
      (collectOutputWithCrossfire (ask (.implement S.lead)) S.reviewer S.strictness)) :=
    Asks.mapError (unchecked_of_inStage
      (collectOutputWithCrossfire_inStage (ask_inStage (q := .implement S.lead) rfl) _ _) (by decide) (by decide))
  unfold Setting.runConsensus
  rw [buildGoalEvaluator_eq hgoal]
  refine hgenerate.bind fun ⟨output, crossfire⟩ => Asks.pure_bind ?_
  refine (refinementLoop_unchecked _ _ _).bind fun s => ?_
  refine (unchecked_of_inStage (selectFinalPatch_inStage _ _ _ _) (by decide) (by decide)).bind fun finalPatch => ?_
  exact unchecked_of_inStage (conclude_inStage _ _ _ _ _ _ _) (by decide) (by decide)

theorem runTournamentStrategy_unchecked (task : Run.Task) : Unchecked (S.runTournamentStrategy task) := by
  unfold Setting.runTournamentStrategy
  rw [buildGoalEvaluator_eq hgoal]
  refine Asks.bind (askOrFail_unchecked _ rfl _) fun leadOutput => ?_
  refine Asks.bind (askOrFail_unchecked _ rfl _) fun reviewerOutput => ?_
  refine (judgeTournament_unchecked _ _).bind fun ⟨usage, budgetExceeded, finalOutput, finalFeedback⟩ => ?_
  refine Asks.pure_bind (Asks.pure_bind ((ask_unchecked rfl).bind fun _ => ?_))
  refine (unchecked_of_inStage (selectFinalPatch_inStage _ _ _ _) (by decide) (by decide)).bind fun finalPatch => ?_
  refine (unchecked_of_inStage (isCancelled_inStage _) (by decide) (by decide)).bind fun cancelled => ?_
  exact unchecked_of_inStage (conclude_inStage _ _ _ _ _ _ _) (by decide) (by decide)

end Run

/-! ### The built-in verifier -/

/-- A project's configuration may say what it likes, any other leaves the verifier off. -/
def VerifierRefused (config : Config) : Prop :=
  config.source = .project ∨ config.orchestration.builtinVerifier.mode = .off

/-- The environment gave no consent to a project's verifier. -/
def Unconsented (trace : Trace) : Prop := (⟨.projectVerifierConsent, true⟩ : Exchange Question Question.Answer) ∉ trace

theorem resolveBuiltinVerifier_eq {config : Config} (h : VerifierRefused config) :
    resolveBuiltinVerifier config.orchestration (config.builtinVerifierExecTrusted false) = pure none := by
  unfold resolveBuiltinVerifier
  rcases h with h | h
  · have htrusted : config.builtinVerifierExecTrusted false = false := by rw [Config.builtinVerifierExecTrusted, h]
    simp [htrusted]
  · simp [h]

/-- Without consent no verifier becomes the goal. -/
theorem applyBuiltinVerifier_goal {options : RunOptions} {config : Config} (hgoal : options.goal = none)
    (h : VerifierRefused config) :
    (applyBuiltinVerifier options config).Ensures fun es options' => Unconsented es → options'.goal = none := by
  unfold applyBuiltinVerifier
  rw [hgoal]
  refine Ensures.bind (Φ := fun es consent => es = [⟨.projectVerifierConsent, consent⟩]) (ensures_query fun _ => rfl)
    fun es consent hes => ?_
  subst hes
  cases consent with
  | true => exact ensures_bind fun _ _ => ensures_pure fun hno => absurd (List.mem_cons_self ..) hno
  | false =>
    rw [resolveBuiltinVerifier_eq h]
    exact Ensures.bind (Φ := fun _ goal => goal = none) (ensures_pure rfl) fun _ goal hnone => ensures_pure fun _ => hnone

theorem applyBuiltinVerifier_unchecked (options : RunOptions) (config : Config) :
    Unchecked (applyBuiltinVerifier options config) :=
  applyBuiltinVerifier_asks (P := fun q => givesCheck q = false) rfl rfl options config

/-- **No goal, no check**: whatever the world answers, short of the consent. -/
theorem unchecked_of_no_goal {X : Externals} {task : Run.Task} {config : Config} {adapters : List String}
    {options : RunOptions} (hgoal : options.goal = none) (hconfig : VerifierRefused config) {trace : Trace}
    {r : Except RunError RunReport} (h : Runs (runSynapticLoop X task config adapters options) trace r)
    (hconsent : Unconsented trace) : ∀ x ∈ trace, givesCheck x.question = false := by
  unfold runSynapticLoop at h
  obtain ⟨options', es₁, es₂, rfl, h₁, h₂⟩ | ⟨e, -, h₁⟩ := runs_bind h
  · have hno : options'.goal = none :=
      applyBuiltinVerifier_goal hgoal hconfig es₁ options' h₁ fun hmem => hconsent (List.mem_append_left _ hmem)
    have hrest : ∀ x ∈ es₂, givesCheck x.question = false := by
      refine Asks.forall_mem (P := fun q => givesCheck q = false) ?_ h₂
      refine (orFail_unchecked _).bind fun selection => ?_
      refine (orFail_unchecked _).bind fun lead => (orFail_unchecked _).bind fun reviewer => ?_
      split
      · exact runTournamentStrategy_unchecked hno task
      · exact runConsensus_unchecked hno task
      · exact runConsensus_unchecked hno task
    exact List.forall_mem_append.mpr ⟨(applyBuiltinVerifier_unchecked options config).forall_mem h₁, hrest⟩
  · exact (applyBuiltinVerifier_unchecked options config).forall_mem h₁

/-! ### What the operator does -/

/-- The operator types a check with `/goal`, or confirms a proposed one. -/
def Registers (s : Shell) (i : Input) : Prop :=
  ∃ command args action, s.command i.line = some command ∧ words command = "goal" :: args ∧
    parseGoalArgvWithRaw args (rawArguments "goal" command) = .ok action ∧
    ((∃ argv timeoutSecs, action = .registerArgv argv timeoutSecs) ∨
      (∃ freeForm, action = .registerNaturalLanguage freeForm) ∧ i.world.confirmGoalIntent = .ok true)

/-- The line changes to the directory. -/
def Enters (s : Shell) (i : Input) (dir : PathBuf) : Prop :=
  ∃ command args cwd, s.command i.line = some command ∧ i.world.currentDir = .ok cwd ∧ words command = "cd" :: args ∧
    changeDir i.world (" ".intercalate args) cwd = .ok dir

/-- The configurations that are not a project's leave the verifier off. -/
structure OperatorOff (R : Readers) (w : World) : Prop where
  user : ∀ path file loaded, userConfig w = some (path, file) → fromPath R path file = .ok loaded →
    loaded.config.orchestration.builtinVerifier.mode = .off
  default : ∀ loaded, R.defaultConfig = .ok loaded → loaded.config.orchestration.builtinVerifier.mode = .off

/-- The operator leaves checks alone. -/
structure HandsOff (R : Readers) (s : Shell) (i : Input) : Prop where
  unregistered : ¬ Registers s i
  operatorOff : OperatorOff R i.world

/-- The directory the line gets into, if any, has no goal planted in it. -/
def Spared (R : Readers) (s : Shell) (i : Input) : Prop := ∀ dir, Enters s i dir → ¬ PlantsGoal R i.world.files dir

/-- The loop is called without a goal, and executes no check. -/
structure Goalless (X : Externals) (call : LoopCall) : Prop where
  options : call.options.goal = none
  unchecked : ∀ trace r, Runs (runSynapticLoop X call.task call.config call.adapters call.options) trace r →
    Unconsented trace → ∀ x ∈ trace, givesCheck x.question = false

/-! ### One line -/

section Line

variable {R : Readers} {w : World} {X : Externals}

theorem loadFrom_refused (hoff : OperatorOff R w) {cwd : PathBuf} {loaded : LoadedConfig}
    (h : loadFrom R w cwd = .ok loaded) : VerifierRefused loaded.config := by
  unfold loadFrom at h
  dsimp only at h
  split at h
  · obtain ⟨found, -, rfl⟩ := map_eq_ok.mp h
    exact Or.inl rfl
  split at h
  · obtain ⟨found, hfound, rfl⟩ := map_eq_ok.mp h
    exact Or.inr (hoff.user _ _ found ‹_› hfound)
  · obtain ⟨found, hfound, rfl⟩ := map_eq_ok.mp h
    exact Or.inr (hoff.default found (context_eq_ok.mp hfound))

theorem Goalless.of_config {call : LoopCall} (hgoal : call.options.goal = none) (hconfig : VerifierRefused call.config) :
    Goalless X call where
  options := hgoal
  unchecked _ _ h hconsent := unchecked_of_no_goal hgoal hconfig h hconsent

/-- There is no active goal, and no call has one. -/
structure Clean (X : Externals) (o : Outcome) : Prop where
  goal : o.state.activeGoal = none
  calls : ∀ call ∈ o.calls, Goalless X call

theorem clean_ofState {state : InteractiveState} (h : state.activeGoal = none) : Clean X (.ofState state) where
  goal := h
  calls _ hcall := absurd hcall List.not_mem_nil

theorem runReportWithOverrides_goalless (hoff : OperatorOff R w) {prompt : String} {apply : Bool}
    {cost tokens : Option Nat} {worktree : Option Bool} {call : LoopCall}
    (h : runReportWithOverrides R w prompt apply none cost tokens worktree = .ok call) : Goalless X call := by
  obtain ⟨cwd, -, h⟩ := bind_eq_ok.mp h
  obtain ⟨loaded, hloaded, h⟩ := bind_eq_ok.mp h
  cases h
  refine .of_config ?_ (loadFrom_refused hoff hloaded)
  cases worktree <;> rfl

theorem runInteractiveTask_clean (hoff : OperatorOff R w) {state : InteractiveState} (h : state.activeGoal = none)
    (prompt : String) : Clean X (runInteractiveTask R w prompt state) where
  goal := h
  calls call hcall := by
    have hrun := mem_runInteractiveTask hcall
    rw [h] at hrun
    exact runReportWithOverrides_goalless hoff hrun

theorem runBenchmark_goalless (hoff : OperatorOff R w) (target : String) (args : List String) :
    ∀ call ∈ runBenchmark R w target args, Goalless X call := by
  intro call hcall
  obtain ⟨loaded, hloaded, hconfig, hoptions⟩ := mem_runBenchmark hcall
  exact .of_config (by rw [hoptions]; rfl) (by rw [hconfig]; exact loadFrom_refused hoff hloaded)

theorem registerGoalFromNaturalLanguage_activeGoal {freeForm : String} {state state' : InteractiveState} {cwd : PathBuf}
    (hconfirm : w.confirmGoalIntent ≠ .ok true)
    (h : registerGoalFromNaturalLanguage R w freeForm state cwd = .ok state') : state' = state := by
  unfold registerGoalFromNaturalLanguage at h
  split_ifs at h
  obtain ⟨_, -, h⟩ := bind_eq_ok.mp h
  obtain ⟨proposed, -, h⟩ := bind_eq_ok.mp h
  obtain ⟨confirmed, hconfirmed, h⟩ := bind_eq_ok.mp h
  cases confirmed with
  | true => exact absurd hconfirmed hconfirm
  | false =>
    cases h
    rfl

/-- A `/goal` that registers nothing leaves no goal where there was none. -/
theorem handleGoalCommand_activeGoal {args : List String} {raw : List Char} {state state' : InteractiveState}
    {cwd : PathBuf} (hno : ∀ action, parseGoalArgvWithRaw args raw = .ok action →
      (∀ argv timeoutSecs, action ≠ .registerArgv argv timeoutSecs) ∧
        ∀ freeForm, action = .registerNaturalLanguage freeForm → w.confirmGoalIntent ≠ .ok true)
    (hgoal : state.activeGoal = none) (h : handleGoalCommand R w args raw state cwd = .ok state') :
    state'.activeGoal = none := by
  unfold handleGoalCommand at h
  rcases hparse : parseGoalArgvWithRaw args raw with e | action
  · rw [hparse] at h
    cases h
  rw [hparse] at h
  cases action with
  | «show» =>
    cases h
    exact hgoal
  | clear =>
    cases h
    rfl
  | registerArgv argv timeoutSecs => exact absurd rfl ((hno _ hparse).1 argv timeoutSecs)
  | registerNaturalLanguage freeForm =>
    rw [registerGoalFromNaturalLanguage_activeGoal ((hno _ hparse).2 freeForm rfl) h]
    exact hgoal

theorem refreshActiveGoal_activeGoal {files : Files} {dir : PathBuf} (h : ¬ PlantsGoal R files dir)
    (state : InteractiveState) : (refreshActiveGoal R files state dir).activeGoal = none := by
  unfold refreshActiveGoal
  rcases hload : loadActiveGoal R files dir with e | goal
  · rfl
  · cases goal with
    | none => rfl
    | some spec => exact absurd (plantsGoal_iff.mpr ⟨spec, hload⟩) h

theorem handleBudgetCommand_activeGoal {args : List String} {state state' : InteractiveState} {cwd : PathBuf}
    (h : handleBudgetCommand R w args state cwd = .ok state') : state'.activeGoal = state.activeGoal := by
  unfold handleBudgetCommand at h
  split_ifs at h
  obtain ⟨action, -, h⟩ := bind_eq_ok.mp h
  obtain ⟨loaded, -, h⟩ := bind_eq_ok.mp h
  cases action with
  | «show» =>
    cases h
    rfl
  | set cost tokens force =>
    obtain ⟨⟨newCost, asked⟩, -, h⟩ := bind_eq_ok.mp h
    obtain ⟨⟨newTokens, asked'⟩, -, h⟩ := bind_eq_ok.mp h
    obtain ⟨_, -, h⟩ := bind_eq_ok.mp h
    cases h
    rfl

/-- The state without the active goal is the commands' own affair. -/
theorem setMode_activeGoal (mode : String) (state : InteractiveState) :
    (setMode mode state).activeGoal = state.activeGoal := by
  unfold setMode
  split_ifs <;> rfl

theorem setAdapter_activeGoal (adapter : String) (state : InteractiveState) :
    (setAdapter adapter state).activeGoal = state.activeGoal := by
  unfold setAdapter
  split_ifs <;> rfl

theorem handleInteractiveCommand_clean {s : Shell} {i : Input} {command : List Char}
    (hcommand : s.command i.line = some command)
    (hgoal : s.state.activeGoal = none) (hhands : HandsOff R s i) (hspared : Spared R s i) :
    Clean X (handleInteractiveCommand R i.world command s.state) := by
  have h := handleInteractiveCommand_effect (R := R) (w := i.world) command s.state
  generalize handleInteractiveCommand R i.world command s.state = o at h ⊢
  cases h with
  | nothing => exact clean_ofState hgoal
  | mode mode => exact clean_ofState ((setMode_activeGoal _ _).trans hgoal)
  | adapter adapter => exact clean_ofState ((setAdapter_activeGoal _ _).trans hgoal)
  | cd hcwd hwords h =>
    exact clean_ofState (refreshActiveGoal_activeGoal (hspared _ ⟨_, _, _, hcommand, hcwd, hwords, h⟩) s.state)
  | template hwords prompt => exact runInteractiveTask_clean hhands.operatorOff hgoal prompt
  | goal hwords h =>
    refine clean_ofState (handleGoalCommand_activeGoal (fun action haction => ⟨?_, ?_⟩) hgoal h)
    · rintro argv timeoutSecs rfl
      exact hhands.unregistered ⟨command, _, _, hcommand, hwords, haction, Or.inl ⟨argv, timeoutSecs, rfl⟩⟩
    · rintro freeForm rfl hconfirm
      exact hhands.unregistered ⟨command, _, _, hcommand, hwords, haction, Or.inr ⟨⟨freeForm, rfl⟩, hconfirm⟩⟩
  | budget hwords h => exact clean_ofState ((handleBudgetCommand_activeGoal h).trans hgoal)
  | benchmark hwords target rest => exact ⟨hgoal, runBenchmark_goalless hhands.operatorOff _ _⟩
  | quit => exact ⟨hgoal, fun call hcall => absurd hcall List.not_mem_nil⟩

/-- **One line** of a clean session is clean. -/
theorem processInteractiveInput_clean {s : Shell} {i : Input} (hgoal : s.state.activeGoal = none) (hhands : HandsOff R s i)
    (hspared : Spared R s i) : Clean X (processInteractiveInput R i.world i.line s).1 := by
  have h := processInteractiveInput_effect (R := R) (w := i.world) i.line s
  generalize (processInteractiveInput R i.world i.line s).1 = o at h ⊢
  cases h with
  | nothing => exact clean_ofState hgoal
  | task _ prompt => exact runInteractiveTask_clean hhands.operatorOff hgoal prompt
  | command hcommand => exact handleInteractiveCommand_clean hcommand hgoal hhands hspared

end Line

/-! ### A session -/

section Whole

variable {R : Readers} {X : Externals}

/-- If this is the end, the loop was not called. -/
def EndsQuietly (o : Outcome) : Prop := o.shouldExit = true → o.calls = []

theorem endsQuietly_ofState (state : InteractiveState) : EndsQuietly (.ofState state) := fun _ => rfl

/-- The line that ends a session calls no loop. -/
theorem processInteractiveInput_endsQuietly (w : World) (line : List Char) (s : Shell) :
    EndsQuietly (processInteractiveInput R w line s).1 := by
  have htask (prompt : String) : EndsQuietly (runInteractiveTask R w prompt s.state) := nofun
  have h := processInteractiveInput_effect (R := R) (w := w) line s
  generalize (processInteractiveInput R w line s).1 = o at h ⊢
  cases h with
  | nothing => exact endsQuietly_ofState _
  | task _ prompt => exact htask prompt
  | @command command _ =>
    have h := handleInteractiveCommand_effect (R := R) (w := w) command s.state
    generalize handleInteractiveCommand R w command s.state = o at h ⊢
    cases h with
    | template _ prompt => exact htask prompt
    | benchmark => exact nofun
    | quit => exact fun _ => rfl
    | _ => exact endsQuietly_ofState _

theorem step_eq_some {s t : Shell} {i : Input} (h : step R s i = some t) :
    t.state = (processInteractiveInput R i.world i.line s).1.state := by
  unfold step at h
  dsimp only at h
  split_ifs at h
  cases h
  rfl

theorem step_eq_none {s : Shell} {i : Input} (h : step R s i = none) :
    (processInteractiveInput R i.world i.line s).1.shouldExit = true := by
  unfold step at h
  dsimp only at h
  split_ifs at h
  assumption

theorem calls_cons (s : Shell) (i : Input) (inputs : List Input) :
    calls R s (i :: inputs) =
      (processInteractiveInput R i.world i.line s).1.calls ++ ((step R s i).map fun t => calls R t inputs).getD [] := by
  rw [calls, outputs, Option.toList_some, List.singleton_append, List.flatten_cons]
  rcases step R s i with _ | t
  · rfl
  · rfl

/-- **No check from the tree**: in a session that starts where no goal is planted, whose operator
leaves checks alone and gets into no directory with a planted goal, the loop is only called without
a goal, and executes no check. -/
theorem calls_goalless {s : Shell} {inputs : List Input} (hgoal : s.state.activeGoal = none)
    (hhands : Meets (step R) (HandsOff R) s inputs) (hspared : Meets (step R) (Spared R) s inputs) :
    ∀ call ∈ calls R s inputs, Goalless X call := by
  induction inputs generalizing s with
  | nil => exact List.forall_mem_nil _
  | cons i inputs ih =>
    rw [calls_cons]
    rcases hstep : step R s i with _ | t
    · rw [processInteractiveInput_endsQuietly _ _ _ (step_eq_none hstep)]
      exact List.forall_mem_nil _
    · obtain ⟨hhandsI, hhands⟩ := hhands t hstep
      obtain ⟨hsparedI, hspared⟩ := hspared t hstep
      have hclean : Clean X (processInteractiveInput R i.world i.line s).1 :=
        processInteractiveInput_clean hgoal hhandsI hsparedI
      refine List.forall_mem_append.mpr ⟨hclean.calls, ih ?_ hhands hspared⟩
      rw [step_eq_some hstep]
      exact hclean.goal

theorem start_activeGoal {w : World} {apply mock : Bool} {worktreeOverride : Option Bool} {s : Shell}
    (hspared : ∀ cwd, w.currentDir = .ok cwd → ¬ PlantsGoal R w.files cwd)
    (h : start R w apply mock worktreeOverride = .ok s) : s.state.activeGoal = none := by
  obtain ⟨cwd, hcwd, h⟩ := bind_eq_ok.mp h
  cases h
  exact refreshActiveGoal_activeGoal (hspared cwd (context_eq_ok.mp hcwd)) _

/-- **No check from the tree**: in a session that starts where no goal is planted, whose operator
leaves checks alone and gets into no directory with a planted goal, every call of the loop is
without a goal and executes no check. -/
theorem session_goalless {w : World} {apply mock : Bool} {worktreeOverride : Option Bool} {s : Shell}
    {inputs : List Input} (hstart : start R w apply mock worktreeOverride = .ok s)
    (htree : ∀ cwd, w.currentDir = .ok cwd → ¬ PlantsGoal R w.files cwd)
    (hhands : Meets (step R) (HandsOff R) s inputs) (hspared : Meets (step R) (Spared R) s inputs) :
    ∀ call ∈ calls R s inputs, Goalless X call :=
  calls_goalless (start_activeGoal htree hstart) hhands hspared

end Whole

/-! ### A clone -/

/-- The text that may come with a clone, and the goal it is. -/
def plantedText : String := "\x7b\"id\":\"build\",\"check_cmd\":[\"make\",\"verify\"],\"timeout_secs\":60\x7d"

def plantedGoal : GoalSpec := ⟨"build", ["make", "verify"], 60, none, [], none⟩

/-- Other crates as far as the sample sessions go: one goal's text, and the built-in configuration. -/
def sampleReaders : Readers where
  goalSpec raw := if raw = plantedText then .ok plantedGoal else .error ["expected value"]
  config _ := .error ["expected value"]
  defaultConfig := .ok ⟨sampleConfig .leadPriority, [], none, none⟩

/-- A machine whose session is in a clone, with or without the text, and nothing else. -/
def clone (planted : Bool) : World where
  files path := if planted ∧ path.text = "/clone/.nerve/session-meta/active-goal.json" then some (.ok plantedText) else none
  home := none
  userProfile := none
  currentDir := .ok ⟨"/clone"⟩
  setCurrentDir _ := .ok ()
  taskId _ := "task"
  collectContextPaths _ _ := []
  raiseAnswer _ := ""
  appendBudgetAuditEntry _ _ _ _ := .ok ()
  tempDir := ⟨"/tmp"⟩
  iterationsBegun := 0
  now := "20260101T000000Z"
  stdinIsTerminal := true
  convert _ := .error []
  confirmGoalIntent := .ok false
  appendGoalHistory := .ok ()
  writeActiveGoal _ := .ok ()

def typed (planted : Bool) (line : String) : Input := ⟨clone planted, line.toList⟩

theorem handsOff_typed {planted : Bool} {s : Shell} {line : String}
    (h : ((s.command line.toList).map words).bind List.head? ≠ some "goal") :
    HandsOff sampleReaders s (typed planted line) where
  unregistered := by
    rintro ⟨command, args, _, hcommand, hwords, _⟩
    refine h ?_
    change ((s.command (typed planted line).line).map words).bind List.head? = some "goal"
    rw [hcommand, Option.map_some, hwords]
    rfl
  operatorOff :=
    { user := fun _ _ _ h => by cases h
      default := fun loaded h => by
        cases h
        rfl }

theorem not_plantsGoal_clone (dir : PathBuf) : ¬ PlantsGoal sampleReaders (clone false).files dir := by
  rintro ⟨raw, spec, hfile, _⟩
  rw [clone] at hfile
  simp at hfile

/-- A session of two tasks in two directories, where nothing is planted. -/
theorem session_goalless_clone : ∃ s, start sampleReaders (clone false) false true none = .ok s ∧
    calls sampleReaders s [typed false "add a file", typed false "/cd /other", typed false "add another"] ≠ [] ∧
    ∀ call ∈ calls sampleReaders s [typed false "add a file", typed false "/cd /other", typed false "add another"],
      Goalless sampleExternals call := by
  refine ⟨_, rfl, by decide, session_goalless (w := clone false) rfl (fun cwd _ => not_plantsGoal_clone cwd) ?_ ?_⟩
  · refine .cons rfl (handsOff_typed (by decide)) (.cons rfl (handsOff_typed (by decide)) ?_)
    exact .cons rfl (handsOff_typed (by decide)) trivial
  · have hspared (s : Shell) (line : String) : Spared sampleReaders s (typed false line) :=
      fun dir _ => not_plantsGoal_clone dir
    exact .cons rfl (hspared _ _) (.cons rfl (hspared _ _) (.cons rfl (hspared _ _) trivial))

/-- **A check from the tree**: the clone's file is all it takes. -/
theorem planted_goal_is_evaluated : ∃ s, start sampleReaders (clone true) false true none = .ok s ∧
    Meets (step sampleReaders) (HandsOff sampleReaders) s [typed true "add a file"] ∧
    ∃ call ∈ calls sampleReaders s [typed true "add a file"], call.options.goal = some plantedGoal ∧
      ¬ Goalless sampleExternals call ∧
      ∃ trace report, Runs (runSynapticLoop sampleExternals call.task call.config call.adapters call.options) trace
        (.ok report) ∧ trace.any (fun x => givesCheck x.question) = true := by
  refine ⟨_, rfl, .cons rfl (handsOff_typed (by decide)) trivial, _, List.mem_singleton.mpr rfl, rfl, ?_, ?_⟩
  · intro h
    cases h.options
  · have hruns := runs_play (sampleWorld sampleOutput (.lgtm "codex" "LGTM") .pass) []
      (runSynapticLoop sampleExternals ⟨"task", "add a file", ⟨"/clone"⟩, []⟩ (sampleConfig .leadPriority) adapterIds
        { newOptions false with goal := some plantedGoal })
    exact ⟨_, _, hruns, rfl⟩

end Nerve.Session
