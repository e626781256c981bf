import Mathlib.Data.List.Perm.Basic
import Nerve.Run.Stages

/-!
# What a run was told

The exchanges of a run, sorted: the lead's generations, each with the live reviews that came in while
it was made, the reviews of whole outputs, the results of the check, what the cancel handle said, and
what every call of an adapter cost. `History.after` reads exchanges on top of a history. The
parts of the loop are given by what they add to it, for any history they begin with; a stage whose questions
are not heard adds nothing (`after_eq_of_unheard`).
-/

namespace Nerve.Run

open Nerve Nerve.Patch Dialogue

/-! ### Totals -/

/-- What was used in all. -/
def UsageStats.total (costs : List UsageStats) : UsageStats := costs.foldl UsageStats.addAssign UsageStats.default

theorem saturatingAdd_right_comm (a b c : Nat) :
    Text.saturatingAdd (Text.saturatingAdd a b) c = Text.saturatingAdd (Text.saturatingAdd a c) b := by
  simp only [Text.saturatingAdd]
  omega

instance : RightCommutative UsageStats.addAssign where
  right_comm a b c := by
    obtain ⟨ai, ao, a⟩ := a
    obtain ⟨bi, bo, b⟩ := b
    obtain ⟨ci, co, c⟩ := c
    simp only [UsageStats.addAssign, UsageStats.mk.injEq]
    refine ⟨saturatingAdd_right_comm _ _ _, saturatingAdd_right_comm _ _ _, ?_⟩
    cases a <;> cases b <;> cases c <;> simp only [Text.saturatingAdd, Option.some.injEq]
    all_goals omega

/-- The order does not matter. -/
theorem UsageStats.total_perm {costs costs' : List UsageStats} (h : costs.Perm costs') : total costs = total costs' :=
  h.foldl_eq _

theorem UsageStats.total_append (costs costs' : List UsageStats) :
    total (costs ++ costs') = costs'.foldl addAssign (total costs) := List.foldl_append

theorem accumulateOutputUsage_total (costs : List UsageStats) (output : AgentOutput) :
    accumulateOutputUsage (UsageStats.total costs) output = UsageStats.total (costs ++ output.cost.toList) := by
  rw [accumulateOutputUsage, UsageStats.total_append]
  cases output.cost <;> rfl

theorem accumulateFeedbackUsage_total (costs : List UsageStats) (feedback : ReviewerFeedback) :
    accumulateFeedbackUsage (UsageStats.total costs) feedback = UsageStats.total (costs ++ feedback.cost.toList) := by
  rw [accumulateFeedbackUsage, UsageStats.total_append]
  cases feedback.cost <;> rfl

/-! ### The history -/

/-- A generation of the lead: whether it is a refinement, and the live reviews it got. -/
structure Generation where
  refined : Bool
  output : AgentOutput
  crossfire : List ReviewerFeedback

structure History where
  generations : List Generation
  /-- The live reviews since the last generation. -/
  live : List ReviewerFeedback
  refineCalls : Nat
  /-- The outputs reviewed, with their reviews. -/
  reviews : List (AgentOutput × ReviewerFeedback)
  checks : List CheckResult
  cancels : List Bool
  crossfireCosts : List UsageStats

namespace History

/-- Nothing yet. -/
def empty : History := ⟨[], [], 0, [], [], [], []⟩

variable (h : History)

def generated (refined : Bool) (output : AgentOutput) : History :=
  { h with
    generations := h.generations ++ [⟨refined, output, h.live⟩]
    live := [] }

def refineCalled : History := { h with refineCalls := h.refineCalls + 1 }

def reviewed (output : AgentOutput) (feedback : ReviewerFeedback) : History :=
  { h with reviews := h.reviews ++ [(output, feedback)] }

def watched (feedback : List ReviewerFeedback) : History :=
  { h with
    live := h.live ++ feedback
    crossfireCosts := h.crossfireCosts ++ feedback.flatMap fun f => f.cost.toList }

def checked (results : List CheckResult) : History := { h with checks := h.checks ++ results }

def cancelAsked (answers : List Bool) : History := { h with cancels := h.cancels ++ answers }

def add : Exchange Question Question.Answer → History
  | ⟨.implement _, .ok output⟩ => h.generated false output
  | ⟨.refine _ _ _, .ok output⟩ => h.refineCalled.generated true output
  | ⟨.refine _ _ _, .error _⟩ => h.refineCalled
  | ⟨.review _ output _, .ok feedback⟩ => h.reviewed output feedback
  | ⟨.crossfire _ _ _, .ok feedback⟩ => h.watched [feedback]
  | ⟨.evaluate _, outcome⟩ => h.checked [outcome.result]
  | ⟨.isCancelled, answer⟩ => h.cancelAsked [answer]
  | _ => h

def after (es : Trace) : History := es.foldl add h

@[simp] theorem after_nil : h.after [] = h := rfl

@[simp] theorem after_cons (x : Exchange Question Question.Answer) (es : Trace) :
    h.after (x :: es) = (h.add x).after es := rfl

@[simp] theorem after_append (es es' : Trace) : h.after (es ++ es') = (h.after es).after es' := List.foldl_append

/-- What the first so many generations and reviews cost, as far as they say. -/
def costs (generations reviews : Nat) : List UsageStats :=
  ((h.generations.take generations).flatMap fun g => g.output.cost.toList) ++
    (h.reviews.take reviews).flatMap fun r => r.2.cost.toList

/-- What all generations and reviews used. -/
def usage : UsageStats := UsageStats.total (h.costs h.generations.length h.reviews.length)

theorem usage_generated (refined : Bool) (output : AgentOutput) :
    (h.generated refined output).usage = accumulateOutputUsage h.usage output := by
  rw [usage, usage, accumulateOutputUsage_total]
  refine UsageStats.total_perm ?_
  simp only [costs, generated, List.take_length, List.flatMap_append, List.flatMap_singleton, List.append_assoc]
  exact List.perm_append_comm.append_left _

theorem usage_reviewed (output : AgentOutput) (feedback : ReviewerFeedback) :
    (h.reviewed output feedback).usage = accumulateFeedbackUsage h.usage feedback := by
  rw [usage, usage, accumulateFeedbackUsage_total]
  simp only [costs, reviewed, List.take_length, List.flatMap_append, List.flatMap_singleton, List.append_assoc]

theorem watched_nil : h.watched [] = h := by simp [watched]

theorem watched_append (feedback feedback' : List ReviewerFeedback) :
    (h.watched feedback).watched feedback' = h.watched (feedback ++ feedback') := by
  simp [watched, List.append_assoc]

end History

/-- What the run was told. -/
def history (trace : Trace) : History := History.empty.after trace

/-! ### Stages that are not heard -/

/-- The answer goes into the history. -/
def Question.isHeard : Question → Bool
  | .implement _ | .refine _ _ _ | .review _ _ _ | .crossfire _ _ _ | .evaluate _ | .isCancelled => true
  | _ => false

/-- A part of a run that adds nothing to the history. -/
abbrev Unheard {α : Type} (d : RunM α) : Prop := d.Ensures fun es _ => ∀ h : History, h.after es = h

theorem History.add_of_unheard (h : History) {x : Exchange Question Question.Answer}
    (hx : x.question.isHeard = false) : h.add x = h := by
  obtain ⟨q, answer⟩ := x
  cases q with
  | implement | refine | review | crossfire | evaluate | isCancelled => cases hx
  | _ => rfl

theorem unheard_of_asks {α : Type} {d : RunM α} (hd : d.Asks fun q => q.isHeard = false) : Unheard d := by
  refine hd.ensures.mono fun es _ hes h => ?_
  induction es with
  | nil => rfl
  | cons x es ih =>
    obtain ⟨hx, hes⟩ := List.forall_mem_cons.mp hes
    rw [History.after_cons, h.add_of_unheard hx, ih hes]

/-- Only the loop is heard. -/
theorem InStage.unheard {α : Type} {stage : Stage} {d : RunM α} (h : InStage stage d)
    (hstage : stage = .setUp ∨ stage = .merge ∨ stage = .finish) : Unheard d := by
  refine unheard_of_asks (h.mono fun q hq => ?_)
  subst hq
  cases q with
  | implement | refine | review | crossfire | evaluate | isCancelled => rcases hstage with h | h | h <;> cases h
  | _ => rfl

theorem orFail_unheard {α : Type} (r : Except RunError α) : Unheard (orFail r) :=
  unheard_of_asks (asks_ofExcept r)

/-! ### The parts of the loop -/

/-- One question of the world, and the failure it may answer with: what a run that goes on has heard. -/
theorem askOrFail_ensures {α : Type} {q : Question} {r : q.Answer → Except RunError α}
    {Φ : Trace → α → Prop} (h : ∀ answer a, r answer = .ok a → Φ [⟨q, answer⟩] a) :
    (do orFail (r (← ask q)) : RunM α).Ensures Φ := by
  refine (ensures_query (Φ := fun es answer => es = [⟨q, answer⟩]) fun _ => rfl).bind fun es answer hes => ?_
  subst hes
  exact ensures_ofExcept fun a ha => h answer a ha

/-- A question alone is heard as it is. -/
theorem ask_heard (q : Question) : (ask q).Ensures fun es answer => ∀ h : History, h.after es = h.add ⟨q, answer⟩ :=
  ensures_query fun _ _ => rfl

theorem pollScratch_heard (reviewer strictness : String) (polls : Nat) :
    (pollScratch reviewer strictness polls).Ensures fun es feedback => ∀ h : History, h.after es = h.watched feedback := by
  induction polls with
  | zero => exact ensures_pure fun h => h.watched_nil.symm
  | succ polls ih =>
    rw [pollScratch]
    refine (ask_heard .nextChange).bind fun es₁ answer h₁ => (orFail_unheard answer).bind fun es₂ change h₂ => ?_
    rcases change with _ | summary
    · refine ih.bind fun es₃ rest h₃ => ensures_pure fun h => ?_
      simp [History.add, h₁, h₂, h₃]
    · dsimp only
      refine (ask_heard _).bind fun es₃ answer h₃ => ?_
      rcases answer with e | feedback
      · exact ensures_fail
      · refine ih.bind fun es₄ rest h₄ => ensures_pure fun h => ?_
        simp [History.add, h₁, h₂, h₃, h₄, History.watched_append]

/-- A watched generation: `generate` says what the generation itself adds to the history. -/
theorem collectOutputWithCrossfire_heard {generation : RunM (Except RunError AgentOutput)}
    {generate : History → AgentOutput → History}
    (hgeneration : generation.Ensures fun es answer => ∀ output, answer = .ok output → ∀ h, History.after h es = generate h output)
    (reviewer strictness : String) :
    (collectOutputWithCrossfire generation reviewer strictness).Ensures fun es r =>
      ∀ h, History.after h es = generate (h.watched r.2) r.1 := by
  unfold collectOutputWithCrossfire
  refine (ask_heard _).bind fun es₁ answer h₁ => (orFail_unheard answer).bind fun es₂ _ h₂ => ?_
  refine (ask_heard _).bind fun es₃ polls h₃ => (pollScratch_heard _ _ polls).bind fun es₄ collected h₄ => ?_
  refine hgeneration.bind fun es₅ answer h₅ => ?_
  rcases answer with e | output
  · exact ensures_fail
  · refine ensures_pure fun h => ?_
    simp [History.add, h₁, h₂, h₃, h₄, h₅ output rfl]

theorem ask_implement_heard (adapter : String) : (ask (.implement adapter)).Ensures fun es answer =>
    ∀ output, answer = .ok output → ∀ h : History, h.after es = h.generated false output := by
  refine ensures_query fun answer output hanswer h => ?_
  subst hanswer
  rfl

theorem ask_refine_heard (adapter : String) (previous : AgentOutput) (feedback : ReviewerFeedback) :
    (ask (.refine adapter previous feedback)).Ensures fun es answer =>
      ∀ output, answer = .ok output → ∀ h : History, h.after es = h.refineCalled.generated true output := by
  refine ensures_query fun answer output hanswer h => ?_
  subst hanswer
  rfl

/-- A review that is returned is heard. -/
theorem review_heard (context adapter : String) (output : AgentOutput) (strictness : String) :
    (withContext context do orFail (← ask (.review adapter output strictness))).Ensures fun es feedback =>
      ∀ h : History, h.after es = h.reviewed output feedback := by
  refine Ensures.mapError (askOrFail_ensures fun answer feedback hanswer h => ?_)
  subst hanswer
  rfl

/-- The check is heard if there is a goal, and skipped otherwise. -/
theorem runGoalCheck_heard (goal : Option GoalSpec) : (runGoalCheck goal).Ensures fun es outcome =>
    (∀ h : History, h.after es = h.checked (if goal.isSome then [outcome.result] else [])) ∧
      (goal.isSome = false → outcome.result = .skipped) := by
  rcases goal with _ | spec
  · exact ensures_pure ⟨fun h => by simp [History.checked], fun _ => rfl⟩
  · exact ensures_query fun outcome => ⟨fun _ => rfl, fun h => by cases h⟩

/-- The record of a round is told, not heard. -/
theorem recordRound_heard (record : RoundRecord) :
    (ask (.recordRound record)).Ensures fun es _ => ∀ h : History, h.after es = h := ensures_query fun _ _ => rfl

theorem RunOptions.isCancelled_heard (options : RunOptions) : options.isCancelled.Ensures fun es answer =>
    (∀ h : History, h.after es = h.cancelAsked (if options.cancelToken then [answer] else [])) ∧
      (options.cancelToken = false → answer = false) := by
  unfold isCancelled
  split_ifs with htoken
  · exact ensures_query fun answer => ⟨fun _ => rfl, fun h => absurd htoken (by simp [h])⟩
  · exact ensures_pure ⟨fun h => by simp [History.cancelAsked], fun _ => rfl⟩

end Nerve.Run
