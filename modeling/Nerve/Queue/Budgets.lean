import Nerve.Queue.Dispatch

/-!
# The budget of a step

The budget of a dispatched step is chosen when it is put into the queue, and looked at again when
the step has run. If nothing configures one, it is zero, which the dispatch takes for no budget, and
`run_task` for one that any cost exceeds. So the two agree (`budgets_agree_iff`) only if there is a
budget, or the cost makes no difference.
-/

namespace Nerve.Queue

open Run Store

/-! ### The run of a task -/

/-- A verdict of the goal check, as it is printed. -/
def debugGoalSatisfied : Option Bool → String
  | none => "None"
  | some true => "Some(true)"
  | some false => "Some(false)"

def patrolResultFromReport (now : Nat) (taskId patrolId : String) (report : RunReport) : PatrolResult :=
  let cost := report.usage.estimatedCostMicrousd.getD 0
  let result : PatrolResult :=
    if report.blocked then
      ⟨taskId, patrolId, .failed, cost, none,
        some s!"run blocked by verification gate (goal_satisfied={debugGoalSatisfied report.goalSatisfied})", some now⟩
    else ⟨taskId, patrolId, .success, cost, none, none, some now⟩
  { result with patchSha := report.finalPatch.map Patch.NvPatch.id }

/-- `patrol_dispatch`, of how the loop has ended. -/
def patrolDispatch (now : Nat) (task : PatrolTask) (patrolId : String) (outcome : Except String RunReport) :
    Except MayorError PatrolResult :=
  match outcome with
  | .ok report => .ok (patrolResultFromReport now task.taskId patrolId report)
  | .error message => .ok ⟨task.taskId, patrolId, .failed, 0, none, some message, some now⟩

/-- Where `run_task` moves the task's file. -/
def endsIn (now : Nat) (patrolId : String) (task : PatrolTask) (outcome : Except String RunReport) : Place :=
  destination (settleResult now patrolId task (patrolDispatch now task patrolId outcome)).verdict

/-! ### What a budget means -/

/-- The same run, had it cost nothing. -/
def freeReport (report : RunReport) : RunReport :=
  { report with usage := { report.usage with estimatedCostMicrousd := none } }

def withoutCost (outcome : Except String RunReport) : Except String RunReport := outcome.map freeReport

def reportedCost : Except String RunReport → Nat
  | .ok report => report.usage.estimatedCostMicrousd.getD 0
  | .error _ => 0

/-- Something says what a step may cost. -/
def Budgeted (config : DispatchConfig) (budgetMicrousd : Option Nat) : Prop :=
  budgetMicrousd.isSome ∨ config.perPatrolBudgetMicrousd.isSome ∨ config.budgetCostMicrousdCeiling.isSome

/-- The task fails, and would not have but for its cost. -/
def FailsForCost (now : Nat) (patrolId : String) (task : PatrolTask) (outcome : Except String RunReport) : Prop :=
  endsIn now patrolId task outcome = .failed ∧ endsIn now patrolId task (withoutCost outcome) = .done

/-- Only a budget that is configured, and exceeded, makes a task fail for its cost; without one, a
run that is not blocked is done. -/
structure BudgetsAgree (config : DispatchConfig) (budgetMicrousd : Option Nat) (now : Nat) (patrolId : String)
    (task : PatrolTask) (outcome : Except String RunReport) : Prop where
  exceeded : FailsForCost now patrolId task outcome →
    Budgeted config budgetMicrousd ∧ dispatchBudget config budgetMicrousd < reportedCost outcome
  unbudgeted : ¬ Budgeted config budgetMicrousd → ∀ report, outcome = .ok report → report.blocked = false →
    endsIn now patrolId task outcome = .done

section Budgets

variable {world : DispatchWorld} {w : Workspace} {config : DispatchConfig} {planId : String} {maxSteps budget : Option Nat}
  {d : QueueDirs} {now : Nat} {patrolId : String} {task : PatrolTask}

theorem dispatchBudget_of_not_budgeted (h : ¬ Budgeted config budget) : dispatchBudget config budget = 0 := by
  simp only [Budgeted, not_or, Bool.not_eq_true, Option.isSome_eq_false_iff, Option.isNone_iff_eq_none] at h
  obtain ⟨hbudget, hpatrol, hceiling⟩ := h
  simp [dispatchBudget, hbudget, hpatrol, hceiling]

theorem added_subset {total : Option Nat} {tasks : List PatrolTask} : (enqueueAll world total tasks d).added ⊆ tasks := by
  induction tasks generalizing d with
  | nil => exact List.Subset.refl _
  | cons task tasks ih =>
    rw [enqueueAll]
    split
    · exact List.nil_subset _
    · exact List.cons_subset_cons task ih

/-- The tasks of a dispatch have the budget it has chosen. -/
theorem budget_of_mem_added (h : task ∈ (dispatchPlanSteps world w config planId maxSteps budget d).added) :
    task.budgetMicrousd = dispatchBudget config budget := by
  unfold dispatchPlanSteps at h
  rcases hplan : planTasks world w config planId maxSteps budget with e | tasks <;> rw [hplan] at h
  · cases h
  · obtain ⟨report, -, rfl, -⟩ := planTasks_eq_ok hplan
    obtain ⟨step, -, rfl⟩ := List.mem_map.mp (added_subset h)
    rfl

/-- Where the task of a run that is not blocked goes. -/
theorem endsIn_of_not_blocked (now : Nat) (patrolId : String) (task : PatrolTask) {report : RunReport}
    (h : report.blocked = false) :
    endsIn now patrolId task (.ok report) =
      if task.budgetMicrousd < report.usage.estimatedCostMicrousd.getD 0 then .failed else .done := by
  unfold endsIn settleResult patrolDispatch patrolResultFromReport
  simp only [h, Bool.false_eq_true, if_false]
  split_ifs <;> rfl

/-- A run that is blocked fails in any case. -/
theorem endsIn_of_blocked (report : RunReport) (h : report.blocked = true) :
    endsIn now patrolId task (.ok report) = .failed := by
  unfold endsIn settleResult patrolDispatch patrolResultFromReport
  simp only [h, if_true]
  split_ifs <;> rfl

theorem endsIn_error (message : String) : endsIn now patrolId task (.error message) = .failed := by
  unfold endsIn settleResult patrolDispatch
  simp only
  split_ifs <;> rfl

theorem failsForCost_iff {report : RunReport} (h : report.blocked = false) :
    FailsForCost now patrolId task (.ok report) ↔ task.budgetMicrousd < reportedCost (.ok report) := by
  have hfree : endsIn now patrolId task (withoutCost (.ok report)) = .done := by
    have hends : endsIn now patrolId task (.ok (freeReport report)) = _ := endsIn_of_not_blocked now patrolId task h
    exact hends.trans (if_neg (Nat.not_lt_zero _))
  rw [FailsForCost, endsIn_of_not_blocked now patrolId task h, reportedCost]
  simp [hfree]

/-- Only a run that has ended, and is not blocked, can fail for its cost. -/
theorem not_failsForCost {outcome : Except String RunReport} (h : ∀ report, outcome = .ok report → report.blocked = true) :
    ¬ FailsForCost now patrolId task outcome := by
  rintro ⟨-, hdone⟩
  cases outcome with
  | error message => cases (endsIn_error message).symm.trans hdone
  | ok report =>
    have hblocked : report.blocked = true := h report rfl
    cases (endsIn_of_blocked (freeReport report) hblocked).symm.trans hdone

/-- **Dispatch and patrol agree on the budget** of a task just if there is one, or its run costs
nothing, or is blocked. -/
theorem budgets_agree_iff (outcome : Except String RunReport)
    (h : task ∈ (dispatchPlanSteps world w config planId maxSteps budget d).added) :
    BudgetsAgree config budget now patrolId task outcome ↔
      Budgeted config budget ∨ reportedCost outcome = 0 ∨ ∃ report, outcome = .ok report ∧ report.blocked = true := by
  have hbudget := budget_of_mem_added h
  rcases outcome with message | report
  · refine iff_of_true ⟨fun hfails => ?_, fun _ _ hreport => by cases hreport⟩ (Or.inr (Or.inl rfl))
    exact absurd hfails (not_failsForCost fun _ hreport => by cases hreport)
  rcases hblocked : report.blocked with _ | _
  · by_cases hconfigured : Budgeted config budget
    · refine iff_of_true ⟨fun hfails => ⟨hconfigured, ?_⟩, fun hno => absurd hconfigured hno⟩ (Or.inl hconfigured)
      exact hbudget ▸ (failsForCost_iff hblocked).mp hfails
    · have hzero : task.budgetMicrousd = 0 := hbudget.trans (dispatchBudget_of_not_budgeted hconfigured)
      have hends := endsIn_of_not_blocked now patrolId task hblocked
      constructor
      · intro hagree
        have hcost : ¬ task.budgetMicrousd < reportedCost (.ok report) :=
          fun hlt => hconfigured (hagree.exceeded ((failsForCost_iff hblocked).mpr hlt)).1
        exact Or.inr (Or.inl (by omega))
      · rintro (hyes | hcost | ⟨report', hreport', hblocked'⟩)
        · exact absurd hyes hconfigured
        · have hle : ¬ task.budgetMicrousd < report.usage.estimatedCostMicrousd.getD 0 := by
            show ¬ task.budgetMicrousd < reportedCost (.ok report)
            omega
          rw [if_neg hle] at hends
          refine ⟨fun hfails => ?_, fun _ report' hreport' _ => by cases hreport'; exact hends⟩
          exact absurd ((failsForCost_iff hblocked).mp hfails) (by omega)
        · cases hreport'
          rw [hblocked] at hblocked'
          cases hblocked'
  · refine iff_of_true ⟨fun hfails => ?_, fun _ report' hreport' hfree => ?_⟩ (Or.inr (Or.inr ⟨report, rfl, hblocked⟩))
    · exact absurd hfails (not_failsForCost fun report' hreport' => by cases hreport'; exact hblocked)
    · cases hreport'
      rw [hblocked] at hfree
      cases hfree

end Budgets

/-! ### A step without a budget -/

/-- A run that has found nothing to do, at the cost of a millionth of a dollar. -/
def cheapReport : RunReport where
  task := ⟨"task", "Step 1: one", ⟨"/work"⟩, []⟩
  selection := ⟨none, "claude-code", "codex", .normal, 1⟩
  rounds := []
  crossfireFeedback := []
  finalOutput := ⟨"claude-code", "nothing to do", none, [], none⟩
  finalFeedback := .lgtm "codex" "LGTM"
  finalPatch := none
  usage := ⟨10, 10, some 1⟩
  budgetExceeded := false
  noProgressExceeded := false
  crossfireHalted := false
  cancelled := false
  goalSatisfied := none
  applied := false
  blocked := false
  applyClassification := none
  ranUnconfined := false

/-- The queue with nothing in it. -/
def emptyQueue : QueueDirs := ⟨∅, ∅, ∅, ∅, ∅⟩

/-- The first step of the plan. -/
def firstStep : PatrolTask := ⟨"p-step-01", "Step 1: one", 0, [], some 0⟩

/-- **An unbudgeted step fails at any cost.** -/
theorem unbudgeted_step_fails :
    ¬ ∀ (world : DispatchWorld) (w : Workspace) (config : DispatchConfig) (planId : String) (maxSteps budget : Option Nat)
      (d : QueueDirs) (now : Nat) (patrolId : String) (outcome : Except String RunReport),
      ∀ task ∈ (dispatchPlanSteps world w config planId maxSteps budget d).added,
        BudgetsAgree config budget now patrolId task outcome := by
  intro h
  have hadded : firstStep ∈ (dispatchPlanSteps sampleWorld sampleWorkspace ⟨none, none⟩ "p" none none emptyQueue).added := by
    decide +kernel
  have hagree := h _ _ _ _ _ _ _ 0 "patrol" (.ok cheapReport) firstStep hadded
  have hdone := hagree.unbudgeted (by simp [Budgeted]) cheapReport rfl rfl
  cases hdone

theorem budgets_agree_first_step :
    firstStep ∈ (dispatchPlanSteps sampleWorld sampleWorkspace ⟨none, none⟩ "p" none none emptyQueue).added ∧
      (BudgetsAgree ⟨none, none⟩ none 0 "patrol" firstStep (.ok cheapReport) ↔
        Budgeted ⟨none, none⟩ none ∨ reportedCost (.ok cheapReport) = 0 ∨
          ∃ report, (.ok cheapReport : Except String RunReport) = .ok report ∧ report.blocked = true) := by
  have hadded : firstStep ∈ (dispatchPlanSteps sampleWorld sampleWorkspace ⟨none, none⟩ "p" none none emptyQueue).added := by
    decide +kernel
  exact ⟨hadded, budgets_agree_iff (.ok cheapReport) hadded⟩

end Nerve.Queue
