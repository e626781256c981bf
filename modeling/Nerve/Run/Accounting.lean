import Nerve.Run.LoopTrace

/-!
# The budget's account

What a run reports as used is what its generations and reviews cost, in either strategy
(`account`). The live reviews are not in it: a reviewer that watches a generation is a call of an adapter
with a cost of its own, and no place in the loop adds that cost. So the report
accounts for all calls exactly when the live reviews would not have added anything,
`accounted_iff`; a run whose one live review cost a token reports less than was used
(`live_review_unaccounted`).
-/

namespace Nerve.Run

open Nerve Nerve.Patch Dialogue

/-! ### Totals as sums -/

/-- The money the calls say they cost. -/
def UsageStats.money (costs : List UsageStats) : List Nat := costs.filterMap UsageStats.estimatedCostMicrousd

/-- The figures are `u64`. -/
def UsageStats.IsU64 (u : UsageStats) : Prop :=
  u.inputTokens < 2 ^ 64 ∧ u.outputTokens < 2 ^ 64 ∧ ∀ cost ∈ u.estimatedCostMicrousd, cost < 2 ^ 64

theorem foldl_saturatingAdd (figures : List Nat) {start : Nat} (hstart : start < 2 ^ 64) :
    figures.foldl Text.saturatingAdd start = min (start + figures.sum) (2 ^ 64 - 1) := by
  induction figures generalizing start with
  | nil =>
    rw [List.foldl_nil, List.sum_nil]
    omega
  | cons figure figures ih =>
    have hnext : Text.saturatingAdd start figure < 2 ^ 64 := by
      rw [Text.saturatingAdd]
      omega
    rw [List.foldl_cons, ih hnext, List.sum_cons, Text.saturatingAdd]
    omega

theorem foldl_inputTokens (costs : List UsageStats) (u : UsageStats) :
    (costs.foldl UsageStats.addAssign u).inputTokens =
      (costs.map UsageStats.inputTokens).foldl Text.saturatingAdd u.inputTokens := by
  induction costs generalizing u with
  | nil => rfl
  | cons c costs ih => exact ih _

theorem foldl_outputTokens (costs : List UsageStats) (u : UsageStats) :
    (costs.foldl UsageStats.addAssign u).outputTokens =
      (costs.map UsageStats.outputTokens).foldl Text.saturatingAdd u.outputTokens := by
  induction costs generalizing u with
  | nil => rfl
  | cons c costs ih => exact ih _

theorem money_cons_none {c : UsageStats} (costs : List UsageStats) (hc : c.estimatedCostMicrousd = none) :
    UsageStats.money (c :: costs) = UsageStats.money costs := List.filterMap_cons_none hc

theorem money_cons_some {c : UsageStats} (costs : List UsageStats) {cost : Nat}
    (hc : c.estimatedCostMicrousd = some cost) : UsageStats.money (c :: costs) = cost :: UsageStats.money costs :=
  List.filterMap_cons_some hc

theorem foldl_money_some (costs : List UsageStats) {u : UsageStats} {m : Nat} (hu : u.estimatedCostMicrousd = some m) :
    (costs.foldl UsageStats.addAssign u).estimatedCostMicrousd =
      some ((UsageStats.money costs).foldl Text.saturatingAdd m) := by
  induction costs generalizing u m with
  | nil => exact hu
  | cons c costs ih =>
    rcases hc : c.estimatedCostMicrousd with _ | cost
    · have hu' : (u.addAssign c).estimatedCostMicrousd = some m := by simp only [UsageStats.addAssign, hu, hc]
      rw [List.foldl_cons, ih hu', money_cons_none costs hc]
    · have hu' : (u.addAssign c).estimatedCostMicrousd = some (Text.saturatingAdd m cost) := by
        simp only [UsageStats.addAssign, hu, hc]
      rw [List.foldl_cons, ih hu', money_cons_some costs hc, List.foldl_cons]

theorem foldl_money_none (costs : List UsageStats) {u : UsageStats} (hu : u.estimatedCostMicrousd = none)
    (h64 : ∀ c ∈ costs, c.IsU64) :
    (costs.foldl UsageStats.addAssign u).estimatedCostMicrousd =
      if UsageStats.money costs = [] then none else some (min (UsageStats.money costs).sum (2 ^ 64 - 1)) := by
  induction costs generalizing u with
  | nil => exact hu
  | cons c costs ih =>
    obtain ⟨hc64, h64⟩ := List.forall_mem_cons.mp h64
    rcases hc : c.estimatedCostMicrousd with _ | cost
    · have hu' : (u.addAssign c).estimatedCostMicrousd = none := by simp only [UsageStats.addAssign, hu, hc]
      rw [List.foldl_cons, ih hu' h64, money_cons_none costs hc]
    · have hu' : (u.addAssign c).estimatedCostMicrousd = some cost := by simp only [UsageStats.addAssign, hu, hc]
      have hcost : cost < 2 ^ 64 := hc64.2.2 cost hc
      rw [List.foldl_cons, foldl_money_some costs hu', foldl_saturatingAdd _ hcost, money_cons_some costs hc,
        if_neg (List.cons_ne_nil _ _), List.sum_cons]

theorem total_inputTokens (costs : List UsageStats) :
    (UsageStats.total costs).inputTokens = min (costs.map UsageStats.inputTokens).sum (2 ^ 64 - 1) := by
  rw [UsageStats.total, foldl_inputTokens, foldl_saturatingAdd _ (by decide)]
  exact congrArg (min · _) (Nat.zero_add _)

theorem total_outputTokens (costs : List UsageStats) :
    (UsageStats.total costs).outputTokens = min (costs.map UsageStats.outputTokens).sum (2 ^ 64 - 1) := by
  rw [UsageStats.total, foldl_outputTokens, foldl_saturatingAdd _ (by decide)]
  exact congrArg (min · _) (Nat.zero_add _)

theorem total_money {costs : List UsageStats} (h64 : ∀ c ∈ costs, c.IsU64) :
    (UsageStats.total costs).estimatedCostMicrousd =
      if UsageStats.money costs = [] then none else some (min (UsageStats.money costs).sum (2 ^ 64 - 1)) :=
  foldl_money_none costs rfl h64

/-! ### What would have been added -/

/-- Adding these figures to those makes no difference: they are all zero, or the sum is saturated
without them. -/
def FiguresAddNothing (figures more : List Nat) : Prop := more.sum = 0 ∨ 2 ^ 64 - 1 ≤ figures.sum

/-- The further calls make no difference to what the calls used. -/
structure AddNothing (costs further : List UsageStats) : Prop where
  input : FiguresAddNothing (costs.map UsageStats.inputTokens) (further.map UsageStats.inputTokens)
  output : FiguresAddNothing (costs.map UsageStats.outputTokens) (further.map UsageStats.outputTokens)
  money : UsageStats.money further = [] ∨
    UsageStats.money costs ≠ [] ∧ FiguresAddNothing (UsageStats.money costs) (UsageStats.money further)

theorem min_sum_append_iff (figures more : List Nat) :
    min (figures ++ more).sum (2 ^ 64 - 1) = min figures.sum (2 ^ 64 - 1) ↔ FiguresAddNothing figures more := by
  rw [List.sum_append, FiguresAddNothing]
  omega

theorem total_append_eq_iff {costs further : List UsageStats} (h64 : ∀ c ∈ costs ++ further, c.IsU64) :
    UsageStats.total (costs ++ further) = UsageStats.total costs ↔ AddNothing costs further := by
  have hmoney : (UsageStats.total (costs ++ further)).estimatedCostMicrousd = (UsageStats.total costs).estimatedCostMicrousd ↔
      (UsageStats.money further = [] ∨
        UsageStats.money costs ≠ [] ∧ FiguresAddNothing (UsageStats.money costs) (UsageStats.money further)) := by
    rw [total_money h64, total_money fun c hc => h64 c (List.mem_append_left _ hc), ← min_sum_append_iff]
    have happend : UsageStats.money (costs ++ further) = UsageStats.money costs ++ UsageStats.money further :=
      List.filterMap_append
    rw [happend]
    rcases hcosts : UsageStats.money costs with _ | ⟨cost, rest⟩
    · rcases hfurther : UsageStats.money further with _ | ⟨cost, rest⟩ <;> simp
    · rcases hfurther : UsageStats.money further with _ | ⟨cost', rest'⟩ <;> simp
  constructor
  · intro heq
    refine ⟨(min_sum_append_iff _ _).mp ?_, (min_sum_append_iff _ _).mp ?_, hmoney.mp (by rw [heq])⟩
    · rw [← List.map_append, ← total_inputTokens, ← total_inputTokens, heq]
    · rw [← List.map_append, ← total_outputTokens, ← total_outputTokens, heq]
  · rintro ⟨hinput, houtput, hm⟩
    have hi := (min_sum_append_iff _ _).mpr hinput
    have ho := (min_sum_append_iff _ _).mpr houtput
    rw [← List.map_append, ← total_inputTokens, ← total_inputTokens] at hi
    rw [← List.map_append, ← total_outputTokens, ← total_outputTokens] at ho
    have hc := hmoney.mpr hm
    rcases hall : UsageStats.total (costs ++ further) with ⟨input, output, cost⟩
    rcases hsome : UsageStats.total costs with ⟨input', output', cost'⟩
    rw [hall, hsome] at hi ho hc
    exact UsageStats.mk.injEq .. ▸ ⟨hi, ho, hc⟩

/-! ### The account of a run -/

/-- What every generation and every review of a whole output cost. -/
def History.callCosts (h : History) : List UsageStats := h.costs h.generations.length h.reviews.length

/-- What every call of an adapter cost. -/
def History.allCosts (h : History) : List UsageStats := h.callCosts ++ h.crossfireCosts

/-- The report says what was used, and whether that is too much. -/
def Accounts (orchestration : Orchestration) (costs : List UsageStats) (report : RunReport) : Prop :=
  report.usage = UsageStats.total costs ∧
    report.budgetExceeded = exceedsBudget (UsageStats.total costs) orchestration

namespace Setting

variable {S : Setting}

/-- The reviews of the candidates are added to what the candidates cost. -/
theorem judgeTournament_heard (leadOutput reviewerOutput : AgentOutput) :
    (S.judgeTournament leadOutput reviewerOutput).Ensures fun es r => ∀ h : History,
      h.usage = accumulateOutputUsage (accumulateOutputUsage UsageStats.default leadOutput) reviewerOutput →
      r.1 = (h.after es).usage ∧ r.2.1 = exceedsBudget r.1 S.config.orchestration := by
  unfold judgeTournament
  dsimp only
  split
  · exact ensures_pure fun h hh => ⟨hh.symm, Eq.symm ‹_›⟩
  refine (review_heard _ _ _ _).bind fun es₁ leadReview h₁ => ?_
  refine (review_heard _ _ _ _).bind fun es₂ reviewerReview h₂ => ?_
  have husage (h : History)
      (hh : h.usage = accumulateOutputUsage (accumulateOutputUsage UsageStats.default leadOutput) reviewerOutput) :
      accumulateFeedbackUsage (accumulateFeedbackUsage (accumulateOutputUsage
        (accumulateOutputUsage UsageStats.default leadOutput) reviewerOutput) leadReview) reviewerReview =
      (h.after (es₁ ++ (es₂ ++ []))).usage := by
    rw [History.after_append, History.after_append, h₁, h₂, History.after_nil, History.usage_reviewed,
      History.usage_reviewed, hh]
  split
  · exact ensures_pure fun h hh => ⟨husage h hh, Eq.symm ‹_›⟩
  have hnot := Bool.eq_false_iff.mpr ‹_›
  split
  · exact ensures_pure fun h hh => ⟨husage h hh, hnot.symm⟩
  split
  · exact ensures_pure fun h hh => ⟨husage h hh, hnot.symm⟩
  · exact ensures_pure fun h hh => ⟨husage h hh, hnot.symm⟩

theorem runTournamentStrategy_accounts (task : Task) : (S.runTournamentStrategy task).Ensures fun es report =>
    Accounts S.config.orchestration (history es).callCosts report := by
  have hgenerate (adapter : String) : Ensures (withContext "tournament candidate generation failed"
      (do orFail (← ask (.implement adapter)))) fun es output => ∀ h : History, h.after es = h.generated false output := by
    refine Ensures.mapError (askOrFail_ensures fun answer output hanswer h => ?_)
    subst hanswer
    rfl
  unfold runTournamentStrategy
  refine (hgenerate S.lead).bind fun es₁ leadOutput h₁ => (hgenerate S.reviewer).bind fun es₂ reviewerOutput h₂ => ?_
  refine (judgeTournament_heard _ _).bind fun es₃ ⟨usage, budgetExceeded, finalOutput, finalFeedback⟩ h₃ => ?_
  refine ((buildGoalEvaluator_inStage _).unheard (Or.inl rfl)).bind fun es₄ goal h₄ => ?_
  refine (runGoalCheck_heard goal).bind fun es₅ outcome ⟨h₅, _⟩ => ?_
  refine (recordRound_heard _).bind fun es₆ _ h₆ => ?_
  refine ((selectFinalPatch_inStage _ _ _ _).unheard (Or.inr (Or.inl rfl))).bind fun es₇ finalPatch h₇ => ?_
  refine S.options.isCancelled_heard.bind fun es₈ cancelled ⟨h₈, _⟩ => ?_
  refine (((conclude_inStage _ _ _ _ _ _ _).unheard (Or.inr (Or.inr rfl))).and (conclude_reports _ _ _ _ _ _ _)).mono
    fun es₉ report ⟨h₉, hreport⟩ => ?_
  obtain ⟨husage, hbudget⟩ := h₃ ((History.empty.generated false leadOutput).generated false reviewerOutput) (by
    rw [History.usage_generated, History.usage_generated]
    rfl)
  have hheard : UsageStats.total
      (history (es₁ ++ (es₂ ++ (es₃ ++ (es₄ ++ (es₅ ++ (es₆ ++ (es₇ ++ (es₈ ++ es₉))))))))).callCosts = usage := by
    simp only [history, History.after_append, h₁, h₂, h₄, h₅, h₆, h₇, h₈, h₉]
    exact husage.symm
  rw [Accounts, hheard]
  exact ⟨hreport.usage, hreport.budgetExceeded.trans hbudget⟩

theorem runConsensus_accounts (task : Task) : (S.runConsensus task).Ensures fun es report =>
    Accounts S.config.orchestration (history es).callCosts report := by
  refine (runConsensus_heard task).mono fun es report ⟨s, hs, hreport⟩ => ?_
  have husage : report.usage = UsageStats.total (history es).callCosts := hreport.usage.trans hs.usage
  refine ⟨husage, ?_⟩
  rw [← husage, hreport.budgetExceeded, hreport.usage]
  exact hs.budget

end Setting

section Accounting

variable {X : Externals} {task : Task} {config : Config} {adapters : List String} {options : RunOptions}
  {trace : Trace} {report : RunReport}

/-- Every run accounts for its generations and its reviews of whole outputs. -/
theorem account (h : Runs (runSynapticLoop X task config adapters options) trace (.ok report)) :
    Accounts config.orchestration (history trace).callCosts report := by
  refine runSynapticLoop_heard (Φ := fun h report => Accounts config.orchestration h.callCosts report)
    (fun S hexternals hconfig hmax => ?_) trace report h
  rw [← hconfig]
  split
  · exact Setting.runTournamentStrategy_accounts task
  · exact Setting.runConsensus_accounts task
  · exact Setting.runConsensus_accounts task

/-- **The report accounts for every call exactly when the live reviews add nothing.** -/
theorem accounted_iff (h : Runs (runSynapticLoop X task config adapters options) trace (.ok report))
    (h64 : ∀ c ∈ (history trace).allCosts, c.IsU64) :
    Accounts config.orchestration (history trace).allCosts report ↔
      AddNothing (history trace).callCosts (history trace).crossfireCosts := by
  obtain ⟨husage, hbudget⟩ := account h
  rw [← total_append_eq_iff h64, Accounts, husage, hbudget]
  constructor
  · rintro ⟨heq, -⟩
    exact heq.symm
  · intro heq
    rw [History.allCosts, heq]
    exact ⟨rfl, rfl⟩

end Accounting

/-! ### A run with a live review -/

/-- A world in which the scratch directory changes once while the lead works, with what the lead, the
review of its output and the live review report of their costs. -/
def liveWorld (lead review live : Option UsageStats) (past : Trace) (q : Question) : q.Answer :=
  match q with
  | .pollsBeforeOutput => (1 : Nat)
  | .nextChange => .ok (some "a changed")
  | .crossfire _ _ _ => .ok { ReviewerFeedback.lgtm "codex" "LGTM" with cost := live }
  | q => sampleWorld { sampleOutput with cost := lead } { ReviewerFeedback.lgtm "codex" "LGTM" with cost := review } .pass past q

/-- One live review, on top of the sample run. -/
def liveRun : RunM RunReport :=
  runSynapticLoop sampleExternals sampleTask (sampleConfig .reviewerBlock) ["claude-code", "codex"] sampleOptions

/-- A live review that was free is accounted for beside calls that were not. -/
theorem accounted_iff_free : ∃ trace report, Runs liveRun trace (.ok report) ∧
    (history trace).callCosts = [⟨3, 2, some 7⟩, ⟨1, 1, none⟩] ∧ (history trace).crossfireCosts = [⟨0, 0, some 0⟩] ∧
    Accounts (sampleConfig .reviewerBlock).orchestration (history trace).allCosts report := by
  have hruns := runs_play (liveWorld (some ⟨3, 2, some 7⟩) (some ⟨1, 1, none⟩) (some ⟨0, 0, some 0⟩)) [] liveRun
  have hall : (history (liveRun.play (liveWorld (some ⟨3, 2, some 7⟩) (some ⟨1, 1, none⟩) (some ⟨0, 0, some 0⟩)) []).1).allCosts =
      [⟨3, 2, some 7⟩, ⟨1, 1, none⟩, ⟨0, 0, some 0⟩] := rfl
  refine ⟨_, _, hruns, rfl, rfl, (accounted_iff hruns ?_).mpr ⟨.inl rfl, .inl rfl, .inr ⟨by decide, .inl rfl⟩⟩⟩
  rw [hall]
  simp [UsageStats.IsU64]

/-- The cost of a live review is left out of the account. -/
theorem live_review_unaccounted :
    ¬ ∀ (X : Externals) (task : Task) (config : Config) (adapters : List String) (options : RunOptions)
      (trace : Trace) (report : RunReport),
      Runs (runSynapticLoop X task config adapters options) trace (.ok report) →
      Accounts config.orchestration (history trace).allCosts report := by
  intro h
  have hruns := runs_play (liveWorld none none (some ⟨1, 0, none⟩)) [] liveRun
  have husage := (h _ _ _ _ _ _ _ hruns).1
  cases husage

end Nerve.Run
