import Nerve.Run.Gate
import Nerve.Run.History

/-!
# The trace of the loop

What a consensus or pipeline run leaves in its report, told from what the run was told. The
records are numbered from 0 and hold the lead's outputs in order, each with its review, its
check and the hash of its patch; an output that was not reviewed can only be the one that
exceeded the budget. The loop stops for the first of seven reasons (`StopReason.inOrder`)
that holds of its last round, and none held of an earlier one. `LoopTrace` is all
this of a report and the exchanges of its run, and `loop_trace` that every run has it.

`Setting.holdsAt` states each reason from the history and the records alone, so the state
of the loop does not occur in what is claimed. The proof carries `AtRound` from
round to round: `reviewRound` leads from it to `AtSeam`, `settleRound` from there to the end
(`Ended`) or on to a refinement, which leads to the next `AtRound`.
-/

namespace Nerve.Run

open Nerve Nerve.Patch Dialogue

/-! ### Why a run stops -/

inductive StopReason where
  | budget
  | accepted
  | cancelled
  | blocked
  | halted
  | noProgress
  | roundLimit
  deriving DecidableEq, Repr

/-- The order in which the reasons count. -/
def StopReason.inOrder : List StopReason :=
  [.budget, .accepted, .cancelled, .blocked, .halted, .noProgress, .roundLimit]

/-- What the no-progress guard keeps of the rounds so far. -/
structure Progress where
  count : Nat
  previousPatchSha : Option String
  best : Option Nat
  deriving DecidableEq, Repr

namespace Setting

variable (S : Setting)

/-- The round is stalled, and the guard counts it. -/
def stalls (p : Progress) (r : RoundRecord) : Bool :=
  S.noProgressMax > 0 && (r.reviewer.verdict == .requestChanges || r.reviewer.verdict == .acceptWithNits) &&
    roundIsStalled p.previousPatchSha r.patchSha p.best (r.checkResult.bind checkResultProgress)

def progressed (p : Progress) (r : RoundRecord) : Progress where
  count := if S.stalls p r then saturatingAddU8 p.count 1 else 0
  previousPatchSha := r.patchSha
  best := match r.checkResult.bind checkResultProgress with
    | some now => some (p.best.elim now fun b => max b now)
    | none => p.best

/-- The guard after these rounds. -/
def progress (rounds : List RoundRecord) : Progress := rounds.foldl S.progressed ⟨0, none, none⟩

/-- Whether the reason holds of round `i`. The budget counts what was used up to the round's
review, and with the generation that follows. -/
def holdsAt (h : History) (rounds : List RoundRecord) (i : Nat) : StopReason → Bool
  | .budget =>
    exceedsBudget (UsageStats.total (h.costs (i + 1) (i + 1))) S.config.orchestration ||
      exceedsBudget (UsageStats.total (h.costs (i + 2) (i + 1))) S.config.orchestration
  | .accepted => rounds[i]?.any fun r => r.checkResult.any (S.terminal r.reviewer.verdict)
  | .cancelled => h.cancels[i]? == some true
  | .blocked => rounds[i]?.any fun r => r.reviewer.verdict == .block
  | .halted => S.config.orchestration.crossfireAction.halts &&
    h.generations[i]?.any fun g => mostSevereCrossfire g.crossfire == some .block
  | .noProgress => S.noProgressMax > 0 && (S.progress (rounds.take (i + 1))).count ≥ S.noProgressMax
  | .roundLimit => i == S.maxRefinementRounds

/-- The first reason that holds of round `i`. -/
def stopReason (h : History) (rounds : List RoundRecord) (i : Nat) : Option StopReason :=
  StopReason.inOrder.find? (S.holdsAt h rounds i)

end Setting

/-- The trace of a run that returned the report. -/
structure LoopTrace (S : Setting) (h : History) (report : RunReport) : Prop where
  numbered : report.rounds.map (·.round) = List.range report.rounds.length
  bounded : report.rounds.length ≤ S.maxRefinementRounds + 1
  /-- One generation implements, the others refine. -/
  generations : h.generations.map (·.refined) = false :: List.replicate h.refineCalls true
  leads : report.rounds.map (·.lead) = (h.generations.map (·.output)).take report.rounds.length
  reviews : report.rounds.map (fun r => (r.lead, r.reviewer)) = h.reviews
  /-- With a goal the check's results, in order. -/
  checks : report.rounds.map (·.checkResult) =
    if report.goalSatisfied.isSome then h.checks.map some else List.replicate report.rounds.length (some .skipped)
  patchShas : ∀ r ∈ report.rounds, r.patchSha = r.lead.proposedPatch.map S.canonicalHash
  reviewed : report.budgetExceeded = false →
    1 ≤ report.rounds.length ∧ report.rounds.getLast?.map (·.lead) = some report.finalOutput ∧
      h.refineCalls = report.rounds.length - 1
  /-- A run without a round has exceeded its budget with the first generation. -/
  unreviewed : report.rounds = [] →
    report.budgetExceeded = true ∧ exceedsBudget (UsageStats.total (h.costs 1 0)) S.config.orchestration = true
  going : ∀ i, i + 1 < report.rounds.length → S.stopReason h report.rounds i = none
  stopped : ∀ i, report.rounds.length = i + 1 → ∃ reason, S.stopReason h report.rounds i = some reason ∧
    report.budgetExceeded = (reason == .budget) ∧ report.cancelled = (reason == .cancelled) ∧
      report.crossfireHalted = (reason == .halted) ∧ report.noProgressExceeded = (reason == .noProgress)

/-! ### What holds of earlier rounds stays -/

namespace Setting

variable (S : Setting)

/-- What is added to the history and the records after a round, its next generation included, does
not touch it. -/
theorem holdsAt_stable {h h' : History} {rounds rounds' : List RoundRecord} {i : Nat}
    (hgenerations : h.generations <+: h'.generations) (hg : i + 2 ≤ h.generations.length)
    (hreviews : h.reviews <+: h'.reviews) (hr : i + 1 ≤ h.reviews.length)
    (hcancels : h'.cancels[i]? = h.cancels[i]?) (hrounds : rounds <+: rounds') (hi : i + 1 ≤ rounds.length)
    (reason : StopReason) : S.holdsAt h' rounds' i reason = S.holdsAt h rounds i reason := by
  obtain ⟨generations, hgenerations⟩ := hgenerations
  obtain ⟨reviews, hreviews⟩ := hreviews
  obtain ⟨rest, rfl⟩ := hrounds
  cases reason with
  | budget =>
    simp only [holdsAt, History.costs, ← hgenerations, ← hreviews]
    rw [List.take_append_of_le_length (by omega), List.take_append_of_le_length hr, List.take_append_of_le_length hg]
  | accepted | blocked => simp only [holdsAt, List.getElem?_append_left (show i < rounds.length by omega)]
  | cancelled => simp only [holdsAt, hcancels]
  | halted =>
    simp only [holdsAt, ← hgenerations, List.getElem?_append_left (show i < h.generations.length by omega)]
  | noProgress => simp only [holdsAt, List.take_append_of_le_length hi]
  | roundLimit => rfl

/-- A generation bears on the budget only. -/
theorem holdsAt_generated (h : History) (crossfire : List ReviewerFeedback) (output : AgentOutput)
    (rounds : List RoundRecord) {i : Nat} (hi : i < h.generations.length) {reason : StopReason} (hreason : reason ≠ .budget) :
    S.holdsAt ((h.watched crossfire).refineCalled.generated true output) rounds i reason = S.holdsAt h rounds i reason := by
  cases reason with
  | budget => exact absurd rfl hreason
  | halted => simp only [holdsAt, History.generated, History.refineCalled, History.watched, List.getElem?_append_left hi]
  | _ => rfl

/-! ### The records -/

/-- What the state's records and figures are, in terms of the history. -/
structure Recorded (goal : Option GoalSpec) (h : History) (s : LoopState) : Prop where
  numbered : s.rounds.map (·.round) = List.range s.rounds.length
  generations : h.generations.map (·.refined) = false :: List.replicate h.refineCalls true
  leads : s.rounds.map (·.lead) = (h.generations.map (·.output)).take s.rounds.length
  reviews : s.rounds.map (fun r => (r.lead, r.reviewer)) = h.reviews
  checks : s.rounds.map (·.checkResult) =
    if goal.isSome then h.checks.map some else List.replicate s.rounds.length (some .skipped)
  patchShas : ∀ r ∈ s.rounds, r.patchSha = r.lead.proposedPatch.map S.canonicalHash
  current : h.generations[h.refineCalls]?.map (fun g => (g.output, g.crossfire)) = some (s.leadOutput, s.currentCrossfire)
  usage : s.usage = h.usage
  budget : s.budgetExceeded = exceedsBudget s.usage S.config.orchestration

/-- Nothing but the budget has been flagged. -/
def LoopState.Unflagged (s : LoopState) : Prop :=
  s.noProgressExceeded = false ∧ s.crossfireHalted = false ∧ s.cancelled = false

/-- Before round `k`, with its output there. Of the earlier rounds only the budget can hold, by that output. -/
structure AtRound (goal : Option GoalSpec) (h : History) (s : LoopState) (k : Nat) : Prop
    extends Recorded S goal h s where
  length : s.rounds.length = k
  refineCalls : h.refineCalls = k
  live : h.live = []
  cancels : h.cancels = List.replicate (if S.options.cancelToken then k else 0) false
  progress : S.progress s.rounds = ⟨s.noProgressCount, s.previousPatchSha, s.bestProgress⟩
  unflagged : LoopState.Unflagged s
  going : ∀ i < k, ∀ reason,
    S.holdsAt h s.rounds i reason = (reason == .budget && i + 1 == k && s.budgetExceeded)

/-- After the review and the check of round `k`. -/
structure AtSeam (goal : Option GoalSpec) (h : History) (s : LoopState) (k : Nat) (checkResult : CheckResult)
    (patchSha : Option String) : Prop extends Recorded S goal h s where
  length : s.rounds.length = k + 1
  refineCalls : h.refineCalls = k
  live : h.live = []
  cancels : h.cancels = List.replicate (if S.options.cancelToken then k else 0) false
  record : ∃ r, s.rounds[k]? = some r ∧ r.reviewer = s.finalFeedback ∧ r.checkResult = some checkResult ∧
    r.patchSha = patchSha
  progress : S.progress (s.rounds.take k) = ⟨s.noProgressCount, s.previousPatchSha, s.bestProgress⟩
  unflagged : LoopState.Unflagged s
  going : ∀ i < k, ∀ reason, S.holdsAt h s.rounds i reason = false

/-- The loop has ended. -/
structure Ended (goal : Option GoalSpec) (h : History) (s : LoopState) : Prop extends Recorded S goal h s where
  bounded : s.rounds.length ≤ S.maxRefinementRounds + 1
  reviewed : s.budgetExceeded = false → s.rounds.length = h.refineCalls + 1
  unreviewed : s.rounds = [] → s.budgetExceeded = true ∧ h.refineCalls = 0
  going : ∀ i, i + 1 < s.rounds.length → S.stopReason h s.rounds i = none
  stopped : ∀ i, s.rounds.length = i + 1 → ∃ reason, S.stopReason h s.rounds i = some reason ∧
    s.budgetExceeded = (reason == .budget) ∧ s.cancelled = (reason == .cancelled) ∧
      s.crossfireHalted = (reason == .halted) ∧ s.noProgressExceeded = (reason == .noProgress)

variable {S} {goal : Option GoalSpec} {h : History} {s : LoopState} {k : Nat}

theorem Recorded.length_generations (hs : S.Recorded goal h s) : h.generations.length = h.refineCalls + 1 := by
  have hlength := congrArg List.length hs.generations
  simpa using hlength

theorem Recorded.length_reviews (hs : S.Recorded goal h s) : h.reviews.length = s.rounds.length := by
  rw [← hs.reviews, List.length_map]

theorem stopReason_eq_none {rounds : List RoundRecord} {i : Nat} :
    S.stopReason h rounds i = none ↔ ∀ reason, S.holdsAt h rounds i reason = false := by
  rw [stopReason, List.find?_eq_none]
  constructor
  · intro hnone reason
    exact Bool.eq_false_iff.mpr (hnone reason (by cases reason <;> decide))
  · intro hfalse reason _
    rw [hfalse reason]
    exact Bool.false_ne_true

/-! ### From round to seam -/

theorem current_getElem? (hs : S.Recorded goal h s) :
    ∃ g, h.generations[h.refineCalls]? = some g ∧ g.output = s.leadOutput ∧ g.crossfire = s.currentCrossfire := by
  obtain ⟨g, hg, heq⟩ := Option.map_eq_some_iff.mp hs.current
  exact ⟨g, hg, congrArg Prod.fst heq, congrArg Prod.snd heq⟩

/-- The outputs of the generations are those of the records and the current one. -/
theorem AtRound.take_outputs (hs : S.AtRound goal h s k) :
    (h.generations.map (·.output)).take (k + 1) = s.rounds.map (·.lead) ++ [s.leadOutput] := by
  obtain ⟨g, hg, houtput, -⟩ := current_getElem? hs.toRecorded
  rw [List.take_add_one, hs.leads, hs.length, List.getElem?_map, ← hs.refineCalls, hg, Option.map_some, houtput]
  rfl

/-- The review and the check of a round. -/
theorem reviewRound_atSeam (hs : S.AtRound goal h s k) (hbudget : s.budgetExceeded = false) :
    (S.reviewRound goal k s).Ensures fun es r => S.AtSeam goal (h.after es) r.1 k r.2.1 r.2.2 := by
  unfold reviewRound
  refine (review_heard _ _ _ _).bind fun es₁ feedback h₁ => ?_
  refine (runGoalCheck_heard goal).bind fun es₂ outcome ⟨h₂, hskipped⟩ => ?_
  refine (recordRound_heard _).bind fun es₃ _ h₃ => ensures_pure ?_
  dsimp only
  rw [List.append_nil, History.after_append, History.after_append, h₁, h₂, h₃]
  set heard := (h.reviewed s.leadOutput feedback).checked (if goal.isSome then [outcome.result] else []) with hheard
  set record : RoundRecord := ⟨k, s.leadOutput, feedback, some outcome.result,
    s.leadOutput.proposedPatch.map S.canonicalHash, none⟩ with hrecord
  have hlast : (s.rounds ++ [record])[k]? = some record := by
    rw [← hs.length]
    exact List.getElem?_concat_length
  constructor
  · constructor
    · simp [hs.numbered, hs.length, hrecord, List.range_succ]
    · exact hs.generations
    · simp only [List.length_append, List.map_append, List.map_cons, List.map_nil, List.length_cons, List.length_nil, hs.length]
      exact hs.take_outputs.symm
    · simp only [List.map_append, hs.reviews, List.map_cons, List.map_nil]
      rfl
    · rw [List.map_append, hs.checks, List.length_append]
      cases hgoal : goal.isSome with
      | true => simp [hheard, hgoal, History.checked, History.reviewed, hrecord]
      | false => simp [hrecord, hskipped hgoal, List.replicate_add]
    · intro r hr
      rcases List.mem_append.mp hr with hr | hr
      · exact hs.patchShas r hr
      · rw [List.mem_singleton.mp hr]
    · exact hs.current
    · rw [hs.usage]
      exact (h.usage_reviewed s.leadOutput feedback).symm
    · rfl
  · simp [hs.length]
  · exact hs.refineCalls
  · exact hs.live
  · exact hs.cancels
  · exact ⟨record, hlast, rfl, rfl, rfl⟩
  · simp only [← hs.length, List.take_left']
    exact hs.progress
  · exact hs.unflagged
  · intro i hi reason
    have hgenerations : h.generations.length = k + 1 := hs.refineCalls ▸ hs.length_generations
    have hreviews : h.reviews.length = k := hs.length ▸ hs.length_reviews
    have hg : h.generations <+: heard.generations := ⟨[], List.append_nil _⟩
    have hr : h.reviews <+: heard.reviews := ⟨[(s.leadOutput, feedback)], rfl⟩
    have hc : heard.cancels[i]? = h.cancels[i]? := rfl
    have hrounds : s.rounds <+: s.rounds ++ [record] := ⟨[record], rfl⟩
    have hlength : i + 1 ≤ s.rounds.length := by rw [hs.length]; omega
    rw [S.holdsAt_stable hg (by omega) hr (by omega) hc hrounds hlength, hs.going i hi reason, hbudget, Bool.and_false]

/-! ### The seam -/

/-- `settleRound`, given what the cancel handle says if it is asked. -/
def settled (S : Setting) (s : LoopState) (checkResult : CheckResult) (patchSha : Option String) (cancelled : Bool) :
    Bool × LoopState :=
  if s.budgetExceeded then (true, { s with finalFeedback := budgetExceededFeedback S.reviewer s.usage })
  else if S.terminal s.finalFeedback.verdict checkResult then (true, s)
  else if cancelled then (true, { s with cancelled := true, finalFeedback := cancelledFeedback S.reviewer })
  else if s.finalFeedback.verdict == .block then (true, s)
  else if S.config.orchestration.crossfireAction.halts && mostSevereCrossfire s.currentCrossfire == some .block then
    (true, { s with crossfireHalted := true })
  else S.guardProgress s checkResult patchSha

/-- The reasons at the seam of a round, from the state there. -/
def seam (S : Setting) (s : LoopState) (checkResult : CheckResult) (patchSha : Option String) (cancelled lastRound : Bool) :
    StopReason → Bool
  | .budget => s.budgetExceeded
  | .accepted => S.terminal s.finalFeedback.verdict checkResult
  | .cancelled => cancelled
  | .blocked => s.finalFeedback.verdict == .block
  | .halted => S.config.orchestration.crossfireAction.halts && mostSevereCrossfire s.currentCrossfire == some .block
  | .noProgress => (S.guardProgress s checkResult patchSha).1
  | .roundLimit => lastRound

variable {checkResult : CheckResult} {patchSha : Option String}

/-- The cancel handle is asked at most once, and only if there is one. -/
theorem settleRound_heard : (S.settleRound s checkResult patchSha).Ensures fun es r => ∃ answers : List Bool,
    (answers = [] ∨ S.options.cancelToken = true ∧ ∃ answer, answers = [answer]) ∧
      (∀ h : History, h.after es = h.cancelAsked answers) ∧
      r = S.settled s checkResult patchSha (answers == [true]) ∧
      (r.1 = false → answers = List.replicate (if S.options.cancelToken then 1 else 0) false) := by
  have hunasked (h : History) : h.after [] = h.cancelAsked [] := by simp [History.cancelAsked]
  unfold settleRound settled
  split
  · exact ensures_pure ⟨[], Or.inl rfl, hunasked, rfl, fun h => by cases h⟩
  split
  · exact ensures_pure ⟨[], Or.inl rfl, hunasked, rfl, fun h => by cases h⟩
  refine S.options.isCancelled_heard.bind fun es₁ answer hasked => ?_
  obtain ⟨h₁, huncancelled⟩ := hasked
  set answers := (if S.options.cancelToken then [answer] else []) with hanswers
  have hform : answers = [] ∨ S.options.cancelToken = true ∧ ∃ answer, answers = [answer] := by
    rcases htoken : S.options.cancelToken with _ | _
    · exact Or.inl (by simp [hanswers, htoken])
    · exact Or.inr ⟨rfl, answer, by simp [hanswers, htoken]⟩
  have hanswer : (answers == [true]) = answer := by
    rcases htoken : S.options.cancelToken with _ | _
    · simp [hanswers, htoken, huncancelled htoken]
    · cases answer <;> simp [hanswers, htoken]
  have hheard (h : History) : h.after (es₁ ++ []) = h.cancelAsked answers := by rw [List.append_nil, h₁]
  rcases answer with _ | _
  · have hfalse : answers = List.replicate (if S.options.cancelToken then 1 else 0) false := by
      rcases htoken : S.options.cancelToken with _ | _ <;> simp [hanswers, htoken]
    rw [if_neg Bool.false_ne_true]
    split
    · exact ensures_pure ⟨answers, hform, hheard, by simp [hanswer], fun _ => hfalse⟩
    split
    · exact ensures_pure ⟨answers, hform, hheard, by simp [hanswer], fun _ => hfalse⟩
    · exact ensures_pure ⟨answers, hform, hheard, by simp [hanswer], fun _ => hfalse⟩
  · exact ensures_pure ⟨answers, hform, hheard, by simp [hanswer], fun h => by cases h⟩

/-- The guard, in terms of what it keeps of the rounds. -/
theorem guardProgress_eq {r : RoundRecord} {p : Progress} (hp : p = ⟨s.noProgressCount, s.previousPatchSha, s.bestProgress⟩)
    (hreviewer : r.reviewer = s.finalFeedback) (hcheck : r.checkResult = some checkResult)
    (hsha : r.patchSha = patchSha) :
    S.guardProgress s checkResult patchSha =
      if S.noProgressMax > 0 && (S.progressed p r).count ≥ S.noProgressMax then
        (true, { s with
          noProgressCount := (S.progressed p r).count
          noProgressExceeded := true
          finalFeedback := noProgressFeedback S.reviewer (S.progressed p r).count })
      else
        (false, { s with
          noProgressCount := (S.progressed p r).count
          previousPatchSha := (S.progressed p r).previousPatchSha
          bestProgress := (S.progressed p r).best }) := by
  subst hp
  have hstalls : S.stalls ⟨s.noProgressCount, s.previousPatchSha, s.bestProgress⟩ r =
      (S.noProgressMax > 0 && (s.finalFeedback.verdict == .requestChanges || s.finalFeedback.verdict == .acceptWithNits) &&
        roundIsStalled s.previousPatchSha patchSha s.bestProgress (checkResultProgress checkResult)) := by
    rw [stalls, hreviewer, hsha, hcheck]
    rfl
  rw [guardProgress, ← hstalls]
  simp only [progressed, hcheck, hsha, Option.bind_some]
  -- both take the better of the two progresses
  generalize checkResultProgress checkResult = progress
  rcases hs : S.stalls ⟨s.noProgressCount, s.previousPatchSha, s.bestProgress⟩ r with _ | _
  · have hnot : (decide (S.noProgressMax > 0) && decide (0 ≥ S.noProgressMax)) = false := by
      simp only [Bool.and_eq_false_iff, decide_eq_false_iff_not]
      omega
    cases progress <;> simp only [Bool.false_eq_true, if_false, hnot]
  · have hmax : S.noProgressMax > 0 := by
      rw [stalls, Bool.and_eq_true, Bool.and_eq_true, decide_eq_true_iff] at hs
      exact hs.1.1
    cases progress <;> simp only [hmax, decide_true, Bool.true_and, if_true, decide_eq_true_iff]

variable {answers : List Bool}

/-- What the history and the records say of the reasons is what the seam decides by. -/
theorem AtSeam.holdsAt (hs : S.AtSeam goal h s k checkResult patchSha)
    (hanswers : answers = [] ∨ S.options.cancelToken = true ∧ ∃ answer, answers = [answer]) (reason : StopReason) :
    S.holdsAt (h.cancelAsked answers) s.rounds k reason =
      S.seam s checkResult patchSha (answers == [true]) (k == S.maxRefinementRounds) reason := by
  obtain ⟨r, hr, hreviewer, hcheck, hsha⟩ := hs.record
  have hgenerations : h.generations.length = k + 1 := hs.refineCalls ▸ hs.length_generations
  have hreviews : h.reviews.length = k + 1 := hs.length ▸ hs.length_reviews
  cases reason with
  | budget =>
    have hall (n : Nat) (hn : k + 1 ≤ n) : (h.cancelAsked answers).costs n (k + 1) =
        h.costs h.generations.length h.reviews.length := by
      simp only [History.costs, History.cancelAsked, List.take_length]
      rw [List.take_of_length_le (by omega), List.take_of_length_le (by omega)]
    simp only [Setting.holdsAt, seam, hall _ (show k + 1 ≤ k + 1 by omega), hall _ (show k + 1 ≤ k + 2 by omega),
      Bool.or_self, hs.budget, hs.usage]
    rfl
  | accepted => simp [Setting.holdsAt, seam, hr, hreviewer, hcheck]
  | cancelled =>
    simp only [Setting.holdsAt, seam, History.cancelAsked, hs.cancels]
    rcases hanswers with rfl | ⟨htoken, answer, rfl⟩
    · rw [List.append_nil, List.getElem?_replicate]
      split_ifs <;> rfl
    · have hlast : (List.replicate k false ++ [answer])[k]? = some answer := by simp
      rw [htoken, if_pos rfl, hlast]
      cases answer <;> rfl
  | blocked => simp [Setting.holdsAt, seam, hr, hreviewer]
  | halted =>
    obtain ⟨g, hg, -, hcrossfire⟩ := current_getElem? hs.toRecorded
    rw [hs.refineCalls] at hg
    simp [Setting.holdsAt, seam, History.cancelAsked, hg, hcrossfire]
  | noProgress =>
    have hnow : S.progress (s.rounds.take (k + 1)) = S.progressed (S.progress (s.rounds.take k)) r := by
      simp only [Setting.progress, List.take_add_one, hr, List.foldl_append]
      rfl
    simp only [Setting.holdsAt, seam, hnow, guardProgress_eq hs.progress hreviewer hcheck hsha]
    split_ifs with hmax
    · exact hmax
    · exact Bool.eq_false_iff.mpr hmax
  | roundLimit => rfl

/-- The flags are those of the reason. -/
def FlaggedFor (s : LoopState) (reason : StopReason) : Prop :=
  s.budgetExceeded = (reason == .budget) ∧ s.cancelled = (reason == .cancelled) ∧
    s.crossfireHalted = (reason == .halted) ∧ s.noProgressExceeded = (reason == .noProgress)

theorem flaggedFor_guardProgress (hbudget : s.budgetExceeded = false) (hunflagged : LoopState.Unflagged s)
    (hstop : (S.guardProgress s checkResult patchSha).1 = true) :
    FlaggedFor (S.guardProgress s checkResult patchSha).2 .noProgress := by
  obtain ⟨hnoProgress, hhalted, hcancelled⟩ := hunflagged
  dsimp only [guardProgress] at hstop ⊢
  split_ifs at hstop ⊢
  exact ⟨hbudget, hcancelled, hhalted, rfl⟩

/-- A round that stops does so for its first reason, and says which. -/
theorem settled_stops {cancelled : Bool} (lastRound : Bool) (hunflagged : LoopState.Unflagged s)
    (hstop : (S.settled s checkResult patchSha cancelled).1 = true) :
    ∃ reason, StopReason.inOrder.find? (S.seam s checkResult patchSha cancelled lastRound) = some reason ∧
      FlaggedFor (S.settled s checkResult patchSha cancelled).2 reason := by
  obtain ⟨hnoProgress, hhalted, hcancelled⟩ := hunflagged
  unfold settled at hstop ⊢
  split at hstop
  · exact ⟨.budget, by simp [StopReason.inOrder, seam, *], by simp [FlaggedFor, *]⟩
  split at hstop
  · exact ⟨.accepted, by simp [StopReason.inOrder, seam, *], by simp [FlaggedFor, *]⟩
  split at hstop
  · exact ⟨.cancelled, by simp [StopReason.inOrder, seam, *], by simp [FlaggedFor, *]⟩
  split at hstop
  · exact ⟨.blocked, by simp [StopReason.inOrder, seam, *], by simp [FlaggedFor, *]⟩
  split at hstop
  · exact ⟨.halted, by simp [StopReason.inOrder, seam, *], by simp [FlaggedFor, *]⟩
  · refine ⟨.noProgress, by simp [StopReason.inOrder, seam, *], ?_⟩
    simp only [*]
    exact flaggedFor_guardProgress (by simp [*]) ⟨hnoProgress, hhalted, hcancelled⟩ hstop

/-- A round that goes on has no reason to stop, and is left by the no-progress guard. -/
theorem settled_goes_on {cancelled : Bool} (hgo : (S.settled s checkResult patchSha cancelled).1 = false) :
    (∀ reason ≠ .roundLimit, S.seam s checkResult patchSha cancelled false reason = false) ∧
      cancelled = false ∧
      S.settled s checkResult patchSha cancelled = S.guardProgress s checkResult patchSha := by
  unfold settled at hgo ⊢
  split_ifs at hgo ⊢
  refine ⟨fun reason hreason => ?_, by simp [*], rfl⟩
  cases reason <;> simp_all [seam]

/-- Settling a round leaves the records and the figures alone. -/
def SameRecords (s s' : LoopState) : Prop :=
  s'.rounds = s.rounds ∧ s'.leadOutput = s.leadOutput ∧ s'.currentCrossfire = s.currentCrossfire ∧
    s'.usage = s.usage ∧ s'.budgetExceeded = s.budgetExceeded

theorem settled_sameRecords (cancelled : Bool) :
    SameRecords s (S.settled s checkResult patchSha cancelled).2 := by
  have hguard : SameRecords s (S.guardProgress s checkResult patchSha).2 := by
    dsimp only [guardProgress]
    split_ifs <;> exact ⟨rfl, rfl, rfl, rfl, rfl⟩
  unfold settled
  split_ifs
  · exact ⟨rfl, rfl, rfl, rfl, rfl⟩
  · exact ⟨rfl, rfl, rfl, rfl, rfl⟩
  · exact ⟨rfl, rfl, rfl, rfl, rfl⟩
  · exact ⟨rfl, rfl, rfl, rfl, rfl⟩
  · exact ⟨rfl, rfl, rfl, rfl, rfl⟩
  · exact hguard

/-- The operator's answers and what is not in the records do not matter to the records. -/
theorem Recorded.settle {s' : LoopState} (hs : S.Recorded goal h s) (hsame : SameRecords s s') (answers : List Bool) :
    S.Recorded goal (h.cancelAsked answers) s' := by
  obtain ⟨hrounds, hlead, hcrossfire, husage, hbudget⟩ := hsame
  constructor
  · rw [hrounds]; exact hs.numbered
  · exact hs.generations
  · rw [hrounds]; exact hs.leads
  · rw [hrounds]; exact hs.reviews
  · rw [hrounds]; exact hs.checks
  · rw [hrounds]; exact hs.patchShas
  · rw [hlead, hcrossfire]; exact hs.current
  · rw [husage]; exact hs.usage
  · rw [husage, hbudget]; exact hs.budget

/-! ### From seam to the end or the next round -/

theorem unflagged_guardProgress (hunflagged : LoopState.Unflagged s)
    (hgo : (S.guardProgress s checkResult patchSha).1 = false) :
    LoopState.Unflagged (S.guardProgress s checkResult patchSha).2 := by
  dsimp only [guardProgress] at hgo ⊢
  split_ifs at hgo ⊢ <;> exact hunflagged

/-- No reason held of an earlier round, whatever the operator says now. -/
theorem AtSeam.none_before (hs : S.AtSeam goal h s k checkResult patchSha)
    (hanswers : answers = [] ∨ S.options.cancelToken = true ∧ ∃ answer, answers = [answer]) :
    ∀ i < k, ∀ reason, S.holdsAt (h.cancelAsked answers) s.rounds i reason = false := by
  intro i hi reason
  have hgenerations : h.generations.length = k + 1 := hs.refineCalls ▸ hs.length_generations
  have hreviews : h.reviews.length = k + 1 := hs.length ▸ hs.length_reviews
  have hlength : i + 1 ≤ s.rounds.length := by rw [hs.length]; omega
  have hcancels : (h.cancelAsked answers).cancels[i]? = h.cancels[i]? := by
    rcases hanswers with rfl | ⟨htoken, -⟩
    · rw [History.cancelAsked, List.append_nil]
    · refine List.getElem?_append_left ?_
      rw [hs.cancels, htoken, if_pos rfl, List.length_replicate]
      exact hi
  have hg : h.generations <+: (h.cancelAsked answers).generations := List.prefix_refl h.generations
  have hr : h.reviews <+: (h.cancelAsked answers).reviews := List.prefix_refl h.reviews
  rw [S.holdsAt_stable hg (by omega) hr (by omega) hcancels (List.prefix_refl _) hlength, hs.going i hi reason]

/-- A guard that does not stop the loop keeps up with the records. -/
theorem AtSeam.progress_guardProgress (hs : S.AtSeam goal h s k checkResult patchSha)
    (hgo : (S.guardProgress s checkResult patchSha).1 = false) :
    let s' := (S.guardProgress s checkResult patchSha).2
    S.progress s.rounds = ⟨s'.noProgressCount, s'.previousPatchSha, s'.bestProgress⟩ := by
  obtain ⟨r, hr, hreviewer, hcheck, hsha⟩ := hs.record
  have hrounds : s.rounds = s.rounds.take k ++ [r] := by
    have hall : s.rounds.take (k + 1) = s.rounds := List.take_of_length_le hs.length.le
    rw [List.take_add_one, hr] at hall
    exact hall.symm
  have hprogress : S.progress s.rounds = S.progressed (S.progress (s.rounds.take k)) r := by
    conv_lhs => rw [hrounds, Setting.progress, List.foldl_append]
    rfl
  rw [guardProgress_eq hs.progress hreviewer hcheck hsha] at hgo ⊢
  split_ifs at hgo ⊢
  exact hprogress

/-- A refinement adds an output that is not in the records yet. -/
theorem Recorded.generate (hs : S.Recorded goal h s) (hlive : h.live = []) (hlength : s.rounds.length = h.refineCalls + 1)
    (output : AgentOutput) (crossfire : List ReviewerFeedback) :
    S.Recorded goal ((h.watched crossfire).refineCalled.generated true output) (S.generated s output crossfire) := by
  have hgenerations := hs.length_generations
  constructor
  · exact hs.numbered
  · simp only [History.generated, History.refineCalled, History.watched, List.map_append, hs.generations, List.map_cons,
      List.map_nil, List.cons_append, List.replicate_succ']
  · simp only [Setting.generated, History.generated, History.refineCalled, History.watched, List.map_append]
    rw [List.take_append_of_le_length (by rw [List.length_map]; omega)]
    exact hs.leads
  · exact hs.reviews
  · exact hs.checks
  · exact hs.patchShas
  · simp only [Setting.generated, History.generated, History.refineCalled, History.watched]
    rw [← hgenerations, List.getElem?_concat_length, hlive]
    rfl
  · rw [History.usage_generated]
    simp only [Setting.generated, hs.usage]
    rfl
  · rfl

section Settle

variable (hs : S.AtSeam goal h s k checkResult patchSha)
  (hanswers : answers = [] ∨ S.options.cancelToken = true ∧ ∃ answer, answers = [answer])
include hs hanswers

/-- The loop ends at the seam, for a reason that the state is flagged for. -/
theorem AtSeam.ended {reason : StopReason} (hk : k ≤ S.maxRefinementRounds)
    (hreason : StopReason.inOrder.find? (S.seam s checkResult patchSha (answers == [true]) (k == S.maxRefinementRounds)) =
      some reason)
    (hflagged : FlaggedFor (S.settled s checkResult patchSha (answers == [true])).2 reason) :
    S.Ended goal (h.cancelAsked answers) (S.settled s checkResult patchSha (answers == [true])).2 := by
  have hsame : SameRecords s (S.settled s checkResult patchSha (answers == [true])).2 := settled_sameRecords _
  have hrounds := hsame.1
  have hlength := hs.length
  refine ⟨hs.toRecorded.settle hsame answers, ?_, ?_, ?_, ?_, ?_⟩ <;> rw [hrounds]
  · omega
  · intro _
    rw [hs.length]
    exact congrArg (· + 1) hs.refineCalls.symm
  · intro hnil
    rw [hnil] at hlength
    cases hlength
  · intro i hi
    exact stopReason_eq_none.mpr (hs.none_before hanswers i (by omega))
  · intro i hi
    obtain rfl : i = k := by omega
    exact ⟨reason, by rw [stopReason, funext (hs.holdsAt hanswers), hreason], hflagged⟩

theorem AtSeam.ended_of_stop (hk : k ≤ S.maxRefinementRounds)
    (hstop : (S.settled s checkResult patchSha (answers == [true])).1 = true) :
    S.Ended goal (h.cancelAsked answers) (S.settled s checkResult patchSha (answers == [true])).2 := by
  obtain ⟨reason, hreason, hflagged⟩ := settled_stops (k == S.maxRefinementRounds) hs.unflagged hstop
  exact hs.ended hanswers hk hreason hflagged

/-- The last round that may be refined is not. -/
theorem AtSeam.ended_of_last (hk : k = S.maxRefinementRounds)
    (hgo : (S.settled s checkResult patchSha (answers == [true])).1 = false) :
    S.Ended goal (h.cancelAsked answers) (S.settled s checkResult patchSha (answers == [true])).2 := by
  obtain ⟨hseam, -, hguard⟩ := settled_goes_on hgo
  have hflagged : FlaggedFor (S.settled s checkResult patchSha (answers == [true])).2 .roundLimit := by
    obtain ⟨hnoProgress, hhalted, hcancelled⟩ := unflagged_guardProgress hs.unflagged (hguard ▸ hgo)
    rw [hguard]
    exact ⟨hguard ▸ (settled_sameRecords _).2.2.2.2.trans (hseam .budget (by decide)), hcancelled, hhalted, hnoProgress⟩
  refine hs.ended hanswers hk.le ?_ hflagged
  have hlast (reason : StopReason) : S.seam s checkResult patchSha (answers == [true]) (k == S.maxRefinementRounds)
      reason = (reason == .roundLimit) := by
    cases reason with
    | roundLimit => simp [seam, hk]
    | budget => exact hseam .budget (by decide)
    | accepted => exact hseam .accepted (by decide)
    | cancelled => exact hseam .cancelled (by decide)
    | blocked => exact hseam .blocked (by decide)
    | halted => exact hseam .halted (by decide)
    | noProgress => exact hseam .noProgress (by decide)
  rw [funext hlast]
  rfl

/-- A refinement leads to the next round. -/
theorem AtSeam.next (hgo : (S.settled s checkResult patchSha (answers == [true])).1 = false)
    (huncancelled : answers = List.replicate (if S.options.cancelToken then 1 else 0) false)
    (hk : k < S.maxRefinementRounds) (output : AgentOutput) (crossfire : List ReviewerFeedback) :
    S.AtRound goal (((h.cancelAsked answers).watched crossfire).refineCalled.generated true output)
      (S.generated (S.settled s checkResult patchSha (answers == [true])).2 output crossfire) (k + 1) := by
  obtain ⟨hseam, -, hguard⟩ := settled_goes_on hgo
  have hsame : SameRecords s (S.settled s checkResult patchSha (answers == [true])).2 := settled_sameRecords _
  have hrecorded := (hs.toRecorded.settle hsame answers).generate hs.live
    (hsame.1 ▸ hs.length.trans (congrArg (· + 1) hs.refineCalls.symm)) output crossfire
  have hguarded := hs.progress_guardProgress (hguard ▸ hgo)
  have hunflagged := unflagged_guardProgress hs.unflagged (hguard ▸ hgo)
  rw [hguard] at hrecorded hsame ⊢
  constructor
  · exact hrecorded
  · exact (congrArg List.length hsame.1).trans hs.length
  · exact congrArg (· + 1) hs.refineCalls
  · rfl
  · change h.cancels ++ answers = _
    rw [hs.cancels, huncancelled, ← List.replicate_add]
    split_ifs <;> rfl
  · exact (congrArg S.progress hsame.1).trans hguarded
  · exact hunflagged
  · intro i hi reason
    have hrounds : (S.generated (S.guardProgress s checkResult patchSha).2 output crossfire).rounds = s.rounds := hsame.1
    have hgenerations : h.generations.length = k + 1 := hs.refineCalls ▸ hs.length_generations
    have hreviews : h.reviews.length = k + 1 := hs.length ▸ hs.length_reviews
    have hlength := hs.length
    rw [hrounds]
    set heard := h.cancelAsked answers with hheard
    set refined := (heard.watched crossfire).refineCalled.generated true output with hrefined
    have hg : heard.generations <+: refined.generations := ⟨[⟨true, output, h.live ++ crossfire⟩], rfl⟩
    have hr : heard.reviews <+: refined.reviews := ⟨[], List.append_nil _⟩
    have hg' : heard.generations.length = k + 1 := hgenerations
    have hr' : heard.reviews.length = k + 1 := hreviews
    rcases Nat.lt_succ_iff_lt_or_eq.mp hi with hi | rfl
    · have hi' : (i + 1 == k + 1) = false := by simp; omega
      have hc : refined.cancels[i]? = heard.cancels[i]? := rfl
      rw [S.holdsAt_stable hg (by omega) hr (by omega) hc (List.prefix_refl _) (by omega) reason,
        hs.none_before hanswers i hi reason, hi', Bool.and_false, Bool.false_and]
    · have hlast : (i == S.maxRefinementRounds) = false := by simp; omega
      have hfalse (reason : StopReason) : S.holdsAt heard s.rounds i reason = false := by
        rw [hs.holdsAt hanswers, hlast]
        cases reason with
        | roundLimit => rfl
        | _ => exact hseam _ (by decide)
      by_cases hreason : reason = .budget
      · have hbefore := hfalse .budget
        have hcosts : refined.costs (i + 1) (i + 1) = heard.costs (i + 1) (i + 1) := by
          obtain ⟨generations, hg⟩ := hg
          rw [History.costs, ← hg, List.take_append_of_le_length hg'.ge]
          rfl
        have hall : UsageStats.total (refined.costs (i + 2) (i + 1)) = refined.usage := by
          have hreviewed : refined.reviews.length = i + 1 := hreviews
          have hgenerated : refined.generations.length = i + 2 :=
            hrecorded.length_generations.trans (congrArg (· + 2) hs.refineCalls)
          rw [History.usage, hgenerated, hreviewed]
        rw [Setting.holdsAt, Bool.or_eq_false_iff] at hbefore
        rw [hreason, Setting.holdsAt, hcosts, hbefore.1, Bool.false_or, hall, ← hrecorded.usage, ← hrecorded.budget]
        simp
      · rw [S.holdsAt_generated _ _ _ _ (hg' ▸ Nat.lt_succ_self i) hreason, hfalse, beq_eq_false_iff_ne.mpr hreason]
        rfl

end Settle

/-! ### The loop -/

theorem refineRound_heard : (S.refineRound s).Ensures fun es s' => ∃ output crossfire,
    s' = S.generated s output crossfire ∧
      ∀ h : History, h.after es = (h.watched crossfire).refineCalled.generated true output := by
  unfold refineRound
  refine Ensures.bind (Ensures.mapError (collectOutputWithCrossfire_heard (ask_refine_heard _ _ _) _ _))
    fun es ⟨output, crossfire⟩ hheard => ?_
  exact ensures_pure ⟨output, crossfire, rfl, fun h => by rw [List.append_nil, hheard]⟩

/-- An output that exceeds the budget is not reviewed. -/
theorem AtRound.ended (hs : S.AtRound goal h s k) (hk : k ≤ S.maxRefinementRounds) (hbudget : s.budgetExceeded = true) :
    S.Ended goal h s := by
  obtain ⟨hnoProgress, hhalted, hcancelled⟩ := hs.unflagged
  have hlength := hs.length
  refine ⟨hs.toRecorded, by omega, fun h => by simp [hbudget] at h, fun hnil => ⟨hbudget, ?_⟩, fun i hi => ?_, fun i hi => ?_⟩
  · rw [hs.refineCalls, ← hlength, hnil]
    rfl
  · refine stopReason_eq_none.mpr fun reason => ?_
    have hi' : (i + 1 == k) = false := by simp; omega
    rw [hs.going i (by omega), hi', Bool.and_false, Bool.false_and]
  · have hi' : (i + 1 == k) = true := by simp; omega
    have hholds (reason : StopReason) : S.holdsAt h s.rounds i reason = (reason == .budget) := by
      rw [hs.going i (by omega), hi', hbudget, Bool.and_true, Bool.and_true]
    exact ⟨.budget, by rw [stopReason, funext hholds]; rfl, hbudget, hcancelled, hhalted, hnoProgress⟩

/-- However the rounds go, they end before a round that is over the budget, or at the seam of one that
stops or is the last. -/
theorem refinementLoop_ends {P : History → LoopState → Prop}
    (hover : ∀ {h s k}, S.AtRound goal h s k → k ≤ S.maxRefinementRounds → s.budgetExceeded = true → P h s)
    (hend : ∀ {h s k checkResult patchSha} {answers : List Bool}, S.AtSeam goal h s k checkResult patchSha →
      (answers = [] ∨ S.options.cancelToken = true ∧ ∃ answer, answers = [answer]) → k ≤ S.maxRefinementRounds →
      ((S.settled s checkResult patchSha (answers == [true])).1 = false → k = S.maxRefinementRounds) →
      P (h.cancelAsked answers) (S.settled s checkResult patchSha (answers == [true])).2)
    (refinements : Nat) (hs : S.AtRound goal h s k) (hk : k + refinements = S.maxRefinementRounds) :
    (S.refinementLoop goal refinements k s).Ensures fun es s' => P (h.after es) s' := by
  induction refinements generalizing k s h with
  | zero =>
    rw [refinementLoop]
    split_ifs with hbudget
    · exact ensures_pure (hover hs (by omega) hbudget)
    refine (reviewRound_atSeam hs (by simpa using hbudget)).bind fun es₁ r hseam => ?_
    obtain ⟨s₁, checkResult, patchSha⟩ := r
    refine settleRound_heard.bind fun es₂ r hheard => ?_
    obtain ⟨stop, s₂⟩ := r
    obtain ⟨answers, hanswers, h₂, hsettled, huncancelled⟩ := hheard
    have hs₂ : s₂ = (S.settled s₁ checkResult patchSha (answers == [true])).2 := congrArg Prod.snd hsettled
    rcases stop with _ | _ <;> refine ensures_pure ?_ <;> rw [List.append_nil, History.after_append, h₂, hs₂]
    · exact hend hseam hanswers (by omega) fun _ => by omega
    · exact hend hseam hanswers (by omega) fun _ => by omega
  | succ refinements ih =>
    rw [refinementLoop]
    split_ifs with hbudget
    · exact ensures_pure (hover hs (by omega) hbudget)
    refine (reviewRound_atSeam hs (by simpa using hbudget)).bind fun es₁ r hseam => ?_
    obtain ⟨s₁, checkResult, patchSha⟩ := r
    refine settleRound_heard.bind fun es₂ r hheard => ?_
    obtain ⟨stop, s₂⟩ := r
    obtain ⟨answers, hanswers, h₂, hsettled, huncancelled⟩ := hheard
    have hstop : (S.settled s₁ checkResult patchSha (answers == [true])).1 = stop := congrArg Prod.fst hsettled.symm
    have hs₂ : s₂ = (S.settled s₁ checkResult patchSha (answers == [true])).2 := congrArg Prod.snd hsettled
    rcases stop with _ | _
    · refine refineRound_heard.bind fun es₃ s₃ hrefined => ?_
      obtain ⟨output, crossfire, hs₃, h₃⟩ := hrefined
      have hnext := hseam.next hanswers hstop (huncancelled rfl) (by omega) output crossfire
      rw [hs₂] at hs₃
      rw [← hs₃] at hnext
      refine (ih hnext (by omega)).mono fun es₄ s' hs' => ?_
      simpa only [History.after_append, h₂, h₃] using hs'
    · refine ensures_pure ?_
      rw [List.append_nil, History.after_append, h₂, hs₂]
      exact hend hseam hanswers (by omega) fun hgo => by rw [hstop] at hgo; cases hgo

/-- **However the rounds go**, they end with the trace they should have. -/
theorem refinementLoop_ended (refinements : Nat) (hs : S.AtRound goal h s k)
    (hk : k + refinements = S.maxRefinementRounds) :
    (S.refinementLoop goal refinements k s).Ensures fun es s' => S.Ended goal (h.after es) s' := by
  refine refinementLoop_ends (fun hs hk hbudget => hs.ended hk hbudget)
    (fun {h s k checkResult patchSha answers} hs hanswers hk hlast => ?_) refinements hs hk
  rcases hstop : (S.settled s checkResult patchSha (answers == [true])).1 with _ | _
  · exact hs.ended_of_last hanswers (hlast hstop) hstop
  · exact hs.ended_of_stop hanswers hk hstop

/-- Before the first round. -/
theorem atRound_initial (goal : Option GoalSpec) (output : AgentOutput) (crossfire : List ReviewerFeedback) :
    S.AtRound goal ((History.empty.watched crossfire).generated false output)
      (S.generated (S.initial output) output crossfire) 0 := by
  refine ⟨⟨rfl, rfl, rfl, rfl, ?_, fun r hr => absurd hr List.not_mem_nil, ?_, ?_, rfl⟩, rfl, rfl, rfl, ?_, rfl, ⟨rfl, rfl, rfl⟩,
    fun i hi => by omega⟩
  · cases goal <;> rfl
  · rfl
  · rw [History.usage_generated]
    rfl
  · change [] = _
    split_ifs <;> rfl

/-- The run as the loop leaves it. -/
def LoopState.finished (s : LoopState) : Finished where
  rounds := s.rounds
  crossfireFeedback := s.crossfireFeedback
  finalOutput := s.leadOutput
  finalFeedback := s.finalFeedback
  usage := s.usage
  budgetExceeded := s.budgetExceeded
  noProgressExceeded := s.noProgressExceeded
  crossfireHalted := s.crossfireHalted
  cancelled := s.cancelled
  lastCheck := s.lastCheck
  ranUnconfined := s.ranUnconfined

/-- The last output, if all have been reviewed, is that of the last record. -/
theorem Ended.getLast?_lead (hs : S.Ended goal h s) (hlength : s.rounds.length = h.refineCalls + 1) :
    s.rounds.getLast?.map (·.lead) = some s.leadOutput := by
  obtain ⟨g, hg, houtput, -⟩ := current_getElem? hs.toRecorded
  have hall : s.rounds.map (·.lead) = h.generations.map (·.output) := by
    rw [hs.leads, List.take_of_length_le]
    rw [List.length_map, hs.length_generations, hlength]
  rw [← List.getLast?_map, hall, List.getLast?_map, List.getLast?_eq_getElem?, hs.length_generations,
    Nat.add_sub_cancel, hg, Option.map_some, houtput]

theorem Ended.loopTrace {report : RunReport} (hs : S.Ended S.options.goal h s)
    (hreport : Reports S.selection S.options (LoopState.finished s) report) : LoopTrace S h report := by
  have hrounds : report.rounds = s.rounds := hreport.rounds
  have hbudget : report.budgetExceeded = s.budgetExceeded := hreport.budgetExceeded
  refine ⟨?_, ?_, hs.generations, ?_, ?_, ?_, ?_, ?_, ?_, ?_, ?_⟩ <;> rw [hrounds]
  · exact hs.numbered
  · exact hs.bounded
  · exact hs.leads
  · exact hs.reviews
  · rw [hreport.goalSatisfied]
    exact hs.checks
  · exact hs.patchShas
  · intro hnot
    have hlength := hs.reviewed (hbudget ▸ hnot)
    refine ⟨by omega, ?_, by omega⟩
    rw [hreport.finalOutput]
    exact hs.getLast?_lead hlength
  · intro hnil
    obtain ⟨hexceeded, hrefineCalls⟩ := hs.unreviewed hnil
    have hgenerations : h.generations.length = 1 := hs.length_generations.trans (by rw [hrefineCalls])
    have hreviews : h.reviews.length = 0 := hs.length_reviews.trans (by rw [hnil]; rfl)
    have husage : h.usage = UsageStats.total (h.costs 1 0) := by rw [History.usage, hgenerations, hreviews]
    exact ⟨hbudget.trans hexceeded, by rw [← husage, ← hs.usage, ← hs.budget, hexceeded]⟩
  · exact hs.going
  · intro i hi
    obtain ⟨reason, hreason, hexceeded, hcancelled, hhalted, hnoProgress⟩ := hs.stopped i hi
    exact ⟨reason, hreason, hbudget.trans hexceeded, hreport.cancelled.trans hcancelled,
      hreport.crossfireHalted.trans hhalted, hreport.noProgressExceeded.trans hnoProgress⟩

/-- What a run of the rounds hears, and what it reports of the state it ends in. -/
theorem runConsensus_ends {P : History → LoopState → Prop} (task : Task)
    (hloop : ∀ {h s}, S.AtRound S.options.goal h s 0 →
      (S.refinementLoop S.options.goal S.maxRefinementRounds 0 s).Ensures fun es s' => P (h.after es) s') :
    (S.runConsensus task).Ensures fun es report =>
      ∃ s, P (history es) s ∧ Reports S.selection S.options (LoopState.finished s) report := by
  unfold runConsensus
  refine Ensures.bind (Ensures.mapError (collectOutputWithCrossfire_heard (ask_implement_heard S.lead) _ _))
    fun es₁ ⟨output, crossfire⟩ h₁ => ?_
  refine (((buildGoalEvaluator_inStage _).unheard (Or.inl rfl)).and (buildGoalEvaluator_ensures _)).bind
    fun es₂ goal ⟨h₂, hgoal⟩ => ?_
  subst hgoal
  refine (hloop (atRound_initial _ output crossfire)).bind fun es₃ s hs => ?_
  refine ((selectFinalPatch_inStage _ _ _ _).unheard (Or.inr (Or.inl rfl))).bind fun es₄ finalPatch h₄ => ?_
  refine (((conclude_inStage _ _ _ _ _ _ _).unheard (Or.inr (Or.inr rfl))).and (conclude_reports _ _ _ _ _ _ _)).mono
    fun es₅ report ⟨h₅, hreport⟩ => ⟨s, ?_, hreport⟩
  simpa only [history, History.after_append, h₁, h₂, h₄, h₅] using hs

theorem runConsensus_heard (task : Task) : (S.runConsensus task).Ensures fun es report =>
    ∃ s, S.Ended S.options.goal (history es) s ∧ Reports S.selection S.options (LoopState.finished s) report :=
  runConsensus_ends task fun hs => refinementLoop_ended _ hs (Nat.zero_add _)

end Setting

/-! ### The result -/

/-- The setting of a run, as far as its report and its options tell. -/
def reportSetting (X : Externals) (config : Config) (options : RunOptions) (report : RunReport) : Setting :=
  ⟨X, config, report.selection, report.selection.lead, report.selection.reviewer, options⟩

theorem Setting.maxRefinementRounds_congr {S S' : Setting} (hconfig : S'.config = S.config)
    (hselection : S'.selection = S.selection) : S'.maxRefinementRounds = S.maxRefinementRounds := by
  rw [Setting.maxRefinementRounds, hconfig, hselection, Setting.maxRefinementRounds]

/-- Of the options the reasons depend on the no-progress limit only, and not on the names of the adapters. -/
theorem Setting.holdsAt_congr {S S' : Setting} (hconfig : S'.config = S.config) (hselection : S'.selection = S.selection)
    (hmax : S'.noProgressMax = S.noProgressMax) (h : History) (rounds : List RoundRecord) (i : Nat) :
    S'.holdsAt h rounds i = S.holdsAt h rounds i := by
  have hrounds := maxRefinementRounds_congr hconfig hselection
  have hterminal : S'.terminal = S.terminal := by
    funext verdict checkResult
    rw [Setting.terminal.eq_def, hselection, Setting.terminal.eq_def]
  have hstalls : S'.stalls = S.stalls := by
    funext p r
    rw [Setting.stalls, hmax, Setting.stalls]
  have hprogress : S'.progress = S.progress := by
    have hprogressed : S'.progressed = S.progressed := by
      funext p r
      rw [Setting.progressed, hstalls, Setting.progressed]
    funext rounds
    rw [Setting.progress, hprogressed, Setting.progress]
  funext reason
  cases reason <;> simp only [Setting.holdsAt, hconfig, hterminal, hprogress, hmax, hrounds]

theorem LoopTrace.congr {S S' : Setting} {h : History} {report : RunReport} (ht : LoopTrace S h report)
    (hexternals : S'.externals = S.externals) (hconfig : S'.config = S.config)
    (hselection : S'.selection = S.selection) (hmax : S'.noProgressMax = S.noProgressMax) : LoopTrace S' h report := by
  have hstopReason : S'.stopReason h = S.stopReason h := by
    funext rounds i
    rw [Setting.stopReason, Setting.holdsAt_congr hconfig hselection hmax, Setting.stopReason]
  have hhash : S'.canonicalHash = S.canonicalHash := by
    funext p
    rw [Setting.canonicalHash, hexternals, Setting.canonicalHash]
  exact ⟨ht.numbered, Setting.maxRefinementRounds_congr hconfig hselection ▸ ht.bounded, ht.generations, ht.leads,
    ht.reviews, ht.checks, hhash ▸ ht.patchShas, ht.reviewed, hconfig ▸ ht.unreviewed, hstopReason ▸ ht.going,
    hstopReason ▸ ht.stopped⟩

/-- A built-in verifier brings no no-progress limit. -/
theorem applyBuiltinVerifier_noProgressMax (options : RunOptions) (config : Config) :
    (applyBuiltinVerifier options config).Ensures fun _ options' =>
      (options'.goal.bind GoalSpec.noProgressMax) = options.goal.bind GoalSpec.noProgressMax := by
  have hresolve (execTrusted : Bool) : (resolveBuiltinVerifier config.orchestration execTrusted).Ensures
      fun _ goal => goal.bind GoalSpec.noProgressMax = none := by
    unfold resolveBuiltinVerifier
    dsimp only
    split
    · exact ensures_pure rfl
    split
    · exact ensures_pure rfl
    · refine ensures_bind fun _ detected => ensures_pure ?_
      rcases detected with _ | d
      · rfl
      · simp only [Option.bind_some]
        split_ifs <;> rfl
    · refine ensures_pure ?_
      split_ifs <;> rfl
  unfold applyBuiltinVerifier
  split_ifs with hgoal
  · exact ensures_pure rfl
  · refine ensures_bind fun _ consent => (hresolve _).bind fun _ goal hgoal' => ensures_pure ?_
    rw [Option.not_isSome_iff_eq_none.mp hgoal]
    exact hgoal'

/-- Before its strategy a run hears nothing, so it is enough to know what the strategies hear. -/
theorem runSynapticLoop_heard {X : Externals} {task : Task} {config : Config} {adapters : List String}
    {options : RunOptions} {Φ : History → RunReport → Prop}
    (hrun : ∀ S : Setting, S.externals = X → S.config = config →
      S.noProgressMax = (options.goal.bind GoalSpec.noProgressMax).getD 0 →
      (match config.orchestration.defaultStrategy with
        | .tournament => S.runTournamentStrategy task
        | .consensus | .pipeline => S.runConsensus task).Ensures fun es report => Φ (history es) report) :
    (runSynapticLoop X task config adapters options).Ensures fun es report => Φ (history es) report := by
  unfold runSynapticLoop
  refine (((applyBuiltinVerifier_inStage options config).unheard (Or.inl rfl)).and
    (applyBuiltinVerifier_noProgressMax options config)).bind fun es₁ options' ⟨h₁, hmax⟩ => ?_
  refine (orFail_unheard _).bind fun es₂ selection h₂ => (orFail_unheard _).bind fun es₃ lead h₃ => ?_
  refine (orFail_unheard _).bind fun es₄ reviewer h₄ => ?_
  refine (hrun ⟨X, config, selection, lead, reviewer, options'⟩ rfl rfl (congrArg (·.getD 0) hmax)).mono
    fun es report hes => ?_
  simpa only [history, History.after_append, h₁, h₂, h₃, h₄] using hes

/-- What a run of the rounds comes to, of a run that is no tournament. -/
theorem runSynapticLoop_consensus {X : Externals} {task : Task} {config : Config} {adapters : List String}
    {options : RunOptions} {trace : Trace} {report : RunReport} {Φ : History → RunReport → Prop}
    (hstrategy : config.orchestration.defaultStrategy ≠ .tournament)
    (hrun : ∀ S : Setting, S.externals = X → S.config = config →
      S.noProgressMax = (options.goal.bind GoalSpec.noProgressMax).getD 0 →
      (S.runConsensus task).Ensures fun es report => Φ (history es) report)
    (h : Runs (runSynapticLoop X task config adapters options) trace (.ok report)) : Φ (history trace) report := by
  refine runSynapticLoop_heard (fun S hexternals hconfig hmax => ?_) trace report h
  have hS := hrun S hexternals hconfig hmax
  split
  · exact absurd ‹_› hstrategy
  · exact hS
  · exact hS

/-- **The trace of the loop**, for every consensus or pipeline run that returns a report, whatever
the world answers. -/
theorem loop_trace {X : Externals} {task : Task} {config : Config} {adapters : List String} {options : RunOptions}
    {trace : Trace} {report : RunReport} (hstrategy : config.orchestration.defaultStrategy ≠ .tournament)
    (h : Runs (runSynapticLoop X task config adapters options) trace (.ok report)) :
    LoopTrace (reportSetting X config options report) (history trace) report := by
  refine runSynapticLoop_consensus (Φ := fun h report => LoopTrace (reportSetting X config options report) h report)
    hstrategy (fun S hexternals hconfig hmax => ?_) h
  exact (Setting.runConsensus_heard task).mono fun es report ⟨s, hs, hreport⟩ =>
    (hs.loopTrace hreport).congr hexternals.symm hconfig.symm hreport.selection hmax.symm

/-- A run of two rounds: the reviewer is never content. -/
theorem loop_trace_two_rounds : ∃ trace report,
    Runs (runSynapticLoop sampleExternals sampleTask (sampleConfig .reviewerBlock) ["claude-code", "codex"]
      sampleOptions) trace (.ok report) ∧ report.rounds.length = 2 ∧
      LoopTrace (reportSetting sampleExternals (sampleConfig .reviewerBlock) sampleOptions report) (history trace) report := by
  have hruns := runs_play (sampleWorld sampleOutput { ReviewerFeedback.lgtm "codex" "" with verdict := .requestChanges } .pass) []
    (runSynapticLoop sampleExternals sampleTask (sampleConfig .reviewerBlock) ["claude-code", "codex"] sampleOptions)
  exact ⟨_, _, hruns, rfl, loop_trace (by decide) hruns⟩

end Nerve.Run
