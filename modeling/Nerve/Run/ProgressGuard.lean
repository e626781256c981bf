import Mathlib.Order.Bounds.Basic
import Nerve.Run.LoopTrace

/-!
# The no-progress guard

The guard counts the rounds that bring the lead no closer to a green check, and stops the run when
enough of them have followed each other. What it counts is said of the records alone: the round's patch is that of
the round before, or its share of passed checks is not above the best of all earlier rounds. Of these it
counts the rounds it gets to see, which are those that nothing else settles and whose review does not
exceed the budget, and that the reviewer did not accept: a round that the check alone rejects sets the count
back. `noProgress_trace` says of every run that the flag is set at the first round that ends enough of
them in a row, and at no other.
-/

namespace Nerve.Run

open Nerve Nerve.Patch Dialogue

/-! ### Stalled rounds -/

/-- The share of its checks that passed, in thousandths, if the check shows one. -/
def RoundRecord.permille (r : RoundRecord) : Option Nat := r.checkResult.bind checkResultProgress

/-- The shares of these rounds. -/
def permilles (rounds : List RoundRecord) : Set Nat := {n | ∃ r ∈ rounds, r.permille = some n}

/-- Of the round and the one before both patches are there, and they are the same, or the check shows no more than
the best of the earlier rounds. -/
def StalledAt (rounds : List RoundRecord) : Nat → Prop
  | 0 => False
  | i + 1 => ∃ prev r prevSha sha, rounds[i]? = some prev ∧ rounds[i + 1]? = some r ∧
      prev.patchSha = some prevSha ∧ r.patchSha = some sha ∧
      (prevSha = sha ∨ ∃ now best, r.permille = some now ∧ IsGreatest (permilles (rounds.take (i + 1))) best ∧ now ≤ best)

/-- With round `i` as many rounds in a row have counted, and at least one. -/
def EndsBlock (counts : Nat → Prop) (m i : Nat) : Prop := 0 < m ∧ m ≤ i + 1 ∧ ∀ j ≤ i, i < j + m → counts j

/-- The flag is set at the first round that ends a block of `m`, and at no other. -/
structure SetAtFirstBlock (counts : Nat → Prop) (m : Nat) (report : RunReport) : Prop where
  exceeded : report.noProgressExceeded = true ↔ ∃ i, report.rounds.length = i + 1 ∧ EndsBlock counts m i
  first : ∀ i, i + 1 < report.rounds.length → ¬EndsBlock counts m i

namespace Setting

variable (S : Setting)

/-- The round is not accepted, cancelled, blocked, or halted. -/
structure Unsettled (h : History) (rounds : List RoundRecord) (i : Nat) : Prop where
  accepted : S.holdsAt h rounds i .accepted = false
  cancelled : S.holdsAt h rounds i .cancelled = false
  blocked : S.holdsAt h rounds i .blocked = false
  halted : S.holdsAt h rounds i .halted = false

/-- A stalled round that nothing else settles. -/
structure StallsUnsettled (h : History) (rounds : List RoundRecord) (i : Nat) : Prop
    extends Unsettled S h rounds i where
  stalled : StalledAt rounds i

/-- One that the guard counts: its review is within the budget, and does not accept it. -/
structure Counted (h : History) (rounds : List RoundRecord) (i : Nat) : Prop
    extends StallsUnsettled S h rounds i where
  withinBudget : exceedsBudget (UsageStats.total (h.costs (i + 1) (i + 1))) S.config.orchestration = false
  rejected : ∀ r ∈ rounds[i]?, r.reviewer.verdict ≠ .lgtm

/-! ### What the guard keeps -/

variable {S} {rounds : List RoundRecord} {r : RoundRecord} {i m : Nat}

theorem progress_concat : S.progress (rounds ++ [r]) = S.progressed (S.progress rounds) r := by
  rw [progress, List.foldl_append, progress]
  rfl

theorem progress_take (hr : rounds[i]? = some r) :
    S.progress (rounds.take (i + 1)) = S.progressed (S.progress (rounds.take i)) r := by
  rw [List.take_add_one, hr]
  exact progress_concat

theorem previousPatchSha_progress (hr : rounds[i]? = some r) :
    (S.progress (rounds.take (i + 1))).previousPatchSha = r.patchSha := by
  rw [progress_take hr]
  rfl

theorem mem_permilles_concat {n : Nat} : n ∈ permilles (rounds ++ [r]) ↔ n ∈ permilles rounds ∨ r.permille = some n := by
  simp only [permilles, List.mem_append, List.mem_singleton]
  constructor
  · rintro ⟨e, he | rfl, hn⟩
    · exact Or.inl ⟨e, he, hn⟩
    · exact Or.inr hn
  · rintro (⟨e, he, hn⟩ | hn)
    · exact ⟨e, Or.inl he, hn⟩
    · exact ⟨r, Or.inr rfl, hn⟩

/-- The best is one of the shares so far, and none is above it. -/
theorem best_progress (rounds : List RoundRecord) :
    (∀ best, (S.progress rounds).best = some best → best ∈ permilles rounds) ∧
      ∀ n ∈ permilles rounds, ∃ best, (S.progress rounds).best = some best ∧ n ≤ best := by
  induction rounds using List.reverseRecOn with
  | nil =>
    refine ⟨fun best h => ?_, fun n hn => ?_⟩
    · cases h
    · obtain ⟨r, hr, -⟩ := hn
      cases hr
  | append_singleton rounds r ih =>
    obtain ⟨hmem, hle⟩ := ih
    simp only [progress_concat, progressed, mem_permilles_concat]
    rcases hnow : r.permille with _ | now
    · rw [RoundRecord.permille] at hnow
      simp only [hnow]
      refine ⟨fun best h => Or.inl (hmem best h), fun n hn => ?_⟩
      rcases hn with hn | hn
      · exact hle n hn
      · cases hn
    · rw [RoundRecord.permille] at hnow
      simp only [hnow]
      rcases hbest : (S.progress rounds).best with _ | best
      · refine ⟨fun best h => Or.inr h, fun n hn => ?_⟩
        rcases hn with hn | hn
        · obtain ⟨best, hnone, -⟩ := hle n hn
          rw [hbest] at hnone
          cases hnone
        · exact ⟨now, rfl, (Option.some_inj.mp hn).ge⟩
      · refine ⟨fun b h => ?_, fun n hn => ⟨max best now, rfl, ?_⟩⟩
        · rw [Option.elim_some, Option.some_inj] at h
          rcases le_total best now with hle | hle
          · rw [← h, max_eq_right hle]
            exact Or.inr rfl
          · rw [← h, max_eq_left hle]
            exact Or.inl (hmem best hbest)
        · rcases hn with hn | hn
          · obtain ⟨best', hbest', hn⟩ := hle n hn
            rw [hbest, Option.some_inj] at hbest'
            exact hn.trans (hbest' ▸ le_max_left _ _)
          · cases hn
            exact le_max_right _ _

theorem best_progress_iff {best : Nat} :
    (S.progress rounds).best = some best ↔ IsGreatest (permilles rounds) best := by
  obtain ⟨hmem, hle⟩ := best_progress (S := S) rounds
  refine ⟨fun h => ⟨hmem best h, fun n hn => ?_⟩, fun h => ?_⟩
  · obtain ⟨best', hbest', hn⟩ := hle n hn
    rw [h, Option.some_inj] at hbest'
    exact hbest' ▸ hn
  · obtain ⟨best', hbest', hn⟩ := hle best h.1
    rw [hbest', Nat.le_antisymm hn (h.2 (hmem best' hbest'))]

theorem roundIsStalled_iff {prevSha curSha : Option String} {best current : Option Nat} :
    roundIsStalled prevSha curSha best current = true ↔ ∃ prev cur, prevSha = some prev ∧ curSha = some cur ∧
      (prev = cur ∨ ∃ now b, current = some now ∧ best = some b ∧ now ≤ b) := by
  unfold roundIsStalled
  rcases prevSha with _ | prev <;> rcases curSha with _ | cur
  · simp
  · simp
  · simp
  · rcases current with _ | now <;> rcases best with _ | b <;> simp

/-- The guard's test of a round, from what it keeps of the rounds before. -/
theorem roundIsStalled_progress (hr : rounds[i]? = some r) :
    roundIsStalled (S.progress (rounds.take i)).previousPatchSha r.patchSha (S.progress (rounds.take i)).best r.permille =
      true ↔ StalledAt rounds i := by
  rcases i with _ | i
  · exact iff_of_false (fun h => by cases h) id
  · obtain ⟨prev, hprev⟩ : ∃ prev, rounds[i]? = some prev :=
      ⟨_, List.getElem?_eq_getElem (Nat.lt_of_succ_lt (List.getElem?_eq_some_iff.mp hr).1)⟩
    rw [previousPatchSha_progress hprev, roundIsStalled_iff, StalledAt]
    simp only [hprev, hr, best_progress_iff]
    constructor
    · rintro ⟨prevSha, sha, hprevSha, hsha, h⟩
      exact ⟨prev, r, prevSha, sha, rfl, rfl, hprevSha, hsha, h⟩
    · rintro ⟨_, _, prevSha, sha, ⟨⟩, ⟨⟩, hprevSha, hsha, h⟩
      exact ⟨prevSha, sha, hprevSha, hsha, h⟩

/-- The round is one the guard counts, if it gets to see it. -/
def StallsAt (rounds : List RoundRecord) (i : Nat) : Prop :=
  StalledAt rounds i ∧ ∀ r ∈ rounds[i]?, r.reviewer.verdict = .requestChanges ∨ r.reviewer.verdict = .acceptWithNits

theorem stalls_iff (hmax : 0 < S.noProgressMax) (hr : rounds[i]? = some r) :
    S.stalls (S.progress (rounds.take i)) r = true ↔ StallsAt rounds i := by
  rw [StallsAt, ← roundIsStalled_progress (S := S) hr, hr, stalls, RoundRecord.permille]
  simp [hmax, and_comm]

theorem count_progress (hr : rounds[i]? = some r) :
    (S.progress (rounds.take (i + 1))).count =
      if S.stalls (S.progress (rounds.take i)) r then min ((S.progress (rounds.take i)).count + 1) (2 ^ 8 - 1) else 0 := by
  rw [progress_take hr]
  rfl

/-- The count is that of the stalled rounds in a row, as far as eight bits go. -/
theorem le_count_iff (hmax : 0 < S.noProgressMax) (hm : m < 2 ^ 8) (hi : i ≤ rounds.length) :
    m ≤ (S.progress (rounds.take i)).count ↔ m ≤ i ∧ ∀ j < i, i ≤ j + m → StallsAt rounds j := by
  induction i generalizing m with
  | zero => exact ⟨fun h => ⟨h, fun j hj => by omega⟩, fun h => h.1⟩
  | succ i ih =>
    have hr : rounds[i]? = some rounds[i] := List.getElem?_eq_getElem hi
    rw [count_progress hr]
    rcases m with _ | m
    · exact iff_of_true (Nat.zero_le _) ⟨Nat.zero_le _, fun j hj hle => by omega⟩
    · specialize ih (m := m) (by omega) (by omega)
      split_ifs with hstalls
      · have hlast : StallsAt rounds i := (stalls_iff hmax hr).mp hstalls
        refine ⟨fun h => ?_, fun ⟨hle, hall⟩ => ?_⟩
        · obtain ⟨hle, hall⟩ := ih.mp (by omega)
          refine ⟨by omega, fun j hj hblock => ?_⟩
          rcases Nat.lt_succ_iff_lt_or_eq.mp hj with hj | rfl
          · exact hall j hj (by omega)
          · exact hlast
        · have := ih.mpr ⟨by omega, fun j hj hblock => hall j (by omega) (by omega)⟩
          omega
      · refine iff_of_false (by omega) fun h => hstalls ?_
        exact (stalls_iff hmax hr).mpr (h.2 i (Nat.lt_succ_self i) (by omega))

/-! ### The guard and the blocks -/

section Block

variable {h : History}

/-- Of a round that nothing settles, and whose review is within the budget, the stall decides. -/
theorem counted_iff (hunsettled : S.Unsettled h rounds i)
    (hbudget : exceedsBudget (UsageStats.total (h.costs (i + 1) (i + 1))) S.config.orchestration = false) :
    S.Counted h rounds i ↔ StallsAt rounds i := by
  refine ⟨fun hcounted => ⟨hcounted.stalled, fun r hr => ?_⟩, fun hstalls => ⟨⟨hunsettled, hstalls.1⟩, hbudget, fun r hr => ?_⟩⟩
  · have hblocked := hunsettled.blocked
    have haccepted := hcounted.rejected r hr
    rw [holdsAt, Option.mem_def.mp hr, Option.any_some, beq_eq_false_iff_ne] at hblocked
    cases hverdict : r.reviewer.verdict with
    | lgtm => exact absurd hverdict haccepted
    | acceptWithNits => exact Or.inr rfl
    | requestChanges => exact Or.inl rfl
    | block => exact absurd hverdict hblocked
  · rcases hstalls.2 r hr with hverdict | hverdict <;> rw [hverdict] <;> decide

theorem unsettled_of_going (hgoing : ∀ reason, S.holdsAt h rounds i reason = false) : S.Unsettled h rounds i :=
  ⟨hgoing _, hgoing _, hgoing _, hgoing _⟩

theorem withinBudget_of_going (hgoing : S.holdsAt h rounds i .budget = false) :
    exceedsBudget (UsageStats.total (h.costs (i + 1) (i + 1))) S.config.orchestration = false := by
  rw [holdsAt, Bool.or_eq_false_iff] at hgoing
  exact hgoing.1

/-- Where nothing stopped an earlier round, a block ends where the guard has counted enough. -/
theorem endsBlock_iff (hmax : S.noProgressMax < 2 ^ 8) (hi : i < rounds.length)
    (hgoing : ∀ j < i, ∀ reason, S.holdsAt h rounds j reason = false) :
    EndsBlock (S.Counted h rounds) S.noProgressMax i ↔ S.Unsettled h rounds i ∧
      exceedsBudget (UsageStats.total (h.costs (i + 1) (i + 1))) S.config.orchestration = false ∧
      S.holdsAt h rounds i .noProgress = true := by
  have hguard : S.holdsAt h rounds i .noProgress = true ↔ 0 < S.noProgressMax ∧ S.noProgressMax ≤ i + 1 ∧
      ∀ j < i + 1, i + 1 ≤ j + S.noProgressMax → StallsAt rounds j := by
    rw [holdsAt, Bool.and_eq_true, decide_eq_true_iff, decide_eq_true_iff]
    exact and_congr_right fun hpos => le_count_iff hpos hmax hi
  have hbefore : ∀ j < i, S.Counted h rounds j ↔ StallsAt rounds j := fun j hj =>
    counted_iff (unsettled_of_going (hgoing j hj)) (withinBudget_of_going (hgoing j hj .budget))
  rw [hguard]
  constructor
  · rintro ⟨hpos, hle, hall⟩
    have hlast := hall i le_rfl (by omega)
    refine ⟨hlast.toUnsettled, hlast.withinBudget, hpos, hle, fun j hj hblock => ?_⟩
    have hcounted := hall j (by omega) (by omega)
    rcases Nat.lt_succ_iff_lt_or_eq.mp hj with hj | rfl
    · exact (hbefore j hj).mp hcounted
    · exact (counted_iff hlast.toUnsettled hlast.withinBudget).mp hcounted
  · rintro ⟨hunsettled, hbudget, hpos, hle, hall⟩
    refine ⟨hpos, hle, fun j hj hblock => ?_⟩
    have hstalls := hall j (by omega) (by omega)
    rcases Nat.lt_or_eq_of_le hj with hj | rfl
    · exact (hbefore j hj).mpr hstalls
    · exact (counted_iff hunsettled hbudget).mpr hstalls

end Block

/-- The run ended with the review of its last round, or with an output over the budget that was not reviewed any more;
then the guard had let it go on. -/
def GuardPassed (S : Setting) (h : History) (rounds : List RoundRecord) (noProgressExceeded : Bool) : Prop :=
  h.refineCalls + 1 = rounds.length ∨
    h.refineCalls = rounds.length ∧ noProgressExceeded = false ∧
      ∀ i < rounds.length, S.holdsAt h rounds i .noProgress = false

/-- The guard stops the round if nothing else does. -/
theorem stopReason_eq_noProgress {h : History} :
    S.stopReason h rounds i = some .noProgress ↔
      S.Unsettled h rounds i ∧ S.holdsAt h rounds i .budget = false ∧ S.holdsAt h rounds i .noProgress = true := by
  have hsplit : StopReason.inOrder =
      [.budget, .accepted, .cancelled, .blocked, .halted] ++ [.noProgress, .roundLimit] := rfl
  rw [stopReason, hsplit, List.find?_append]
  constructor
  · intro hstop
    rcases hother : [StopReason.budget, .accepted, .cancelled, .blocked, .halted].find? (S.holdsAt h rounds i) with _ | reason
    · have hfalse := List.find?_eq_none.mp hother
      simp only [List.forall_mem_cons, Bool.not_eq_true] at hfalse
      rw [hother, Option.none_or] at hstop
      exact ⟨⟨hfalse.2.1, hfalse.2.2.1, hfalse.2.2.2.1, hfalse.2.2.2.2.1⟩, hfalse.1, List.find?_some hstop⟩
    · rw [hother, Option.some_or, Option.some_inj] at hstop
      have hmem := List.mem_of_find?_eq_some hother
      rw [hstop] at hmem
      exact absurd hmem (by decide)
  · rintro ⟨hunsettled, hbudget, hguard⟩
    simp [hbudget, hunsettled.accepted, hunsettled.cancelled, hunsettled.blocked, hunsettled.halted, hguard]

theorem setAtFirstBlock_of_trace {h : History} {report : RunReport} (hmax : S.noProgressMax < 2 ^ 8)
    (ht : LoopTrace S h report) (hpassed : S.GuardPassed h report.rounds report.noProgressExceeded) :
    SetAtFirstBlock (S.Counted h report.rounds) S.noProgressMax report := by
  have hgoing : ∀ i, i + 1 < report.rounds.length → ∀ reason, S.holdsAt h report.rounds i reason = false := fun i hi =>
    stopReason_eq_none.mp (ht.going i hi)
  have hends : ∀ i < report.rounds.length, EndsBlock (S.Counted h report.rounds) S.noProgressMax i ↔ _ := fun i hi =>
    endsBlock_iff hmax hi fun j hj => hgoing j (by omega)
  refine ⟨⟨fun hexceeded => ?_, fun ⟨i, hi, hblock⟩ => ?_⟩, fun i hi hblock => ?_⟩
  · obtain ⟨i, hi⟩ : ∃ i, report.rounds.length = i + 1 := by
      refine Nat.exists_eq_succ_of_ne_zero fun hzero => ?_
      rcases hpassed with hcalls | ⟨-, hnot, -⟩
      · omega
      · rw [hexceeded] at hnot
        cases hnot
    obtain ⟨reason, hstop, -, -, -, hflag⟩ := ht.stopped i hi
    obtain rfl : reason = .noProgress := by simpa [hexceeded] using hflag
    obtain ⟨hunsettled, hbudget, hguard⟩ := stopReason_eq_noProgress.mp hstop
    exact ⟨i, hi, (hends i (by omega)).mpr ⟨hunsettled, withinBudget_of_going hbudget, hguard⟩⟩
  · obtain ⟨hunsettled, hreviewed, hguard⟩ := (hends i (by omega)).mp hblock
    have hbudget : S.holdsAt h report.rounds i .budget = false := by
      rw [holdsAt, hreviewed, Bool.false_or, ← hreviewed]
      rcases hpassed with hcalls | ⟨-, -, hpassed⟩
      · have hgenerations := congrArg List.length ht.generations
        rw [List.length_map, List.length_cons, List.length_replicate] at hgenerations
        have hsame : h.generations.take (i + 2) = h.generations.take (i + 1) := by
          rw [List.take_of_length_le (by omega), List.take_of_length_le (by omega)]
        rw [History.costs, History.costs, hsame]
      · rw [hpassed i (by omega)] at hguard
        cases hguard
    obtain ⟨reason, hstop, -, -, -, hflag⟩ := ht.stopped i hi
    rw [stopReason_eq_noProgress.mpr ⟨hunsettled, hbudget, hguard⟩, Option.some_inj] at hstop
    rw [hflag, ← hstop]
    rfl
  · have hnoProgress := ((hends i (by omega)).mp hblock).2.2
    rw [hgoing i hi] at hnoProgress
    cases hnoProgress

/-! ### The run -/

theorem refinementLoop_guardPassed {goal : Option GoalSpec} {h : History} {s : LoopState} {k : Nat} (refinements : Nat)
    (hs : S.AtRound goal h s k) (hk : k + refinements = S.maxRefinementRounds) :
    (S.refinementLoop goal refinements k s).Ensures fun es s' =>
      S.GuardPassed (h.after es) s'.rounds s'.noProgressExceeded := by
  refine refinementLoop_ends (P := fun h s => S.GuardPassed h s.rounds s.noProgressExceeded)
    (fun {h s k} hs _ _ => Or.inr ⟨?_, hs.unflagged.1, fun i hi => ?_⟩)
    (fun {h s k checkResult patchSha answers} hs _ _ _ => Or.inl ?_) refinements hs hk
  · rw [hs.refineCalls, hs.length]
  · rw [hs.going i (hs.length ▸ hi)]
    rfl
  · have hrounds : (S.settled s checkResult patchSha (answers == [true])).2.rounds = s.rounds := (settled_sameRecords _).1
    rw [hrounds, hs.length]
    exact congrArg (· + 1) hs.refineCalls

theorem GuardPassed.congr {S' : Setting} {h : History} {noProgressExceeded : Bool}
    (hpassed : S.GuardPassed h rounds noProgressExceeded) (hconfig : S'.config = S.config)
    (hselection : S'.selection = S.selection) (hmax : S'.noProgressMax = S.noProgressMax) :
    S'.GuardPassed h rounds noProgressExceeded :=
  hpassed.imp_right fun ⟨hcalls, hnot, hfalse⟩ => ⟨hcalls, hnot, fun i hi => by
    rw [holdsAt_congr hconfig hselection hmax, hfalse i hi]⟩

end Setting

/-- **The flag is set at the first block** of so many counted rounds, for every consensus or pipeline run
that returns a report. The limit is a `u8`. -/
theorem noProgress_trace {X : Externals} {task : Task} {config : Config} {adapters : List String} {options : RunOptions}
    {trace : Trace} {report : RunReport} (hstrategy : config.orchestration.defaultStrategy ≠ .tournament)
    (hmax : ∀ goal ∈ options.goal, ∀ m ∈ goal.noProgressMax, m < 2 ^ 8)
    (h : Runs (runSynapticLoop X task config adapters options) trace (.ok report)) :
    let S := reportSetting X config options report
    SetAtFirstBlock (S.Counted (history trace) report.rounds) S.noProgressMax report := by
  refine runSynapticLoop_consensus (Φ := fun h report =>
    let S := reportSetting X config options report
    SetAtFirstBlock (S.Counted h report.rounds) S.noProgressMax report) hstrategy (fun S hexternals hconfig hS => ?_) h
  have hloop {h : History} {s : LoopState} (hs : S.AtRound S.options.goal h s 0) :=
    (Setting.refinementLoop_ended _ hs (Nat.zero_add _)).and (Setting.refinementLoop_guardPassed _ hs (Nat.zero_add _))
  refine (Setting.runConsensus_ends (P := fun h s => S.Ended S.options.goal h s ∧
    S.GuardPassed h s.rounds s.noProgressExceeded) task hloop).mono fun es report ⟨s, ⟨hs, hpassed⟩, hreport⟩ => ?_
  refine Setting.setAtFirstBlock_of_trace ?_
    ((hs.loopTrace hreport).congr hexternals.symm hconfig.symm hreport.selection hS.symm) ?_
  · change (options.goal.bind GoalSpec.noProgressMax).getD 0 < 2 ^ 8
    rcases hm : options.goal.bind GoalSpec.noProgressMax with _ | m
    · decide
    · obtain ⟨goal, hgoal, hm⟩ := Option.bind_eq_some_iff.mp hm
      exact hmax goal hgoal m hm
  · rw [hreport.rounds, hreport.noProgressExceeded]
    exact hpassed.congr hconfig.symm hreport.selection hS.symm

/-! ### Runs of two rounds -/

/-- One stalled round is enough. -/
def guardedOptions : RunOptions := { sampleOptions with goal := some { sampleGoal with noProgressMax := some 1 } }

/-- The lead repeats its patch, and the check stays red. -/
def guardedWorld (verdict : Verdict) : Trace → (q : Question) → q.Answer :=
  sampleWorld sampleOutput { ReviewerFeedback.lgtm "codex" "" with verdict := verdict, cost := some ⟨1, 0, none⟩ }
    (.fail "red" none)

def guardedConfig (maxTotalTokens : Option Nat) : Config :=
  { sampleConfig .reviewerBlock with
    orchestration := { (sampleConfig .reviewerBlock).orchestration with maxTotalTokens := maxTotalTokens } }

def guardedRun (maxTotalTokens : Option Nat) : RunM RunReport :=
  runSynapticLoop sampleExternals sampleTask (guardedConfig maxTotalTokens) ["claude-code", "codex"] guardedOptions

/-- The second round is the block. -/
theorem noProgress_trace_two_rounds : ∃ trace report, Runs (guardedRun none) trace (.ok report) ∧
    report.noProgressExceeded = true ∧
      let S := reportSetting sampleExternals (guardedConfig none) guardedOptions report
      SetAtFirstBlock (S.Counted (history trace) report.rounds) S.noProgressMax report := by
  have hruns := runs_play (guardedWorld .requestChanges) [] (guardedRun none)
  refine ⟨_, _, hruns, rfl, noProgress_trace (by decide) (fun goal hgoal m hm => ?_) hruns⟩
  cases hgoal
  cases hm
  decide

/-- The same patch twice. -/
theorem stalledAt_of_repeated {rounds : List RoundRecord} {i : Nat} (sha : String)
    (hprev : rounds[i]?.map (·.patchSha) = some (some sha)) (hnow : rounds[i + 1]?.map (·.patchSha) = some (some sha)) :
    StalledAt rounds (i + 1) := by
  obtain ⟨prev, hprev, hprevSha⟩ := Option.map_eq_some_iff.mp hprev
  obtain ⟨r, hr, hsha⟩ := Option.map_eq_some_iff.mp hnow
  exact ⟨prev, r, sha, sha, hprev, hr, hprevSha, hsha, Or.inl rfl⟩

theorem not_setAtFirstBlock {counts : Nat → Prop} {i : Nat} {report : RunReport} (hlength : report.rounds.length = i + 1)
    (hcounts : counts i) (hnot : report.noProgressExceeded = false) : ¬SetAtFirstBlock counts 1 report := by
  intro hset
  have hblock : EndsBlock counts 1 i := by
    refine ⟨Nat.one_pos, Nat.succ_le_succ (Nat.zero_le i), fun j hj hlate => ?_⟩
    obtain rfl : j = i := by omega
    exact hcounts
  rw [hset.exceeded.mpr ⟨i, hlength, hblock⟩] at hnot
  cases hnot

/-- A stalled round that nothing settles need not count: not if the reviewer accepts it and the check does not, and not if
its review exceeds the budget. -/
theorem stalled_uncounted :
    (∃ trace report, Runs (guardedRun none) trace (.ok report) ∧
      let S := reportSetting sampleExternals (guardedConfig none) guardedOptions report
      ¬SetAtFirstBlock (S.StallsUnsettled (history trace) report.rounds) S.noProgressMax report) ∧
    ∃ trace report, Runs (guardedRun (some 1)) trace (.ok report) ∧
      let S := reportSetting sampleExternals (guardedConfig (some 1)) guardedOptions report
      ¬SetAtFirstBlock (S.StallsUnsettled (history trace) report.rounds) S.noProgressMax report := by
  constructor
  · refine ⟨_, _, runs_play (guardedWorld .lgtm) [] (guardedRun none), ?_⟩
    refine not_setAtFirstBlock (i := 1) (by decide +kernel) ⟨⟨?_, ?_, ?_, ?_⟩, ?_⟩ (by decide +kernel)
    · decide +kernel
    · decide +kernel
    · decide +kernel
    · decide +kernel
    · exact stalledAt_of_repeated "digest" (by decide +kernel) (by decide +kernel)
  · refine ⟨_, _, runs_play (guardedWorld .requestChanges) [] (guardedRun (some 1)), ?_⟩
    refine not_setAtFirstBlock (i := 1) (by decide +kernel) ⟨⟨?_, ?_, ?_, ?_⟩, ?_⟩ (by decide +kernel)
    · decide +kernel
    · decide +kernel
    · decide +kernel
    · decide +kernel
    · exact stalledAt_of_repeated "digest" (by decide +kernel) (by decide +kernel)

end Nerve.Run
