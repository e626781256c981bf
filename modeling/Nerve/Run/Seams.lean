import Nerve.Run.LoopTrace

/-!
# The seams of a run

Between two rounds a run looks up: it has recorded the round, for whoever watches, and unless the
budget or the verdict ends it there it reads whether the operator has cancelled it. What was
recorded is what the report has, a cancel that is read is reported, and one that is there when a
round is recorded is read, unless that round exceeds the budget or is accepted; a tournament reads
it after its round in any case. `SeamsReported` says this of a report, and `runSynapticLoop_seams`
that it holds whatever the world answers.
-/

namespace Nerve.Run

open Nerve Nerve.Patch Dialogue

/-! ### Records and readings -/

/-- The records of the exchanges. -/
def recorded (es : Trace) : List RoundRecord :=
  es.filterMap fun x => match x with
    | ⟨.recordRound round, _⟩ => some round
    | _ => none

/-- The cancel is read. -/
def ReadsCancel (es : Trace) : Prop := (⟨.isCancelled, true⟩ : Exchange Question Question.Answer) ∈ es

/-- No reading misses the cancel. -/
def Cancelling (es : Trace) : Prop := (⟨.isCancelled, false⟩ : Exchange Question Question.Answer) ∉ es

/-- From some exchange on the cancel is there, and a round is recorded after it. -/
def RecordsCancelled (es : Trace) : Prop := ∃ es₁ es₂, es = es₁ ++ es₂ ∧ Cancelling es₂ ∧ recorded es₂ ≠ []

@[simp] theorem recorded_append (es es' : Trace) : recorded (es ++ es') = recorded es ++ recorded es' :=
  List.filterMap_append

theorem cancelling_append {es es' : Trace} : Cancelling (es ++ es') ↔ Cancelling es ∧ Cancelling es' := by
  simp [Cancelling]

theorem readsCancel_append {es es' : Trace} : ReadsCancel (es ++ es') ↔ ReadsCancel es ∨ ReadsCancel es' := by
  simp [ReadsCancel]

/-- The record is in the one part or the other. -/
theorem recordsCancelled_append {es es' : Trace} (h : RecordsCancelled (es ++ es')) :
    RecordsCancelled es' ∨ RecordsCancelled es ∧ Cancelling es' := by
  obtain ⟨es₁, es₂, hsplit, hcancel, hrecord⟩ := h
  rcases List.append_eq_append_iff.mp hsplit with ⟨rest, rfl, rfl⟩ | ⟨rest, rfl, rfl⟩
  · exact Or.inl ⟨rest, es₂, rfl, hcancel, hrecord⟩
  · obtain ⟨hrest, hes'⟩ := cancelling_append.mp hcancel
    by_cases hlate : recorded es' = []
    · rw [recorded_append, hlate, List.append_nil] at hrecord
      exact Or.inr ⟨⟨es₁, rest, rfl, hrest, hrecord⟩, hes'⟩
    · exact Or.inl ⟨[], es', rfl, hes', hlate⟩

theorem not_recordsCancelled {es : Trace} (h : recorded es = []) : ¬ RecordsCancelled es := by
  rintro ⟨es₁, es₂, rfl, -, hrecord⟩
  rw [recorded_append] at h
  exact hrecord (List.append_eq_nil_iff.mp h).2

/-- There is no seam in the exchanges. -/
structure Seamless (es : Trace) : Prop where
  unrecorded : recorded es = []
  unread : ∀ b, (⟨.isCancelled, b⟩ : Exchange Question Question.Answer) ∉ es

theorem Seamless.not_recordsCancelled {es : Trace} (h : Seamless es) : ¬ RecordsCancelled es :=
  Run.not_recordsCancelled h.unrecorded

theorem seamless_nil : Seamless [] := ⟨rfl, fun _ => List.not_mem_nil⟩

theorem Seamless.append {es es' : Trace} (h : Seamless es) (h' : Seamless es') : Seamless (es ++ es') where
  unrecorded := by rw [recorded_append, h.unrecorded, h'.unrecorded, List.append_nil]
  unread b hb := (List.mem_append.mp hb).elim (h.unread b) (h'.unread b)

/-- A question that is a seam. -/
def Question.IsSeam : Question → Prop
  | .recordRound _ | .isCancelled => True
  | _ => False

theorem seamless_of_forall {es : Trace} (h : ∀ x ∈ es, ¬ x.question.IsSeam) : Seamless es where
  unrecorded := by
    refine List.filterMap_eq_nil_iff.mpr fun ⟨q, answer⟩ hx => ?_
    have hquiet := h _ hx
    cases q with
    | recordRound => exact absurd trivial hquiet
    | _ => rfl
  unread b hb := h _ hb trivial

theorem seamless_of_asks {α : Type} {d : RunM α} (h : d.Asks fun q => ¬ q.IsSeam) : d.Ensures fun es _ => Seamless es :=
  h.ensures.mono fun _ _ hes => seamless_of_forall hes

theorem InStage.seamless {α : Type} {stage : Stage} {d : RunM α} (h : InStage stage d)
    (hstage : stage ≠ .review ∧ stage ≠ .settle) : d.Ensures fun es _ => Seamless es := by
  refine seamless_of_asks (h.mono fun q hq hseam => ?_)
  cases q with
  | recordRound => exact hstage.1 hq.symm
  | isCancelled => exact hstage.2 hq.symm
  | _ => exact hseam

/-! ### The rounds -/

namespace Setting

variable (S : Setting)

/-- The last round is accepted. -/
def acceptsLast (rounds : List RoundRecord) : Bool :=
  rounds.getLast?.any fun r => r.checkResult.any (S.terminal r.reviewer.verdict)

/-- What the loop adds to the records from here on, and what it makes of a cancel. -/
structure Seams (rounds : List RoundRecord) (es : Trace) (s : LoopState) : Prop where
  recorded : s.rounds = rounds ++ recorded es
  cancelled : ReadsCancel es → s.cancelled = true
  stopped : RecordsCancelled es → s.cancelled = true ∨ s.budgetExceeded = true ∨ S.acceptsLast s.rounds = true

/-- The same of one round, which stops the loop for either. -/
structure Seam (rounds : List RoundRecord) (es : Trace) (stop : Bool) (s : LoopState) : Prop where
  recorded : s.rounds = rounds ++ recorded es
  cancelled : ReadsCancel es → stop = true ∧ s.cancelled = true
  stopped : RecordsCancelled es →
    stop = true ∧ (s.cancelled = true ∨ s.budgetExceeded = true ∨ S.acceptsLast s.rounds = true)

variable {S}

/-- What is asked between the rounds, and no record. -/
theorem recorded_of_stage {es : Trace} (h : ∀ x ∈ es, x.question.stage = .settle) : recorded es = [] := by
  refine List.filterMap_eq_nil_iff.mpr fun ⟨q, answer⟩ hx => ?_
  have hstage := h _ hx
  cases q with
  | recordRound => cases hstage
  | _ => rfl

/-- A review records its round, and does not read the cancel. -/
theorem reviewRound_seams (goal : Option GoalSpec) (roundIndex : Nat) (s : LoopState) :
    (S.reviewRound goal roundIndex s).Ensures fun es r =>
      r.1.rounds = s.rounds ++ recorded es ∧ (∀ b, (⟨.isCancelled, b⟩ : Exchange Question Question.Answer) ∉ es) ∧
        S.acceptsLast r.1.rounds = S.terminal r.1.finalFeedback.verdict r.2.1 := by
  have hunread : (S.reviewRound goal roundIndex s).Ensures fun es _ =>
      ∀ b, (⟨.isCancelled, b⟩ : Exchange Question Question.Answer) ∉ es :=
    (S.reviewRound_inStage goal roundIndex s).ensures.mono fun es _ hes b hb => by cases hes _ hb
  have hrecord : (S.reviewRound goal roundIndex s).Ensures fun es r =>
      r.1.rounds = s.rounds ++ recorded es ∧
        S.acceptsLast r.1.rounds = S.terminal r.1.finalFeedback.verdict r.2.1 := by
    unfold reviewRound
    refine Ensures.bind (Φ := fun es _ => recorded es = [])
      (Ensures.mapError (askOrFail_ensures fun answer feedback _ => rfl)) fun es₁ feedback h₁ => ?_
    have hcheck : (runGoalCheck goal).Ensures fun es _ => recorded es = [] := by
      rcases goal with _ | spec
      · exact ensures_pure rfl
      · exact ensures_query fun _ => rfl
    refine hcheck.bind fun es₂ outcome h₂ => ?_
    refine Ensures.bind (ensures_query fun _ => rfl) fun es₃ _ (h₃ : recorded es₃ = [_]) => ?_
    refine ensures_pure ⟨?_, ?_⟩
    · rw [List.append_nil, recorded_append, recorded_append, h₁, h₂, h₃]
      rfl
    · simp [acceptsLast]
  exact (hrecord.and hunread).mono fun es r ⟨⟨hrounds, haccepts⟩, hread⟩ => ⟨hrounds, hread, haccepts⟩

/-- A cancel that is there when the round is settled stops the loop, unless the budget or the verdict does. -/
theorem settleRound_cancels (htoken : S.options.cancelToken = true) (s : LoopState) (checkResult : CheckResult)
    (patchSha : Option String) : (S.settleRound s checkResult patchSha).Ensures fun es r =>
      (ReadsCancel es → r.1 = true ∧ r.2.cancelled = true) ∧
        (Cancelling es → r.1 = true ∧
          (r.2.cancelled = true ∨ r.2.budgetExceeded = true ∨ S.terminal s.finalFeedback.verdict checkResult = true)) := by
  have hunread : ¬ ReadsCancel [] := List.not_mem_nil
  unfold settleRound
  split
  · exact ensures_pure ⟨fun h => absurd h hunread, fun _ => ⟨rfl, Or.inr (Or.inl ‹_›)⟩⟩
  split
  · exact ensures_pure ⟨fun h => absurd h hunread, fun _ => ⟨rfl, Or.inr (Or.inr ‹_›)⟩⟩
  · rw [RunOptions.isCancelled, if_pos htoken]
    refine Ensures.bind (Φ := fun es answer => es = [⟨.isCancelled, answer⟩]) (ensures_query fun _ => rfl) ?_
    rintro _ answer rfl
    rcases answer with _ | _
    · -- The cancel is not there.
      have hread : ¬ ReadsCancel [⟨.isCancelled, false⟩] := by simp [ReadsCancel]
      have hthere : ¬ Cancelling [⟨.isCancelled, false⟩] := by simp [Cancelling]
      rw [if_neg Bool.false_ne_true]
      split_ifs <;> refine ensures_pure ⟨fun h => absurd ?_ hread, fun h => absurd ?_ hthere⟩ <;> exact h
    · exact ensures_pure ⟨fun _ => ⟨rfl, rfl⟩, fun _ => ⟨rfl, Or.inl rfl⟩⟩

/-- A review and its settlement are a seam. -/
theorem settleRound_seam (htoken : S.options.cancelToken = true) {rounds : List RoundRecord} {es₁ : Trace}
    {s : LoopState} {checkResult : CheckResult} (patchSha : Option String)
    (hrounds : s.rounds = rounds ++ recorded es₁)
    (hunread : ∀ b, (⟨.isCancelled, b⟩ : Exchange Question Question.Answer) ∉ es₁)
    (haccepts : S.acceptsLast s.rounds = S.terminal s.finalFeedback.verdict checkResult) :
    (S.settleRound s checkResult patchSha).Ensures fun es₂ r => S.Seam rounds (es₁ ++ es₂) r.1 r.2 := by
  have hstage := (S.settleRound_inStage s checkResult patchSha).ensures
  refine ((hstage.and (settleRound_cancels htoken s checkResult patchSha)).and
    (S.settleRound_ensures s checkResult patchSha)).mono fun es₂ r ⟨⟨hsettle, hread, hcancel⟩, hkept, _⟩ => ?_
  have hunrecorded := recorded_of_stage hsettle
  constructor
  · rw [hkept, hrounds, recorded_append, hunrecorded, List.append_nil]
  · intro h
    exact hread ((readsCancel_append.mp h).resolve_left (hunread true))
  · intro h
    rw [hkept, haccepts]
    obtain h | ⟨-, h⟩ := recordsCancelled_append h
    · exact absurd h (not_recordsCancelled hunrecorded)
    · exact hcancel h

theorem Seam.seams {rounds : List RoundRecord} {es : Trace} {stop : Bool} {s : LoopState} (h : S.Seam rounds es stop s) :
    S.Seams rounds es s :=
  ⟨h.recorded, fun hread => (h.cancelled hread).2, fun hrecord => (h.stopped hrecord).2⟩

/-- A seam that does not stop the loop, and the loop from the next generation on. -/
theorem Seam.before {rounds : List RoundRecord} {es es' es'' : Trace} {s s₁ s' : LoopState}
    (h : S.Seam rounds es false s) (hes' : Seamless es') (hs₁ : s₁.rounds = s.rounds) (hs' : S.Seams s₁.rounds es'' s') :
    S.Seams rounds (es ++ (es' ++ es'')) s' := by
  constructor
  · rw [hs'.recorded, hs₁, h.recorded, recorded_append, recorded_append, hes'.unrecorded, List.nil_append,
      List.append_assoc]
  · intro hread
    rcases readsCancel_append.mp hread with hread | hread
    · cases (h.cancelled hread).1
    · exact hs'.cancelled ((readsCancel_append.mp hread).resolve_left (hes'.unread true))
  · intro hrecord
    obtain hrecord | ⟨hrecord, -⟩ := recordsCancelled_append hrecord
    · obtain hrecord | ⟨hrecord, -⟩ := recordsCancelled_append hrecord
      · exact hs'.stopped hrecord
      · exact absurd hrecord hes'.not_recordsCancelled
    · cases (h.stopped hrecord).1

theorem seams_nil {s : LoopState} : S.Seams s.rounds [] s :=
  ⟨(List.append_nil _).symm, fun h => absurd h List.not_mem_nil, fun h => absurd h (not_recordsCancelled rfl)⟩

theorem refineRound_seamless (s : LoopState) : (S.refineRound s).Ensures fun es s' => Seamless es ∧ s'.rounds = s.rounds :=
  (((S.refineRound_inStage s).seamless (by decide)).and (S.refineRound_ensures s)).mono
    fun _ _ ⟨hes, hs⟩ => ⟨hes, hs.1⟩

/-- The loop, by induction on the refinements left: each round is a seam. -/
theorem refinementLoop_seams (htoken : S.options.cancelToken = true) (goal : Option GoalSpec)
    (refinements roundIndex : Nat) (s : LoopState) :
    (S.refinementLoop goal refinements roundIndex s).Ensures (S.Seams s.rounds) := by
  induction refinements generalizing roundIndex s with
  | zero =>
    rw [refinementLoop]
    split_ifs
    · exact ensures_pure seams_nil
    · refine (reviewRound_seams goal roundIndex s).bind fun es₁ r hreviewed => ?_
      obtain ⟨hrounds, hunread, haccepts⟩ := hreviewed
      refine (settleRound_seam htoken r.2.2 hrounds hunread haccepts).bind fun es₂ settled hseam => ?_
      obtain ⟨stop, s₁⟩ := settled
      rcases stop with _ | _ <;> exact ensures_pure (by simpa using hseam.seams)
  | succ refinements ih =>
    rw [refinementLoop]
    split_ifs
    · exact ensures_pure seams_nil
    · refine (reviewRound_seams goal roundIndex s).bind fun es₁ r hreviewed => ?_
      obtain ⟨hrounds, hunread, haccepts⟩ := hreviewed
      refine (settleRound_seam htoken r.2.2 hrounds hunread haccepts).bind fun es₂ settled hseam => ?_
      obtain ⟨stop, s₁⟩ := settled
      rcases stop with _ | _
      · refine (refineRound_seamless s₁).bind fun es₃ s₂ hrefined => ?_
        obtain ⟨hquiet, hkept⟩ := hrefined
        refine (ih (roundIndex + 1) s₂).mono fun es₄ s' hloop => ?_
        rw [← List.append_assoc]
        exact hseam.before hquiet hkept hloop
      · exact ensures_pure (by simpa using hseam.seams)

/-- What the report has of the seams. A tournament has one, after which it always reads the cancel. -/
structure SeamsReported (es : Trace) (report : RunReport) : Prop where
  selection : report.selection = S.selection
  recorded : report.rounds = recorded es
  cancelled : ReadsCancel es → report.cancelled = true
  stopped : RecordsCancelled es → report.cancelled = true ∨ report.budgetExceeded = true ∨
    S.config.orchestration.defaultStrategy ≠ .tournament ∧ S.acceptsLast report.rounds = true

/-- Without a seam before or after, the report of the rest is that of the whole. -/
theorem SeamsReported.between {es es' es'' : Trace} {report : RunReport} (h : S.SeamsReported es' report)
    (hes : Seamless es) (hes'' : Seamless es'') : S.SeamsReported (es ++ (es' ++ es'')) report := by
  refine ⟨h.selection, ?_, ?_, ?_⟩
  · rw [h.recorded, recorded_append, recorded_append, hes.unrecorded, hes''.unrecorded, List.nil_append,
      List.append_nil]
  · intro hread
    rcases readsCancel_append.mp ((readsCancel_append.mp hread).resolve_left (hes.unread true)) with hread | hread
    · exact h.cancelled hread
    · exact absurd hread (hes''.unread true)
  · intro hrecord
    obtain hrecord | ⟨hrecord, -⟩ := recordsCancelled_append hrecord
    · obtain hrecord | ⟨hrecord, -⟩ := recordsCancelled_append hrecord
      · exact absurd hrecord hes''.not_recordsCancelled
      · exact h.stopped hrecord
    · exact absurd hrecord hes.not_recordsCancelled

theorem runConsensus_seams (htoken : S.options.cancelToken = true)
    (hstrategy : S.config.orchestration.defaultStrategy ≠ .tournament) (task : Task) :
    (S.runConsensus task).Ensures S.SeamsReported := by
  have himplement : InStage .generate (ask (.implement S.lead)) := ask_inStage rfl
  unfold runConsensus
  refine ((collectOutputWithCrossfire_inStage himplement _ _).seamless (by decide)).mapError.bind
    fun es₁ ⟨output, crossfire⟩ h₁ => ?_
  refine ((buildGoalEvaluator_inStage _).seamless (by decide)).bind fun es₂ goal h₂ => ?_
  refine (refinementLoop_seams htoken goal _ 0 _).bind fun es₃ s hs => ?_
  refine ((selectFinalPatch_inStage _ _ _ _).seamless (by decide)).bind fun es₄ finalPatch h₄ => ?_
  refine (((conclude_inStage _ _ _ _ _ _ _).seamless (by decide)).and (conclude_reports _ _ _ _ _ _ _)).mono
    fun es₅ report ⟨h₅, hreport⟩ => ?_
  have hloop : S.SeamsReported es₃ report := by
    refine ⟨hreport.selection, ?_, ?_, ?_⟩
    · rw [hreport.rounds]
      exact hs.recorded
    · rw [hreport.cancelled]
      exact hs.cancelled
    · rw [hreport.cancelled, hreport.budgetExceeded, hreport.rounds]
      exact fun h => (hs.stopped h).imp_right (Or.imp_right fun h => ⟨hstrategy, h⟩)
  simpa only [List.append_assoc] using hloop.between (h₁.append h₂) (h₄.append h₅)

theorem runTournamentStrategy_seams (htoken : S.options.cancelToken = true) (task : Task) :
    (S.runTournamentStrategy task).Ensures S.SeamsReported := by
  have himplement (adapter : String) : (withContext "tournament candidate generation failed" do
      orFail (← ask (.implement adapter))).Ensures fun es _ => Seamless es := by
    have hstage : InStage .generate (withContext "tournament candidate generation failed" do
        orFail (← ask (.implement adapter))) := askOrFail_inStage _ rfl _
    exact hstage.seamless (by decide)
  unfold runTournamentStrategy
  refine (himplement S.lead).bind fun es₁ leadOutput h₁ => (himplement S.reviewer).bind fun es₂ reviewerOutput h₂ => ?_
  refine (seamless_of_asks (S.judgeTournament_asks (fun _ _ _ => id) leadOutput reviewerOutput)).bind
    fun es₃ ⟨usage, budgetExceeded, finalOutput, finalFeedback⟩ h₃ => ?_
  refine ((buildGoalEvaluator_inStage _).seamless (by decide)).bind fun es₄ goal h₄ => ?_
  have hcheck : (runGoalCheck goal).Ensures fun es _ => Seamless es := by
    rcases goal with _ | spec
    · exact ensures_pure seamless_nil
    · exact ensures_query fun _ => seamless_of_forall (by simp [Question.IsSeam])
  refine hcheck.bind fun es₅ outcome h₅ => ?_
  refine Ensures.bind (ensures_query fun _ => rfl) fun es₆ _ (h₆ : es₆ = [⟨.recordRound _, ()⟩]) => ?_
  refine ((selectFinalPatch_inStage _ _ _ _).seamless (by decide)).bind fun es₇ finalPatch h₇ => ?_
  rw [RunOptions.isCancelled, if_pos htoken]
  refine Ensures.bind (ensures_query fun _ => rfl) fun es₈ cancelled (h₈ : es₈ = [⟨.isCancelled, cancelled⟩]) => ?_
  refine (((conclude_inStage _ _ _ _ _ _ _).seamless (by decide)).and (conclude_reports _ _ _ _ _ _ _)).mono
    fun es₉ report ⟨h₉, hreport⟩ => ?_
  have hjudged : S.SeamsReported (es₆ ++ (es₇ ++ es₈)) report := by
    subst h₆ h₈
    refine ⟨hreport.selection, ?_, ?_, ?_⟩
    · rw [hreport.rounds, recorded_append, recorded_append, h₇.unrecorded]
      rfl
    · rw [hreport.cancelled]
      intro hread
      have hlast := (readsCancel_append.mp ((readsCancel_append.mp hread).resolve_left (by simp [ReadsCancel]))).resolve_left
        (h₇.unread true)
      simpa [ReadsCancel, eq_comm] using hlast
    · rw [hreport.cancelled]
      intro hrecord
      obtain hrecord | ⟨-, hcancel⟩ := recordsCancelled_append hrecord
      · refine absurd hrecord (not_recordsCancelled ?_)
        rw [recorded_append, h₇.unrecorded]
        rfl
      · have hlast := (cancelling_append.mp hcancel).2
        rcases cancelled with _ | _
        · exact absurd List.mem_cons_self hlast
        · exact Or.inl rfl
  simpa only [List.append_assoc] using hjudged.between (h₁.append (h₂.append (h₃.append (h₄.append h₅)))) h₉

end Setting

/-! ### The result -/

/-- The built-in verifier leaves the handles alone. -/
theorem applyBuiltinVerifier_cancelToken (options : RunOptions) (config : Config) :
    (applyBuiltinVerifier options config).Ensures fun _ options' => options'.cancelToken = options.cancelToken := by
  unfold applyBuiltinVerifier
  split_ifs with hgoal
  · exact ensures_pure rfl
  · exact ensures_bind fun _ consent => ensures_bind fun _ resolved => ensures_pure rfl

/-- **The seams of a run** that can be cancelled, of every strategy and whatever the world answers. -/
theorem runSynapticLoop_seams {X : Externals} {task : Task} {config : Config} {adapters : List String} {options : RunOptions}
    {trace : Trace} {report : RunReport} (htoken : options.cancelToken = true)
    (h : Runs (runSynapticLoop X task config adapters options) trace (.ok report)) :
    (reportSetting X config options report).SeamsReported trace report := by
  have hseams : (runSynapticLoop X task config adapters options).Ensures fun es report =>
      ∃ S : Setting, S.config = config ∧ S.SeamsReported es report := by
    unfold runSynapticLoop
    refine (((applyBuiltinVerifier_inStage options config).seamless (by decide)).and
      (applyBuiltinVerifier_cancelToken options config)).bind fun es₁ options' ⟨h₁, hkept⟩ => ?_
    have hfail {α : Type} (r : Except RunError α) : (orFail r).Ensures fun es _ => Seamless es :=
      (orFail_inStage .setUp r).seamless (by decide)
    refine (hfail _).bind fun es₂ selection h₂ => (hfail _).bind fun es₃ lead h₃ => (hfail _).bind fun es₄ reviewer h₄ => ?_
    have hwhole {S : Setting} {es : Trace} {report : RunReport} (hconfig : S.config = config) (h : S.SeamsReported es report) :
        ∃ S : Setting, S.config = config ∧ S.SeamsReported (es₁ ++ (es₂ ++ (es₃ ++ (es₄ ++ es)))) report :=
      ⟨S, hconfig, by simpa using h.between (h₁.append (h₂.append (h₃.append h₄))) seamless_nil⟩
    have htoken' := hkept.trans htoken
    split
    · exact (Setting.runTournamentStrategy_seams htoken' task).mono fun _ _ h => hwhole rfl h
    · exact (Setting.runConsensus_seams htoken' (by simp [*]) task).mono fun _ _ h => hwhole rfl h
    · exact (Setting.runConsensus_seams htoken' (by simp [*]) task).mono fun _ _ h => hwhole rfl h
  obtain ⟨S, rfl, hselection, hrecorded, hcancelled, hstopped⟩ := hseams trace report h
  have hterminal : (reportSetting X S.config options report).terminal = S.terminal := by
    funext verdict checkResult
    rw [Setting.terminal.eq_def, Setting.terminal.eq_def, ← hselection]
    rfl
  refine ⟨rfl, hrecorded, hcancelled, fun hrecord => (hstopped hrecord).imp_right (Or.imp_right (And.imp_right ?_))⟩
  rw [Setting.acceptsLast, Setting.acceptsLast, hterminal]
  exact id

/-! ### The grant -/

/-- The patch is applied, unless the run is blocked, there is none, or the classifier vetoes it. -/
def RunReport.Applies (report : RunReport) : Prop :=
  report.applied = true ∨ report.blocked = true ∨ report.finalPatch = none ∨
    report.applyClassification.any ApplyClassification.downgraded = true

theorem applyClassifierDecision_veto {X : Externals} {patch : Option NvPatch} {cfg : ApplyClassifierConfig}
    (h : (applyClassifierDecision X true patch cfg).1 = false) :
    (applyClassifierDecision X true patch cfg).2.any ApplyClassification.downgraded = true := by
  unfold applyClassifierDecision at h ⊢
  split_ifs at h ⊢ with hmode
  simpa using h

/-- What is left to apply is applied, and the consent is not asked for again. -/
theorem applyFinalPatch_applies (finalPatch : Option NvPatch) (shouldApply useWorktree : Bool) :
    (applyFinalPatch finalPatch shouldApply useWorktree).Ensures fun es applied =>
      ¬ Granted es ∧ (shouldApply = true → applied = true ∨ finalPatch = none) := by
  have hungranted := (applyFinalPatch_asks finalPatch shouldApply useWorktree).ensures
  suffices happlies : (applyFinalPatch finalPatch shouldApply useWorktree).Ensures fun _ applied =>
      shouldApply = true → applied = true ∨ finalPatch = none from
    (hungranted.and happlies).mono fun es applied ⟨hes, h⟩ => ⟨fun hgranted => (hes _ hgranted).2 rfl, h⟩
  rcases shouldApply with _ | _
  · exact ensures_pure fun h => by cases h
  rcases finalPatch with _ | patch
  · exact ensures_pure fun _ => Or.inr rfl
  have hfail {α : Type} {e : RunError} {Φ : Trace → α → Prop} : (Dialogue.fail e : RunM α).Ensures Φ := ensures_fail
  rcases useWorktree with _ | _
  · exact ensures_bind fun _ _ => ensures_bind fun _ _ => ensures_pure fun _ => Or.inl rfl
  · change (applyWithWorktree patch).Ensures _
    unfold applyWithWorktree
    refine ensures_bind fun _ _ => ensures_bind fun _ _ => ensures_bind fun _ patched => ?_
    split
    · exact ensures_bind fun _ _ => hfail
    · refine ensures_bind fun _ committed => ?_
      split
      · exact ensures_bind fun _ _ => hfail
      · exact ensures_bind fun _ _ => ensures_pure fun _ => Or.inl rfl

theorem conclude_granted {X : Externals} {task : Task} {config : Config} {selection : ProfileSelection}
    {options : RunOptions} {finalPatch : Option NvPatch} {run : Finished} :
    (conclude X task config selection options finalPatch run).Ensures fun es report => Granted es → report.Applies := by
  have hconsent : options.applyConsented.Ensures fun es consented => Granted es → consented = true := by
    unfold RunOptions.applyConsented
    split_ifs
    · exact ensures_pure fun _ => rfl
    · exact ensures_query fun granted hgranted => by simpa [Granted, eq_comm] using hgranted
    · exact ensures_pure fun h => absurd h List.not_mem_nil
  unfold conclude
  refine hconsent.bind fun es₁ consented hconsented => ?_
  refine (applyFinalPatch_applies _ _ _).bind fun es₂ applied ⟨hungranted, happlied⟩ => ensures_pure fun hgranted => ?_
  rw [List.append_nil] at hgranted
  obtain rfl := hconsented ((List.mem_append.mp hgranted).resolve_right hungranted)
  simp only [RunReport.Applies, Bool.true_and] at happlied ⊢
  generalize (run.budgetExceeded || run.noProgressExceeded || run.crossfireHalted || run.cancelled ||
    goalCheckFailed options.goal run.lastCheck || (run.finalFeedback.verdict == .acceptWithNits &&
      !(selection.reviewStrictness.permitsNits && run.lastCheck == some .pass)) ||
    isBlocked run.finalFeedback config.orchestration.conflictPolicy) = blocked at happlied ⊢
  cases blocked with
  | true => exact Or.inr (Or.inl rfl)
  | false =>
    cases hallow : (applyClassifierDecision X true finalPatch config.orchestration.applyClassifier).1 with
    | false => exact Or.inr (Or.inr (Or.inr (applyClassifierDecision_veto hallow)))
    | true => exact (happlied hallow).imp_right fun hnone => Or.inr (Or.inl hnone)

/-- Before the consent is asked for there is no grant. -/
theorem granted_bind {α : Type} {d : RunM α} {f : α → RunM RunReport} (hd : d.Asks fun q => q.stage ≠ .finish)
    (hf : ∀ a, (f a).Ensures fun es report => Granted es → report.Applies) :
    (d >>= f).Ensures fun es report => Granted es → report.Applies :=
  hd.ensures.bind fun _ a hes => (hf a).mono fun _ _ h hgranted =>
    h ((List.mem_append.mp hgranted).resolve_left fun hearly => hes _ hearly rfl)

theorem InStage.unfinished {α : Type} {stage : Stage} {d : RunM α} (h : InStage stage d) (hstage : stage ≠ .finish) :
    d.Asks fun q => q.stage ≠ .finish :=
  h.ne hstage

namespace Setting

variable {S : Setting}

theorem runConsensus_granted (task : Task) :
    (S.runConsensus task).Ensures fun es report => Granted es → report.Applies := by
  have himplement : InStage .generate (ask (.implement S.lead)) := ask_inStage rfl
  unfold runConsensus
  refine granted_bind ((collectOutputWithCrossfire_inStage himplement _ _).unfinished nofun).mapError fun _ => ?_
  refine granted_bind ((buildGoalEvaluator_inStage _).unfinished nofun) fun goal => ?_
  have hloop (s : LoopState) : (S.refinementLoop goal S.maxRefinementRounds 0 s).Asks fun q => q.stage ≠ .finish :=
    S.refinementLoop_asks (fun _ _ => (S.reviewRound_inStage _ _ _).unfinished nofun)
      (fun q hq => by rcases hq with hq | hq <;> rw [hq] <;> nofun) _ _ _
  refine granted_bind (hloop _) fun s => ?_
  exact granted_bind ((selectFinalPatch_inStage _ _ _ _).unfinished nofun) fun _ => conclude_granted

theorem runTournamentStrategy_granted (task : Task) :
    (S.runTournamentStrategy task).Ensures fun es report => Granted es → report.Applies := by
  have himplement (adapter : String) : (withContext "tournament candidate generation failed" do
      orFail (← ask (.implement adapter))).Asks fun q => q.stage ≠ .finish := askOrFail_asks _ nofun _
  unfold runTournamentStrategy
  refine granted_bind (himplement _) fun _ => granted_bind (himplement _) fun _ => ?_
  refine granted_bind ((S.judgeTournament_inStage _ _).unfinished nofun) fun _ => ?_
  refine granted_bind ((buildGoalEvaluator_inStage _).unfinished nofun) fun goal => ?_
  refine granted_bind ((runGoalCheck_inStage goal).unfinished nofun) fun _ => ?_
  refine granted_bind (asks_query nofun) fun _ => ?_
  refine granted_bind ((selectFinalPatch_inStage _ _ _ _).unfinished nofun) fun _ => ?_
  exact granted_bind ((isCancelled_inStage _).unfinished nofun) fun _ => conclude_granted

end Setting

/-- **A grant that a run reads counts**, whatever its strategy. -/
theorem runSynapticLoop_granted {X : Externals} {task : Task} {config : Config} {adapters : List String}
    {options : RunOptions} : (runSynapticLoop X task config adapters options).Ensures fun es report =>
      Granted es → report.Applies := by
  unfold runSynapticLoop
  refine granted_bind ((applyBuiltinVerifier_inStage options config).unfinished nofun) fun _ => ?_
  iterate 3 refine granted_bind (asks_ofExcept _) fun _ => ?_
  dsimp only
  split
  · exact Setting.runTournamentStrategy_granted task
  · exact Setting.runConsensus_granted task
  · exact Setting.runConsensus_granted task

end Nerve.Run
