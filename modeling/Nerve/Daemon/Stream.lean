import Nerve.Daemon.Task

/-!
# What a run says

The lines of one run, whatever comes between its task and its streamer: two for each round it has
recorded, in order, and then the terminal lines. `Told` is the invariant: what is recorded is
streamed, between its two lines, or still in the channel, and what the task has to print it prints
when the streamer is over. Every step keeps it (`Told.step`), so it holds of a run however its steps
and those of others are mixed.
-/

namespace Nerve.Daemon

open Nerve Nerve.Patch Nerve.Run Dialogue

/-! ### Steps -/

namespace Run

/-- The handles are answered as they are. -/
def Answers (run : Run) : Exchange Question Question.Answer → Prop
  | ⟨.isCancelled, b⟩ => b = run.cancel
  | ⟨.isGranted, b⟩ => b = run.consent
  | _ => True

/-- A step takes the run there, and prints the line. -/
inductive StepsTo (run : Run) : Run → Option Line → Prop
  | exchange {q : Question} {next : q.Answer → RunM RunReport} (a : q.Answer)
    (hphase : run.phase = .looping (.ask q next)) (hanswer : run.Answers ⟨q, a⟩) :
    StepsTo run { run with
      phase := .looping (next a), trace := run.trace ++ [⟨q, a⟩], queue := run.queue ++ recorded [⟨q, a⟩] } none
  | returns {report : RunReport} (hphase : run.phase = .looping (.done report)) :
    StepsTo run { run with phase := .flushing (.ok report) } none
  | fails {e : RunError} (hphase : run.phase = .looping (.fail e)) :
    StepsTo run { run with phase := .flushing (.error e) } none
  | panics {q : Question} {next : q.Answer → RunM RunReport} {diff : String}
    (hphase : run.phase = .looping (.ask q next)) (hreads : readsDiff q = true) (hpanics : Daemon.panics diff = true) :
    StepsTo run { run with phase := .panicked diff } none
  | started {round : RoundRecord} {rest : List RoundRecord} (hstreamer : run.streamer = .waiting)
    (hqueue : run.queue = round :: rest) :
    StepsTo run { run.say (roundSeamEnvelopes run.call.task.id round).1 with streamer := .ending round, queue := rest }
      (some (roundSeamEnvelopes run.call.task.id round).1)
  | ended {round : RoundRecord} (hstreamer : run.streamer = .ending round) :
    StepsTo run { run.say (roundSeamEnvelopes run.call.task.id round).2 with streamer := .waiting }
      (some (roundSeamEnvelopes run.call.task.id round).2)
  | closes (hstreamer : run.streamer = .waiting) (hqueue : run.queue = []) (hphase : run.phase.isLooping = false) :
    StepsTo run { run with streamer := .closed } none
  | concludes {outcome : Except RunError RunReport} (events : List AgentEvent) (saved : Bool)
    (hphase : run.phase = .flushing outcome) (hstreamer : run.streamer = .closed) :
    StepsTo run { run with
      persisted := if saved then outcome.toOption else none
      phase := .printing outcome events (terminalLines run.call.task.id events outcome) } none
  | prints {outcome : Except RunError RunReport} {events : List AgentEvent} {line : Line} {rest : List Line}
    (hphase : run.phase = .printing outcome events (line :: rest)) :
    StepsTo run { run.say line with phase := .printing outcome events rest } (some line)
  | finishes {outcome : Except RunError RunReport} {events : List AgentEvent}
    (hphase : run.phase = .printing outcome events []) :
    StepsTo run { run with phase := .finished outcome events } none

theorem answers_answer (run : Run) (world : (q : Question) → q.Answer) (q : Question) :
    run.Answers ⟨q, run.answer world q⟩ := by
  cases q <;> trivial

theorem stepsTo_of_step {run run' : Run} {action : RunAction} {line : Option Line}
    (h : run.step action = some (run', line)) : run.StepsTo run' line := by
  cases action with
  | advance world =>
    simp only [step, advance] at h
    split at h
    · next hphase =>
      cases h
      exact .exchange _ hphase (run.answers_answer world _)
    · next hphase =>
      cases h
      exact .returns hphase
    · next hphase =>
      cases h
      exact .fails hphase
    · cases h
  | panic diff =>
    simp only [step, panic] at h
    split at h
    · next hphase =>
      split_ifs at h with hpanics
      cases h
      obtain ⟨hreads, hpanics⟩ := Bool.and_eq_true_iff.mp hpanics
      exact .panics hphase hreads hpanics
    · cases h
  | stream =>
    simp only [step, stream] at h
    split at h
    · next hstreamer hqueue =>
      cases h
      exact .started hstreamer hqueue
    · next hstreamer hqueue =>
      split_ifs at h with hphase
      cases h
      exact .closes hstreamer hqueue (by simpa using hphase)
    · next hstreamer =>
      cases h
      exact .ended hstreamer
    · cases h
  | conclude events saved =>
    simp only [step, conclude] at h
    split at h
    · next hphase hstreamer =>
      cases h
      exact .concludes events saved hphase hstreamer
    · cases h
  | print =>
    simp only [step, print] at h
    split at h
    · next hphase =>
      cases h
      exact .prints hphase
    · next hphase =>
      cases h
      exact .finishes hphase
    · cases h

variable {run run' : Run} {line : Option Line}

theorem StepsTo.call_eq (h : run.StepsTo run' line) : run'.call = run.call := by cases h <;> rfl

theorem StepsTo.consent_eq (h : run.StepsTo run' line) : run'.consent = run.consent := by cases h <;> rfl

theorem StepsTo.cancel_eq (h : run.StepsTo run' line) : run'.cancel = run.cancel := by cases h <;> rfl

theorem StepsTo.printed_eq (h : run.StepsTo run' line) : run'.printed = run.printed ++ line.toList := by
  cases h <;> simp [say]

/-- A step adds at most one exchange, in which the handles are answered as they are. -/
theorem StepsTo.trace_eq (h : run.StepsTo run' line) : ∃ es, run'.trace = run.trace ++ es ∧ ∀ x ∈ es, run.Answers x := by
  cases h with
  | exchange a _ hanswer => exact ⟨[_], rfl, by simpa using hanswer⟩
  | _ => exact ⟨[], (List.append_nil _).symm, by simp⟩

/-- What is over stays over. -/
theorem StepsTo.isFinished (h : run.StepsTo run' line) (hfinished : run.isFinished = true) : run'.isFinished = true := by
  cases h with
  | started | ended | closes => exact hfinished
  | _ => simp_all [Run.isFinished]

end Run

/-! ### What has been said -/

/-- The round whose lines are not both there. -/
def Streamer.between : Streamer → List RoundRecord
  | ending round => [round]
  | waiting | closed => []

/-- The one line of it. -/
def Streamer.half (sessionId : String) : Streamer → List Line
  | ending round => [(roundSeamEnvelopes sessionId round).1]
  | waiting | closed => []

/-- The lines of the rounds. -/
def seamLines (sessionId : String) (rounds : List RoundRecord) : List Line :=
  rounds.flatMap fun round => [(roundSeamEnvelopes sessionId round).1, (roundSeamEnvelopes sessionId round).2]

namespace Phase

/-- The terminal lines are printed, or will be. -/
def isPrinting : Phase → Bool
  | printing _ _ _ | finished _ _ => true
  | _ => false

def terminal (sessionId : String) : Phase → List Line
  | printing outcome events _ | finished outcome events => terminalLines sessionId events outcome
  | _ => []

/-- The terminal lines that are not printed. -/
def rest : Phase → List Line
  | printing _ _ rest => rest
  | _ => []

theorem terminal_eq_nil {phase : Phase} (h : phase.isPrinting = false) (sessionId : String) :
    phase.terminal sessionId = [] := by
  cases phase with
  | printing | finished => cases h
  | _ => rfl

end Phase

theorem seamLines_concat (sessionId : String) (rounds : List RoundRecord) (round : RoundRecord) :
    seamLines sessionId (rounds ++ [round]) = seamLines sessionId rounds ++
      [(roundSeamEnvelopes sessionId round).1] ++ [(roundSeamEnvelopes sessionId round).2] := by
  simp [seamLines]

/-- What a run has said agrees with how far it is. -/
structure Told (X : Externals) (run : Run) : Prop where
  looping : ∀ rest, run.phase = .looping rest → Leads (loop X run.call) run.trace rest
  outcome : ∀ outcome, run.phase.outcome? = some outcome → Runs (loop X run.call) run.trace outcome
  persisted : ∀ report, run.persisted = some report → run.phase.outcome? = some (.ok report)
  closed : run.streamer = .closed → run.queue = [] ∧ run.phase.isLooping = false
  printing : run.phase.isPrinting = true → run.streamer = .closed
  lines : ∃ streamed told, recorded run.trace = streamed ++ run.streamer.between ++ run.queue ∧
    told ++ run.phase.rest = run.phase.terminal run.call.task.id ∧
    run.printed = seamLines run.call.task.id streamed ++ run.streamer.half run.call.task.id ++ told

theorem told_spawn (X : Externals) (call : Session.LoopCall) : Told X (.spawn X call) where
  looping rest h := by
    cases h
    exact .start
  outcome _ h := by cases h
  persisted _ h := by cases h
  closed h := by cases h
  printing h := by cases h
  lines := ⟨[], [], rfl, rfl, rfl⟩

theorem Told.setHandle {X : Externals} {run : Run} (h : Told X run) (handle : Handle) : Told X (run.setHandle handle) := by
  cases handle <;> exact ⟨h.looping, h.outcome, h.persisted, h.closed, h.printing, h.lines⟩

/-- While the streamer is there, no terminal line is printed. -/
theorem Told.streaming {X : Externals} {run : Run} (h : Told X run) (hstreamer : run.streamer ≠ .closed) :
    run.phase.isPrinting = false ∧ ∃ streamed, recorded run.trace = streamed ++ run.streamer.between ++ run.queue ∧
      run.printed = seamLines run.call.task.id streamed ++ run.streamer.half run.call.task.id := by
  have hprinting : run.phase.isPrinting = false := Bool.eq_false_iff.mpr fun hp => hstreamer (h.printing hp)
  obtain ⟨streamed, told, hrecorded, htold, hprinted⟩ := h.lines
  rw [Phase.terminal_eq_nil hprinting] at htold
  obtain ⟨rfl, -⟩ := List.append_eq_nil_iff.mp htold
  exact ⟨hprinting, streamed, hrecorded, by rw [hprinted, List.append_nil]⟩

/-- In the loop nothing is saved, the streamer is not over, and no terminal line is there. -/
theorem Told.inLoop {X : Externals} {run : Run} (h : Told X run) {rest : RunM RunReport}
    (hphase : run.phase = .looping rest) :
    run.persisted = none ∧ run.streamer ≠ .closed := by
  constructor
  · rw [Option.eq_none_iff_forall_ne_some]
    intro report hreport
    have := h.persisted report hreport
    rw [hphase] at this
    cases this
  · intro hstreamer
    have := (h.closed hstreamer).2
    rw [hphase] at this
    cases this

/-- The task leaves its loop. -/
theorem Told.leave {X : Externals} {run : Run} (h : Told X run) {rest : RunM RunReport} (hlooping : run.phase = .looping rest)
    {phase : Phase} (hloop : phase.isLooping = false) (hprinting : phase.isPrinting = false) (hrest : phase.rest = [])
    (houtcome : ∀ outcome, phase.outcome? = some outcome → Runs (loop X run.call) run.trace outcome) :
    Told X { run with phase := phase } where
  looping rest hphase := by
    cases hphase
    cases hloop
  outcome := houtcome
  persisted report hreport := by
    rw [(h.inLoop hlooping).1] at hreport
    cases hreport
  closed hstreamer := absurd hstreamer (h.inLoop hlooping).2
  printing hp := by
    rw [hprinting] at hp
    cases hp
  lines := by
    obtain ⟨-, streamed, hrecorded, hprinted⟩ := h.streaming (h.inLoop hlooping).2
    refine ⟨streamed, [], hrecorded, ?_, by rw [hprinted, List.append_nil]⟩
    rw [hrest, Phase.terminal_eq_nil hprinting]
    rfl

/-- The streamer goes on, the task stays where it is. -/
theorem Told.stream {X : Externals} {run : Run} (h : Told X run) (hopen : run.streamer ≠ .closed) {streamer : Streamer}
    {queue : List RoundRecord} {printed : List Line} (hclosed : streamer = .closed → queue = [] ∧ run.phase.isLooping = false)
    (hlines : ∃ streamed, recorded run.trace = streamed ++ streamer.between ++ queue ∧
      printed = seamLines run.call.task.id streamed ++ streamer.half run.call.task.id) :
    Told X { run with streamer := streamer, queue := queue, printed := printed } where
  looping := h.looping
  outcome := h.outcome
  persisted := h.persisted
  closed := hclosed
  printing hp := absurd (h.printing hp) hopen
  lines := by
    obtain ⟨streamed, hrecorded, hprinted⟩ := hlines
    obtain ⟨_, told, -, htold, -⟩ := h.lines
    have hnil := Phase.terminal_eq_nil (h.streaming hopen).1 run.call.task.id
    obtain ⟨rfl, hrest⟩ := List.append_eq_nil_iff.mp (htold.trans hnil)
    exact ⟨streamed, [], hrecorded, htold, by rw [hprinted, List.append_nil]⟩

/-- The task goes on behind the streamer. -/
theorem Told.print {X : Externals} {run : Run} (h : Told X run) (hclosed : run.streamer = .closed)
    {outcome : Except RunError RunReport} (houtcome : run.phase.outcome? = some outcome) {phase : Phase}
    (hphase : phase.outcome? = some outcome) {persisted : Option RunReport}
    (hpersisted : ∀ report, persisted = some report → outcome = .ok report) {said : List Line}
    (hlines : ∀ streamed told, told ++ run.phase.rest = run.phase.terminal run.call.task.id →
      run.printed = seamLines run.call.task.id streamed ++ told →
      ∃ told', told' ++ phase.rest = phase.terminal run.call.task.id ∧
        said = seamLines run.call.task.id streamed ++ told') :
    Told X { run with phase := phase, persisted := persisted, printed := said } where
  looping rest hp := by
    cases hp
    cases hphase
  outcome o ho := by
    rw [hphase] at ho
    cases ho
    exact h.outcome outcome houtcome
  persisted report hr := by rw [hphase, hpersisted report hr]
  closed _ := by
    refine ⟨(h.closed hclosed).1, ?_⟩
    cases phase with
    | looping => cases hphase
    | _ => rfl
  printing _ := hclosed
  lines := by
    obtain ⟨streamed, told, hrecorded, htold, hprinted⟩ := h.lines
    rw [hclosed] at hprinted
    obtain ⟨told', htold', hsaid⟩ := hlines streamed told htold (by simpa [Streamer.half] using hprinted)
    exact ⟨streamed, told', hrecorded, htold', by simp [hsaid, hclosed, Streamer.half]⟩

/-- **Every step keeps it.** -/
theorem Told.step {X : Externals} {run run' : Run} {line : Option Line} (h : Told X run) (hstep : run.StepsTo run' line) :
    Told X run' := by
  have hsaved {outcome : Except RunError RunReport} {events : List AgentEvent} {rest : List Line} {report : RunReport}
      (hphase : run.phase = .printing outcome events rest) (hr : run.persisted = some report) : outcome = .ok report := by
    have hreport := h.persisted report hr
    rw [hphase] at hreport
    exact Option.some.inj hreport
  cases hstep with
  | @exchange q next a hlooping hanswer =>
    obtain ⟨hpersisted, hopen⟩ := h.inLoop hlooping
    obtain ⟨-, streamed, hrecorded, hprinted⟩ := h.streaming hopen
    refine ⟨?_, ?_, ?_, fun hs => absurd hs hopen, ?_, streamed, [], ?_, rfl, ?_⟩
    · rintro rest hrest
      cases hrest
      exact (h.looping _ hlooping).ask a
    · rintro outcome houtcome
      cases houtcome
    · intro report hreport
      rw [show run.persisted = some report from hreport] at hpersisted
      cases hpersisted
    · rintro hp
      cases hp
    · simp [hrecorded]
    · rw [List.append_nil]
      exact hprinted
  | returns hlooping =>
    refine h.leave hlooping rfl rfl rfl fun outcome houtcome => ?_
    cases houtcome
    exact (h.looping _ hlooping).runs_done
  | fails hlooping =>
    refine h.leave hlooping rfl rfl rfl fun outcome houtcome => ?_
    cases houtcome
    exact (h.looping _ hlooping).runs_fail
  | panics hlooping =>
    refine h.leave hlooping rfl rfl rfl fun outcome houtcome => ?_
    cases houtcome
  | started hstreamer hqueue =>
    have hopen : run.streamer ≠ .closed := by simp [hstreamer]
    obtain ⟨-, streamed, hrecorded, hprinted⟩ := h.streaming hopen
    rw [hstreamer, hqueue] at hrecorded
    rw [hstreamer] at hprinted
    refine h.stream hopen (fun hc => by cases hc) ⟨streamed, ?_, ?_⟩
    · simpa [Streamer.between] using hrecorded
    · simp [Run.say, hprinted, Streamer.half]
  | @ended round hstreamer =>
    have hopen : run.streamer ≠ .closed := by simp [hstreamer]
    obtain ⟨-, streamed, hrecorded, hprinted⟩ := h.streaming hopen
    rw [hstreamer] at hrecorded hprinted
    refine h.stream hopen (fun hc => by cases hc) ⟨streamed ++ [round], ?_, ?_⟩
    · simpa [Streamer.between, Run.say] using hrecorded
    · simp [Run.say, hprinted, Streamer.half, seamLines_concat]
  | closes hstreamer hqueue hphase =>
    have hopen : run.streamer ≠ .closed := by simp [hstreamer]
    obtain ⟨-, streamed, hrecorded, hprinted⟩ := h.streaming hopen
    rw [hstreamer] at hrecorded hprinted
    exact h.stream hopen (fun _ => ⟨hqueue, hphase⟩) ⟨streamed, hrecorded, hprinted⟩
  | @concludes outcome events saved hphase hstreamer =>
    refine h.print hstreamer (by rw [hphase]; rfl) rfl (fun report hr => ?_) fun streamed told htold hprinted => ?_
    · rcases saved with _ | _
      · cases hr
      · rcases outcome with e | report'
        · cases hr
        · exact congrArg _ (Option.some.inj hr)
    · rw [hphase] at htold
      obtain ⟨rfl, -⟩ := List.append_eq_nil_iff.mp htold
      exact ⟨[], rfl, hprinted⟩
  | prints hphase =>
    refine h.print (h.printing (by rw [hphase]; rfl)) (by rw [hphase]; rfl) rfl (fun report hr => ?_)
      fun streamed told htold hprinted => ?_
    · exact hsaved hphase hr
    · rw [hphase] at htold
      exact ⟨told ++ [_], by simpa [Phase.rest, Phase.terminal] using htold, by simp [Run.say, hprinted]⟩
  | finishes hphase =>
    refine h.print (h.printing (by rw [hphase]; rfl)) (by rw [hphase]; rfl) rfl (fun report hr => ?_)
      fun streamed told htold hprinted => ?_
    · exact hsaved hphase hr
    · rw [hphase] at htold
      exact ⟨told, htold, hprinted⟩

/-! ### Whom the lines name -/

/-- What a line acknowledges: the handles that were set, and of which runs. -/
def Line.acks : Line → List (Handle × String)
  | approveAck id true => [(.consent, id)]
  | cancelAck id true => [(.cancel, id)]
  | cancelAllAck counted => counted.map (Handle.cancel, ·)
  | _ => []

theorem runId_of_mem_seamLines {sessionId : String} {rounds : List RoundRecord} {line : Line}
    (h : line ∈ seamLines sessionId rounds) : line.runId = some sessionId ∧ line.isTerminal = false := by
  obtain ⟨round, -, hline⟩ := List.mem_flatMap.mp h
  simp only [List.mem_cons, List.not_mem_nil, or_false] at hline
  rcases hline with rfl | rfl <;> exact ⟨rfl, rfl⟩

theorem runId_of_mem_agentEventToEnvelopes {event : AgentEvent} {leadId : String} {line : Line}
    (h : line ∈ agentEventToEnvelopes event leadId) : line.runId = none ∧ line.acks = [] := by
  cases event with
  | done => cases h
  | _ =>
    obtain rfl := List.mem_singleton.mp h
    exact ⟨rfl, rfl⟩

/-- The terminal lines name their run, or none, and acknowledge nothing. -/
theorem runId_of_mem_terminalLines {sessionId : String} {events : List AgentEvent} {outcome : Except RunError RunReport}
    (htask : ∀ report, outcome = .ok report → report.task.id = sessionId) {line : Line}
    (h : line ∈ terminalLines sessionId events outcome) :
    (line.runId = none ∨ line.runId = some sessionId) ∧ line.acks = [] := by
  rcases outcome with e | report
  · obtain rfl := List.mem_singleton.mp h
    exact ⟨Or.inr rfl, rfl⟩
  · obtain rfl := htask report rfl
    simp only [terminalLines, emitTerminalEnvelopes, emitReportEvents, List.mem_append, List.mem_cons, List.mem_map,
      List.mem_flatMap, Option.mem_toList, Option.map_eq_some_iff, List.not_mem_nil, or_false] at h
    rcases h with ((((((rfl | rfl) | ⟨_, -, rfl⟩) | rfl | rfl | rfl | rfl) | ⟨_, -, h⟩) | rfl) | ⟨_, -, rfl⟩) | rfl | rfl
    all_goals first
      | exact ⟨Or.inr rfl, rfl⟩
      | exact (runId_of_mem_agentEventToEnvelopes h).imp_left Or.inl

/-- There is one `session.ended`, and it has the report's decision. -/
theorem filter_isSessionEnded (report : RunReport) (events : List AgentEvent) :
    (emitTerminalEnvelopes report events).filter Line.isSessionEnded =
      [.sessionEnded report.task.id report.finalFeedback.verdict report.applied report.blocked report.crossfireHalted
        report.cancelled (applyDowngraded report) (patchId report)] := by
  have hagent (event : AgentEvent) :
      (agentEventToEnvelopes event report.selection.lead).filter Line.isSessionEnded = [] := by
    cases event <;> rfl
  have hevents : (events.map (Line.leadEvent report.task.id)).filter Line.isSessionEnded = [] :=
    List.filter_eq_nil_iff.mpr (by simp [Line.isSessionEnded])
  have hpatch : ((report.finalPatch.map fun p =>
      Line.patchSettled report.applied report.task.id p.id p.files.length report.blocked).toList).filter
        Line.isSessionEnded = [] := by
    rcases report.finalPatch with _ | p <;> rfl
  have hall : List.flatMap (fun event =>
      (agentEventToEnvelopes event report.selection.lead).filter Line.isSessionEnded) events = [] := by simp [hagent]
  simp only [emitTerminalEnvelopes, emitReportEvents, List.filter_append, List.filter_flatMap, hevents, hpatch, hall]
  rfl

/-- The terminal group ends the run's lines. -/
theorem exists_isTerminal (sessionId : String) (events : List AgentEvent) (outcome : Except RunError RunReport)
    (htask : ∀ report, outcome = .ok report → report.task.id = sessionId) :
    ∃ line ∈ terminalLines sessionId events outcome, line.isTerminal = true ∧ line.runId = some sessionId := by
  rcases outcome with e | report
  · exact ⟨_, List.mem_singleton_self _, rfl, rfl⟩
  · obtain rfl := htask report rfl
    have hended := List.mem_singleton_self (Line.sessionEnded report.task.id report.finalFeedback.verdict report.applied
      report.blocked report.crossfireHalted report.cancelled (applyDowngraded report) (patchId report))
    rw [← filter_isSessionEnded report events, List.mem_filter] at hended
    exact ⟨_, hended.1, rfl, rfl⟩

/-- The report of a run is of its task. -/
theorem Told.report_task {X : Externals} {run : Run} (h : Told X run) {report : RunReport}
    (houtcome : run.phase.outcome? = some (.ok report)) : report.task = run.call.task :=
  runSynapticLoop_task _ _ _ _ _ _ _ (h.outcome _ houtcome)

/-- What a run prints names it, or no run, and acknowledges nothing. -/
theorem Told.runId_line {X : Externals} {run run' : Run} {line : Line} (h : Told X run)
    (hstep : run.StepsTo run' (some line)) :
    (line.runId = none ∨ line.runId = some run.call.task.id) ∧ line.acks = [] := by
  cases hstep with
  | started | ended => exact ⟨Or.inr rfl, rfl⟩
  | @prints outcome events line rest hphase =>
    obtain ⟨_, told, -, htold, -⟩ := h.lines
    rw [hphase] at htold
    refine runId_of_mem_terminalLines (fun report hreport => ?_) (htold ▸ List.mem_append_right _ List.mem_cons_self)
    exact congrArg Task.id (h.report_task (by rw [hphase, hreport]; rfl))

end Nerve.Daemon
