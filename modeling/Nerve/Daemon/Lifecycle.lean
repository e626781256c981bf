import Nerve.Daemon.Shutdown
import Nerve.Patch.ParseSafety

/-!
# The lifecycle lines of a run

A consumer of stdout follows a run by its identifier: one `session.started`, the two lines of each
round, and the terminal group. The lines on stdout that name a run are the first, printed by the
read loop before the run is there, and then what the run itself has said (`Announces`): no other run
names it, since identifiers are fresh. So the lifecycle is the run's own matter, and it is whole
unless its task panics, which ends it without a word.
-/

namespace Nerve.Daemon

open Nerve Nerve.Patch Nerve.Run Nerve.Session Dialogue TransitionSystem

variable {D : Setup}

/-! ### The lines of a run -/

def Line.names (runId : String) (line : Line) : Bool := line.runId == some runId

/-- The lines on stdout that name the run. -/
def Shared.linesOf (s : Shared) (runId : String) : List Line := s.stdout.filter (Line.names runId)

def startedLine (task : Task) (selection : ProfileSelection) : Line :=
  .sessionStarted task.id task.prompt selection.lead selection.reviewer

/-- Every line is text, and no command but `prompt` is on any. -/
def PromptsOnly (D : Setup) (stdin : List UInt8) : Prop :=
  ∀ line ∈ stdinLines stdin, decode line ≠ none ∧
    ∀ command, commandOf D line = some command → ∃ prompt, command = .prompt prompt

/-- The lines of a run whose loop has come to the outcome: it was started, each round it recorded
has its two lines, in order, and the terminal group follows; the report, if there is one, has just
these rounds, and what the one `session.ended` says. -/
structure Lifecycle (D : Setup) (run : Run) (outcome : Except RunError RunReport) (lines : List Line) : Prop where
  returned : Runs (loop D.externals run.call) run.trace outcome
  told : ∃ selection events, run.call.config.selectProfile D.externals.ruleMatches run.call.task = .ok selection ∧
    lines = startedLine run.call.task selection :: seamLines run.call.task.id (recorded run.trace) ++
      (terminalLines run.call.task.id events outcome).filter (Line.names run.call.task.id)
  rounds : ∀ report, outcome = .ok report → report.rounds = recorded run.trace
  persisted : ∀ report saved, outcome = .ok report → run.persisted = some saved → saved = report
  ended : ∀ report, outcome = .ok report → lines.filter Line.isSessionEnded =
    [.sessionEnded run.call.task.id report.finalFeedback.verdict report.applied report.blocked report.crossfireHalted
      report.cancelled (applyDowngraded report) (patchId report)]

/-! ### The read loop announces -/

/-- The identifier for the run to come, and the line that has announced it. -/
structure Announced where
  fresh : Option String
  line : Option Line

/-- A line that names a run announces a fresh one, which is started next. -/
def announce (D : Setup) : Protocol Op Op.Answer Announced where
  may g op :=
    match op with
    | .world => g.line = none
    | .println line => line.runId = none ∨ g.line = none ∧ ∃ id, line.runId = some id ∧ g.fresh = some id
    | .spawn call => g.fresh = some call.task.id ∧ call.options = daemonOptions D ∧ ∃ selection,
        call.config.selectProfile D.externals.ruleMatches call.task = .ok selection ∧
          g.line = some (startedLine call.task selection)
    | _ => True
  hears _ _ _ := True
  next g op answer :=
    match op, answer with
    | .world, w => ⟨some (w.taskId 0), none⟩
    | .println line, _ => if line.runId = none then g else { g with line := some line }
    | .spawn _, _ => ⟨none, none⟩
    | _, _ => g

theorem daemonOptions_cancelToken (D : Setup) : (daemonOptions D).cancelToken = true := by
  unfold daemonOptions
  split <;> rfl

/-- Nothing is announced that is not started. -/
def Settled {α : Type} (g : Announced) (_ : Except RunError α) : Prop := g.line = none

theorem retainUnfinished_settled (ids : Registry) {g : Announced} (hg : g.line = none) :
    (retainUnfinished ids).Follows (announce D) Settled g := by
  induction ids generalizing g with
  | nil => exact follows_pure hg
  | cons id ids ih =>
    refine follows_query_bind trivial fun finished _ => ?_
    exact (ih hg).bind (fun _ _ h => follows_pure h) fun _ _ h => h

theorem spawnStreamingRun_settled (prompt : String) (registry : Registry) {g : Announced} (hg : g.line = none) :
    (spawnStreamingRun D prompt registry).Follows (announce D) Settled g := by
  refine follows_query_bind hg fun w _ => ?_
  refine follows_ofExcept_bind (fun cwd _ => ?_) fun _ _ => rfl
  refine follows_ofExcept_bind (fun loaded _ => ?_) fun _ _ => rfl
  refine follows_ofExcept_bind (fun selection hselection => ?_) fun _ _ => rfl
  refine follows_query_bind (Or.inr ⟨rfl, _, rfl, rfl⟩) fun _ _ => ?_
  refine follows_query_bind ⟨rfl, rfl, selection, hselection, rfl⟩ fun _ _ => ?_
  refine follows_query_bind trivial fun ids _ => ?_
  exact (retainUnfinished_settled ids rfl).bind (fun _ _ h => follows_pure h) fun _ _ h => h

theorem handleLine_settled {line : List UInt8} {text : List Char} (hdecode : decode line = some text)
    (hprompt : ∀ command, commandOf D line = some command → ∃ prompt, command = .prompt prompt) (registry : Registry)
    {g : Announced} (hg : g.line = none) :
    (handleLine D (Text.trim text) registry).Follows (announce D) Settled g := by
  have hprint (message : String) {g : Announced} (hg : g.line = none) :
      (println (.error message) >>= fun _ => pure registry).Follows (announce D) Settled g :=
    follows_query_bind (Or.inl rfl) fun _ _ => follows_pure hg
  unfold handleLine
  split
  · exact hprint _ hg
  · next value hvalue =>
    have hcommand : (handleRpcCommand D value registry).Follows (announce D) Settled g := by
      refine follows_ofExcept_bind (fun command hread => ?_) fun _ _ => hg
      obtain ⟨prompt, rfl⟩ := hprompt command (by simp [commandOf, hdecode, hvalue, hread, Except.toOption])
      exact spawnStreamingRun_settled prompt registry hg
    refine hcommand.attempt.bind (fun g' r hattempt => ?_) (by simp)
    obtain ⟨x, hx, hg'⟩ := hattempt
    cases hx
    cases r with
    | ok registry' => exact follows_pure hg'
    | error e => exact hprint _ hg'

theorem readLoop_settled {lines : List (List UInt8)} (hprompts : ∀ line ∈ lines, decode line ≠ none ∧
      ∀ command, commandOf D line = some command → ∃ prompt, command = .prompt prompt) (registry : Registry)
    {g : Announced} (hg : g.line = none) : (readLoop D lines registry).Follows (announce D) Settled g := by
  induction lines generalizing registry g with
  | nil => exact follows_pure hg
  | cons line lines ih =>
    obtain ⟨⟨htext, hprompt⟩, hlater⟩ := List.forall_mem_cons.mp hprompts
    refine follows_query_bind trivial fun _ _ => ?_
    rcases hdecode : decode line with _ | text
    · exact absurd hdecode htext
    by_cases hblank : (Text.trim text).isEmpty = true
    · simp only [hblank, if_true]
      exact ih hlater registry hg
    · simp only [hblank, if_false, Bool.false_eq_true]
      refine (handleLine_settled hdecode hprompt registry hg).bind (fun g' registry' hg' => ?_) fun _ _ h => h
      split_ifs
      · exact follows_pure hg'
      · exact ih hlater registry' hg'

theorem shutdown_settled (registry : Registry) {g : Announced} (hg : g.line = none) :
    (shutdown registry).Follows (announce D) Settled g := by
  have hawait (ids : List String) : (awaitAll ids).Follows (announce D) Settled g := by
    induction ids with
    | nil => exact follows_pure hg
    | cons id ids ih => exact follows_query_bind trivial fun _ _ => ih
  refine follows_query_bind trivial fun ids _ => (hawait ids).bind (fun g _ hg => ?_) fun _ _ h => h
  refine follows_query_bind trivial fun reclaimed _ => ?_
  cases reclaimed with
  | false => exact follows_pure hg
  | true => exact ⟨trivial, fun answer _ => by cases answer <;> exact hg⟩

theorem runRpcDaemon_settled {stdin : List UInt8} (hprompts : PromptsOnly D stdin) :
    (runRpcDaemon D (stdinLines stdin)).Follows (announce D) Settled ⟨none, none⟩ := by
  have hloop : (readLoop D (stdinLines stdin) [] >>= shutdown).Follows (announce D) Settled ⟨none, none⟩ :=
    (readLoop_settled hprompts [] rfl).bind (fun _ registry hg => shutdown_settled registry hg) fun _ _ h => h
  unfold runRpcDaemon printBearer
  split_ifs
  · exact follows_query_bind (Or.inl rfl) fun _ _ => hloop
  · exact hloop

/-! ### What stands on stdout -/

theorem Shared.linesOf_say (s : Shared) (line : Line) (runId : String) :
    (s.say line).linesOf runId = s.linesOf runId ++ if line.runId = some runId then [line] else [] := by
  simp only [Shared.linesOf, Shared.say, List.filter_append, List.filter_cons, List.filter_nil, Line.names, beq_iff_eq]

theorem Shared.linesOf_stepped (s : Shared) (runId : String) (run : Run) (line : Option Line) (id : String) :
    (s.stepped runId run line).linesOf id = s.linesOf id ++ line.toList.filter (Line.names id) := by
  rw [Shared.linesOf, Shared.stdout_stepped, List.filter_append]
  rfl

/-- The lines that name a run are the announcement, and what the run has said. -/
structure Announces (D : Setup) (g : Announced) (s : Shared) : Prop where
  told : EveryRun (ToldUnder D) s
  spawned : ∀ id run, s.runs id = some run → id ∈ s.spawned
  fresh : ∀ id, g.fresh = some id → id ∉ s.spawned
  announced : ∀ line, g.line = some line → line.runId = g.fresh
  started : ∀ id run, s.runs id = some run → run.call.options = daemonOptions D ∧ ∃ selection,
    run.call.config.selectProfile D.externals.ruleMatches run.call.task = .ok selection ∧
      s.linesOf id = startedLine run.call.task selection :: run.printed.filter (Line.names id)
  silent : ∀ id, s.runs id = none → s.linesOf id = g.line.toList.filter (Line.names id)

theorem filter_names_startedLine (task : Task) (selection : ProfileSelection) (id : String) :
    [startedLine task selection].filter (Line.names id) = if task.id = id then [startedLine task selection] else [] := by
  simp [List.filter_cons, Line.names, startedLine, Line.runId]

theorem Announces.println {g : Announced} {s : Shared} (h : Announces D g s) {line : Line}
    (hmay : (announce D).may g (.println line)) (htold : EveryRun (ToldUnder D) (s.say line)) :
    Announces D ((announce D).next g (.println line) ()) (s.say line) := by
  obtain hnone | ⟨hline, id, hid, hfresh⟩ := hmay
  · have hsame (id : String) : (s.say line).linesOf id = s.linesOf id := by simp [Shared.linesOf_say, hnone]
    have hg : (announce D).next g (.println line) () = g := if_pos hnone
    rw [hg]
    exact ⟨htold, h.spawned, h.fresh, h.announced, fun id run hrun => by rw [hsame]; exact h.started id run hrun,
      fun id hrun => by rw [hsame]; exact h.silent id hrun⟩
  · have hg : (announce D).next g (.println line) () = { g with line := some line } := if_neg (by simp [hid])
    rw [hg]
    refine ⟨htold, h.spawned, h.fresh, fun l hl => ?_, fun other run hrun => ?_, fun other hrun => ?_⟩
    · cases hl
      exact hid.trans hfresh.symm
    · -- The identifier is fresh, so the line does not name the run.
      have hne : id ≠ other := fun heq => h.fresh id hfresh (heq ▸ h.spawned other run hrun)
      rw [Shared.linesOf_say, hid, if_neg (by simpa using hne), List.append_nil]
      exact h.started other run hrun
    · rw [Shared.linesOf_say, h.silent other hrun, hline]
      simp [List.filter_cons, Line.names]

theorem Announces.spawn {g : Announced} {s : Shared} (h : Announces D g s) {call : LoopCall}
    (hmay : (announce D).may g (.spawn call)) (htold : EveryRun (ToldUnder D) (s.spawn D call))
    (hspawned : Listed (s.spawn D call)) : Announces D ⟨none, none⟩ (s.spawn D call) := by
  obtain ⟨hfresh, hoptions, selection, hselection, hline⟩ := hmay
  have hnone : s.runs call.task.id = none := by
    rw [Option.eq_none_iff_forall_ne_some]
    exact fun run hrun => h.fresh _ hfresh (h.spawned _ run hrun)
  refine ⟨htold, hspawned, (fun _ hid => by cases hid), (fun _ hl => by cases hl),
    fun id run hrun => ?_, fun id hrun => ?_⟩ <;> rw [Shared.runs_spawn] at hrun
  · split_ifs at hrun with hid
    · cases hrun
      refine ⟨hoptions, selection, hselection, ?_⟩
      have hsilent := h.silent _ hnone
      rw [hline, Option.toList_some, filter_names_startedLine, if_pos rfl] at hsilent
      rw [hid]
      exact hsilent
    · exact h.started id run hrun
  · split_ifs at hrun with hid
    have hsilent := h.silent id hrun
    rw [hline, Option.toList_some, filter_names_startedLine, if_neg (Ne.symm hid)] at hsilent
    exact hsilent

theorem Announces.performs {g : Announced} {s s' : Shared} {op : Op} {answer : op.Answer} (h : Announces D g s)
    (hmay : (announce D).may g op) (hperforms : Performs D s op answer s') :
    Announces D ((announce D).next g op answer) s' := by
  have htold := told_performs h.told hperforms
  have hspawned := listed_performs h.spawned hperforms
  cases hperforms with
  | println line => exact h.println hmay htold
  | world w hfresh =>
    have hline : g.line = none := hmay
    refine ⟨htold, h.spawned, fun id hid => ?_, (fun _ hl => by cases hl), h.started, fun id hid => ?_⟩
    · cases hid
      exact hfresh
    · rw [h.silent id hid, hline]
      rfl
  | spawn call => exact h.spawn hmay htold hspawned
  | setHandle handle runId =>
    have hsame (id : String) : (s.modifyRun runId (Run.setHandle handle)).linesOf id = s.linesOf id := by
      rw [Shared.linesOf, Shared.stdout_modifyRun]
      rfl
    -- The run was there before, and has the same call and the same lines.
    have hbefore {id : String} {run' : Run} (hrun' : (s.modifyRun runId (Run.setHandle handle)).runs id = some run') :
        ∃ run, s.runs id = some run ∧ run'.call = run.call ∧ run'.printed = run.printed := by
      rw [Shared.runs_modifyRun] at hrun'
      split_ifs at hrun' with hid
      · obtain ⟨run, hrun, rfl⟩ := Option.map_eq_some_iff.mp hrun'
        exact ⟨run, hrun, by cases handle <;> exact ⟨rfl, rfl⟩⟩
      · exact ⟨run', hrun', rfl, rfl⟩
    refine ⟨htold, hspawned, fun id hid => ?_, h.announced, fun id run' hrun' => ?_, fun id hrun => ?_⟩
    · rw [Shared.spawned_modifyRun]
      exact h.fresh id hid
    · obtain ⟨run, hrun, hcall, hprinted⟩ := hbefore hrun'
      rw [hsame, hcall, hprinted]
      exact h.started id run hrun
    · rw [Shared.runs_modifyRun] at hrun
      rw [hsame]
      split_ifs at hrun with hid
      · exact h.silent id (Option.map_eq_none_iff.mp hrun)
      · exact h.silent id hrun
  | _ => exact ⟨htold, h.spawned, h.fresh, h.announced, h.started, h.silent⟩

theorem Announces.stepped {g : Announced} {s : Shared} {runId : String} {run run' : Run} {line : Option Line}
    (h : Announces D g s) (hrun : s.runs runId = some run) (hstep : run.StepsTo run' line) :
    Announces D g (s.stepped runId run' line) := by
  obtain ⟨hcall, htold⟩ := h.told runId run hrun
  -- The line names this run or none.
  have hnames {id : String} (hne : id ≠ runId) : line.toList.filter (Line.names id) = [] := by
    rcases line with _ | line
    · rfl
    · have hline := (htold.runId_line hstep).1
      rw [hcall] at hline
      rcases hline with hline | hline <;> simp [Line.names, hline, Ne.symm hne]
  refine ⟨told_stepped h.told hrun hstep, listed_stepped h.spawned hrun, fun id hid => ?_, h.announced,
    fun id found hfound => ?_, fun id hnone => ?_⟩
  · rw [Shared.spawned_stepped]
    exact h.fresh id hid
  · rw [Shared.linesOf_stepped]
    rw [Shared.runs_stepped] at hfound
    split_ifs at hfound with hid
    · cases hfound
      obtain ⟨hoptions, selection, hselection, hlines⟩ := h.started runId run hrun
      rw [hstep.call_eq, hstep.printed_eq, hid]
      exact ⟨hoptions, selection, hselection, by rw [hlines, List.filter_append]; rfl⟩
    · rw [hnames hid, List.append_nil]
      exact h.started id found hfound
  · rw [Shared.runs_stepped] at hnone
    split_ifs at hnone with hid
    rw [Shared.linesOf_stepped, hnames hid, List.append_nil]
    exact h.silent id hnone

/-! ### In every execution -/

abbrev Announcing (D : Setup) (s : State) : Prop := Keeps (announce D) Settled (Announces D) ⟨none, none⟩ s

theorem announcing_of_run {stdin : List UInt8} (hprompts : PromptsOnly D stdin) {as : List Action} {s : State}
    (h : TransitionSystem.run (daemonStep D) (start D stdin) as = some s) : Announcing D s := by
  refine run_induction (I := fun _ s => Announcing D s) ⟨runRpcDaemon_settled hprompts, ?_⟩
    (fun _ _ _ _ _ hs ha => ?_) h
  · exact ⟨told_start D stdin, (fun _ _ hrun => by cases hrun), (fun _ hid => by cases hid), (fun _ hl => by cases hl),
      (fun _ _ hrun => by cases hrun), fun _ _ => rfl⟩
  · exact hs.step (fun _ _ _ _ _ h hmay hperforms _ => h.performs hmay hperforms)
      (fun _ _ _ _ _ _ h hrun hstep => h.stepped hrun hstep) ha fun _ _ _ _ _ _ => trivial

/-- Nothing but a panic leads to one, and it stays. -/
theorem Run.diff?_step {run run' : Run} {action : RunAction} {line : Option Line}
    (h : run.step action = some (run', line)) (diff : String) :
    run'.phase.diff? = some diff ↔ run.phase.diff? = some diff ∨ action = .panic diff := by
  cases action with
  | panic diff' =>
    simp only [step, panic] at h
    split at h
    · next hphase =>
      split_ifs at h
      cases h
      simp [Phase.diff?, hphase]
    · cases h
  | stream =>
    simp only [step, stream] at h
    split at h <;> (try split_ifs at h) <;> cases h <;> simp [say]
  | _ =>
    simp only [step, advance, conclude, print] at h
    split at h <;> cases h <;> simp_all [Phase.diff?]

/-- The tasks that have panicked are those that did so in the execution. -/
theorem panicked_iff {stdin : List UInt8} (hprompts : PromptsOnly D stdin) {as : List Action} {s : State}
    (h : TransitionSystem.run (daemonStep D) (start D stdin) as = some s) (id diff : String) :
    .run id (.panic diff) ∈ as ↔ ∃ run, s.shared.runs id = some run ∧ run.phase.diff? = some diff := by
  refine run_induction (I := fun as s => .run id (.panic diff) ∈ as ↔
    ∃ run, s.shared.runs id = some run ∧ run.phase.diff? = some diff) ?_ (fun as s a s' hs hI ha => ?_) h
  · simp [start]
  rw [List.mem_append, List.mem_singleton, hI]
  rcases daemonStep_cases ha with ⟨_, op, next, answer, shared, rfl, hask, -, hperforms, rfl⟩ |
    ⟨runId, action, run, run', line, rfl, -, hrun, hstep, rfl⟩
  · -- An operation of the read loop changes no phase, and what it starts is not there yet.
    have hannouncing := announcing_of_run hprompts hs
    have hmay := hannouncing.follows
    rw [hask] at hmay
    constructor
    · rintro (⟨run, hrun, hdiff⟩ | hnot)
      · cases hperforms with
        | spawn call =>
          have hne : id ≠ call.task.id := fun hid =>
            hannouncing.related.fresh _ hmay.1.1 (hid ▸ hannouncing.related.spawned id run hrun)
          exact ⟨run, by rw [Shared.runs_spawn, if_neg hne]; exact hrun, hdiff⟩
        | setHandle handle runId =>
          by_cases hid : id = runId
          · refine ⟨run.setHandle handle, ?_, by cases handle <;> exact hdiff⟩
            rw [Shared.runs_modifyRun, if_pos hid, hrun]
            rfl
          · exact ⟨run, by rw [Shared.runs_modifyRun, if_neg hid]; exact hrun, hdiff⟩
        | _ => exact ⟨run, hrun, hdiff⟩
      · cases hnot
    · rintro ⟨run', hrun', hdiff⟩
      obtain ⟨call, -, -, rfl⟩ | ⟨handle, run, -, hrun, rfl⟩ | hrun := hperforms.runs hrun'
      · cases hdiff
      · exact Or.inl ⟨run, hrun, by cases handle <;> exact hdiff⟩
      · exact Or.inl ⟨run', hrun, hdiff⟩
  · simp only [Shared.runs_stepped]
    by_cases hid : id = runId
    · subst hid
      simp only [hrun, Option.some.injEq, exists_eq_left', if_true, Run.diff?_step hstep diff, Action.run.injEq, true_and,
        eq_comm (a := action)]
    · simp [hid]

/-! ### The result -/

theorem filter_names_seamLines (sessionId : String) (rounds : List RoundRecord) :
    (seamLines sessionId rounds).filter (Line.names sessionId) = seamLines sessionId rounds :=
  List.filter_eq_self.mpr fun line hline => by simp [Line.names, (runId_of_mem_seamLines hline).1]

theorem not_isSessionEnded {line : Line} (h : line.isTerminal = false) : line.isSessionEnded = false := by
  cases line <;> first | rfl | cases h

/-- The one `session.ended` names its run. -/
theorem filter_isSessionEnded_names (sessionId : String) (report : RunReport) (events : List AgentEvent)
    (htask : report.task.id = sessionId) :
    ((emitTerminalEnvelopes report events).filter (Line.names sessionId)).filter Line.isSessionEnded =
      [.sessionEnded sessionId report.finalFeedback.verdict report.applied report.blocked report.crossfireHalted
        report.cancelled (applyDowngraded report) (patchId report)] := by
  rw [List.filter_comm, filter_isSessionEnded, htask]
  simp [Line.names, Line.runId]

/-- A run whose task and streamer are over, and which has not panicked, has told everything. -/
theorem Told.lifecycle {run : Run} {selection : ProfileSelection} {lines : List Line} (h : Told D.externals run)
    (hoptions : run.call.options = daemonOptions D)
    (hselection : run.call.config.selectProfile D.externals.ruleMatches run.call.task = .ok selection)
    (hlines : lines = startedLine run.call.task selection :: run.printed.filter (Line.names run.call.task.id))
    (hfinished : run.isFinished = true) (hdiff : run.phase.diff? = none) :
    ∃ outcome, Lifecycle D run outcome lines := by
  rw [Run.isFinished] at hfinished
  split at hfinished
  · next outcome events hphase =>
    have hruns := h.outcome outcome (by rw [hphase]; rfl)
    have hclosed := h.printing (by rw [hphase]; rfl)
    obtain ⟨streamed, told, hrecorded, htold, hprinted⟩ := h.lines
    rw [hphase] at htold
    rw [hclosed, (h.closed hclosed).1, Streamer.between, List.append_nil, List.append_nil] at hrecorded
    rw [hclosed, Streamer.half, List.append_nil, ← hrecorded] at hprinted
    have htold : told = terminalLines run.call.task.id events outcome := by
      simpa [Phase.rest, Phase.terminal] using htold
    have htask (report : RunReport) (hreport : outcome = .ok report) : report.task.id = run.call.task.id :=
      congrArg Task.id (h.report_task (by rw [hphase, hreport]; rfl))
    have hall : lines = startedLine run.call.task selection :: seamLines run.call.task.id (recorded run.trace) ++
        (terminalLines run.call.task.id events outcome).filter (Line.names run.call.task.id) := by
      rw [hlines, hprinted, htold, List.filter_append, filter_names_seamLines, List.cons_append]
    refine ⟨outcome, hruns, ⟨selection, events, hselection, hall⟩, fun report hreport => ?_,
      fun report saved hreport hsaved => ?_, fun report hreport => ?_⟩
    · rw [hreport] at hruns
      exact (runSynapticLoop_seams (by rw [hoptions]; exact daemonOptions_cancelToken D) hruns).recorded
    · have hsame := h.persisted saved hsaved
      rw [hphase, hreport] at hsame
      cases hsame
      rfl
    · have hquiet : (startedLine run.call.task selection :: seamLines run.call.task.id (recorded run.trace)).filter
          Line.isSessionEnded = [] := by
        refine List.filter_eq_nil_iff.mpr fun line hline => ?_
        rcases List.mem_cons.mp hline with rfl | hline
        · exact Bool.false_ne_true
        · simp [not_isSessionEnded (runId_of_mem_seamLines hline).2]
      rw [hall, List.filter_append, hquiet, List.nil_append, hreport]
      exact filter_isSessionEnded_names _ report events (htask report hreport)
  · next diff hphase =>
    rw [hphase] at hdiff
    cases hdiff
  · cases hfinished

/-- A run whose task has panicked has no terminal line. -/
theorem Told.not_isTerminal {X : Externals} {run : Run} {diff : String} (h : Told X run)
    (hdiff : run.phase.diff? = some diff) : ∀ line ∈ run.printed, line.isTerminal = false := by
  have hphase : run.phase = .panicked diff := by
    cases hp : run.phase <;> rw [hp] at hdiff <;> cases hdiff
    rfl
  obtain ⟨streamed, told, -, htold, hprinted⟩ := h.lines
  rw [hphase] at htold
  obtain ⟨rfl, -⟩ := List.append_eq_nil_iff.mp htold
  intro line hline
  rw [hprinted, List.append_nil] at hline
  rcases List.mem_append.mp hline with hline | hline
  · exact (runId_of_mem_seamLines hline).2
  · cases hs : run.streamer with
    | ending round =>
      rw [hs] at hline
      obtain rfl := List.mem_singleton.mp hline
      rfl
    | waiting | closed =>
      rw [hs] at hline
      cases hline

/-- A lifecycle has the end of the terminal group. -/
theorem Lifecycle.exists_isTerminal {run : Run} {outcome : Except RunError RunReport} {lines : List Line}
    (h : Lifecycle D run outcome lines) : ∃ line ∈ lines, line.isTerminal = true := by
  obtain ⟨_, events, -, hwhole⟩ := h.told
  obtain ⟨line, hline, hterminal, hnames⟩ := Daemon.exists_isTerminal run.call.task.id events outcome
    fun report hreport => congrArg Task.id (runSynapticLoop_task _ _ _ _ _ _ _ (hreport ▸ h.returned))
  refine ⟨line, ?_, hterminal⟩
  rw [hwhole]
  exact List.mem_append_right _ (List.mem_filter.mpr ⟨hline, by simp [Line.names, hnames]⟩)

/-- **The lifecycle of a run**: in every execution on prompts, however the tasks and the streamers
of the runs are mixed, what stdout has of a run that is over is its lifecycle, exactly if its task
has not panicked. -/
theorem lifecycle_iff {stdin : List UInt8} (hprompts : PromptsOnly D stdin) {as : List Action} {s : State}
    (h : TransitionSystem.run (daemonStep D) (start D stdin) as = some s) {id : String} {run : Run}
    (hrun : s.shared.runs id = some run) (hended : run.isOver = true ∨ s.returned = true) :
    (∃ outcome, Lifecycle D run outcome (s.shared.linesOf id)) ↔ ∀ diff, Action.run id (.panic diff) ∉ as := by
  have hannounces := (announcing_of_run hprompts h).related
  obtain ⟨hid, htold⟩ := hannounces.told id run hrun
  obtain ⟨hoptions, selection, hselection, hlines⟩ := hannounces.started id run hrun
  constructor
  · rintro ⟨outcome, hlifecycle⟩ diff hpanic
    obtain ⟨run', hrun', hdiff⟩ := (panicked_iff hprompts h id diff).mp hpanic
    cases hrun.symm.trans hrun'
    obtain ⟨line, hmem, hterminal⟩ := hlifecycle.exists_isTerminal
    rw [hlines] at hmem
    rcases List.mem_cons.mp hmem with rfl | hmem
    · cases hterminal
    · rw [htold.not_isTerminal hdiff line (List.mem_filter.mp hmem).1] at hterminal
      cases hterminal
  · intro hpanic
    have hdiff : run.phase.diff? = none := by
      rw [Option.eq_none_iff_forall_ne_some]
      exact fun diff hdiff => hpanic diff ((panicked_iff hprompts h id diff).mpr ⟨run, hrun, hdiff⟩)
    refine htold.lifecycle hoptions hselection (by rw [hlines, hid]) ?_ hdiff
    rcases hended with hover | hreturned
    · exact (Bool.and_eq_true_iff.mp hover).1
    · have hwatched := watched_of_run h
      obtain ⟨r, hr⟩ := Option.isSome_iff_exists.mp hreturned
      obtain ⟨-, line, hline, hnone⟩ | ⟨hlive, -⟩ := hwatched.watched_of_result hr
      · exact absurd hnone (hprompts line hline).1
      · exact hwatched.related.isFinished hlive hrun

/-! ### Two executions -/

/-- An exchange of the loop, with a reviewer that likes what the lead has done. -/
def sampleAdvance : RunAction := .advance (sampleWorld sampleOutput (.lgtm "codex" "LGTM") .pass [])

/-- The daemon reads its one prompt and waits for the run, which goes on that far. -/
def sampleExecution (exchanges : Nat) (rest : List RunAction) : List Action :=
  List.replicate 6 (.main sampleAnswers) ++ (List.replicate exchanges sampleAdvance ++ rest).map (.run "run")

theorem samplePrompt_only : PromptsOnly sampleSetup samplePrompt.toUTF8.toList := by
  have hlines : stdinLines samplePrompt.toUTF8.toList = [samplePrompt.toUTF8.toList.dropLast] := by decide +kernel
  have hcommand : commandOf sampleSetup samplePrompt.toUTF8.toList.dropLast = some (.prompt "add a file") := by
    decide +kernel
  intro line hline
  rw [hlines, List.mem_singleton] at hline
  subst hline
  refine ⟨fun hnone => ?_, fun command h => ⟨"add a file", ?_⟩⟩
  · rw [commandOf, hnone] at hcommand
    cases hcommand
  · rw [hcommand] at h
    exact (Option.some.inj h).symm

/-- The lifecycle of a run that is accepted. -/
theorem lifecycle_accepted : ∃ as s run, TransitionSystem.run (daemonStep sampleSetup)
      (start sampleSetup samplePrompt.toUTF8.toList) as = some s ∧ s.shared.runs "run" = some run ∧
    ∃ outcome, Lifecycle sampleSetup run outcome (s.shared.linesOf "run") := by
  have hrun : (TransitionSystem.run (daemonStep sampleSetup) (start sampleSetup samplePrompt.toUTF8.toList)
      (sampleExecution 8 ([.stream, .stream, .stream, .conclude [] true] ++ List.replicate 11 .print))).map (fun s =>
        (s.shared.runs "run").map Run.isOver) = some (some true) := by decide +kernel
  obtain ⟨s, hs, hstate⟩ := Option.map_eq_some_iff.mp hrun
  obtain ⟨run, hlookup, hover⟩ := Option.map_eq_some_iff.mp hstate
  refine ⟨_, s, run, hs, hlookup, (lifecycle_iff samplePrompt_only hs hlookup (Or.inl hover)).mpr fun diff => ?_⟩
  simp [sampleExecution, sampleAdvance, List.replicate]

/-- **A run ends without a word**: the lead's reply has a diff at which its task panics, both tasks
are over, and its `session.started` is all that stdout has of it. -/
theorem not_lifecycle_uncut : ∃ as s run, PromptsOnly sampleSetup samplePrompt.toUTF8.toList ∧
    TransitionSystem.run (daemonStep sampleSetup) (start sampleSetup samplePrompt.toUTF8.toList) as = some s ∧
    s.shared.runs "run" = some run ∧ run.isOver = true ∧
    s.shared.linesOf "run" = [.sessionStarted "run" "add a file" "claude-code" "codex"] ∧
    ¬ ∃ outcome, Lifecycle sampleSetup run outcome (s.shared.linesOf "run") := by
  have hrun : (TransitionSystem.run (daemonStep sampleSetup) (start sampleSetup samplePrompt.toUTF8.toList)
      (sampleExecution 3 [.panic sampleUncut, .stream])).map (fun s =>
        ((s.shared.runs "run").map Run.isOver, s.shared.linesOf "run")) =
        some (some true, [.sessionStarted "run" "add a file" "claude-code" "codex"]) := by decide +kernel
  obtain ⟨s, hs, hstate⟩ := Option.map_eq_some_iff.mp hrun
  obtain ⟨hover, hlines⟩ := Prod.mk.inj hstate
  obtain ⟨run, hlookup, hover⟩ := Option.map_eq_some_iff.mp hover
  refine ⟨_, s, run, samplePrompt_only, hs, hlookup, hover, hlines, ?_⟩
  rintro ⟨outcome, hlifecycle⟩
  obtain ⟨line, hmem, hterminal⟩ := hlifecycle.exists_isTerminal
  rw [hlines, List.mem_singleton] at hmem
  subst hmem
  cases hterminal

end Nerve.Daemon
