import Nerve.Library.TransitionSystem
import Nerve.Run.ApplyGate
import Nerve.Session.Budget
import Nerve.Session.Goal

/-!
# An interactive session

The operator's lines, one after the other: a task, or a command after a slash. A task goes into the
loop with the session's active goal, which is loaded when the session starts and whenever it changes
its directory, and set by `/goal`, and with the limits that `/budget` sets.

A `World` is what the rest of the machine has to say while one line is dealt with; the files may be
others from line to line. What a session comes to are its calls of the loop. Output, counters, and
what only `/diff`, `/apply`, `/fork` and the other commands keep or read are left out: none of them
calls the loop.
-/

namespace Nerve.Session

open Nerve.Patch Nerve.Run Text

/-! ### The world -/

structure World where
  files : Files
  home : Option String
  userProfile : Option String
  currentDir : Except RunError PathBuf
  setCurrentDir : PathBuf → Except RunError Unit
  /-- Fresh identifiers of tasks. -/
  taskId : Nat → String
  /-- `collect_context_paths`. -/
  collectContextPaths : String → PathBuf → List PathBuf
  /-- The line the operator types when asked about raising the budget of that name. -/
  raiseAnswer : String → String
  /-- `append_budget_audit_entry`, with the limits before and after and whether the operator was asked. -/
  appendBudgetAuditEntry : PathBuf → BudgetSnapshot → BudgetSnapshot → Bool → Except RunError Unit
  /-- The workspace of a benchmark. -/
  tempDir : PathBuf
  /-- How many iterations of a benchmark begin before one fails. -/
  iterationsBegun : Nat
  /-- The time, as it goes into the identifier of a goal. -/
  now : String
  stdinIsTerminal : Bool
  /-- The goal an adapter makes of a sentence. -/
  convert : String → Except RunError GoalSpec
  /-- The operator's answer to a proposed goal. -/
  confirmGoalIntent : Except RunError Bool
  appendGoalHistory : Except RunError Unit
  writeActiveGoal : GoalSpec → Except RunError Unit

/-! ### Configuration -/

section Configuration

variable (R : Readers) (w : World)

def fromPath (path : PathBuf) (file : Except RunError String) : Except RunError LoadedConfig := do
  let raw ← context s!"failed to read config `{path.text}`" file
  context s!"invalid config `{path.text}`" (R.config raw)

def withSource (source : ConfigSource) (loaded : LoadedConfig) : LoadedConfig :=
  { loaded with config := { loaded.config with source := source } }

/-- `~/.config/nerve/config.json`, if there is one. -/
def userConfig : Option (PathBuf × Except RunError String) :=
  w.home.bind fun home =>
    let path := joinPath ⟨home⟩ ".config/nerve/config.json"
    (w.files path).map fun file => (path, file)

/-- `Config::load_from`: the project's, else the user's, else the built-in one. -/
def loadFrom (cwd : PathBuf) : Except RunError LoadedConfig :=
  let cwdConfig := joinPath cwd "nerve.config.json"
  match w.files cwdConfig with
  | some file => (fromPath R cwdConfig file).map (withSource .project)
  | none =>
    match userConfig w with
    | some (path, file) => (fromPath R path file).map (withSource .user)
    | none => (context "embedded default config is invalid" R.defaultConfig).map (withSource .default)

end Configuration

/-! ### Calls of the loop -/

/-- The arguments of `run_synaptic_loop`; of the adapters their identifiers. -/
structure LoopCall where
  task : Task
  config : Config
  adapters : List String
  options : RunOptions
  deriving DecidableEq, Repr

/-- `RunOptions::new`. -/
def newOptions (apply : Bool) : RunOptions where
  apply := apply
  goal := none
  worktree := none
  applyGrant := false
  cancelToken := false

/-- The mock adapters have the identifiers of the real ones. -/
def adapterIds : List String := ["claude-code", "codex"]

/-- `run_report_with_overrides`, up to its call of the loop. -/
def runReportWithOverrides (R : Readers) (w : World) (prompt : String) (apply : Bool) (goal : Option GoalSpec)
    (budgetCostOverride budgetTokensOverride : Option Nat) (worktreeOverride : Option Bool) :
    Except RunError LoopCall := do
  let cwd ← context "failed to read current directory" w.currentDir
  let loaded ← loadFrom R w cwd
  let orchestration := loaded.config.orchestration
  let orchestration := { orchestration with
    maxEstimatedCostMicrousd := budgetCostOverride <|> orchestration.maxEstimatedCostMicrousd
    maxTotalTokens := budgetTokensOverride <|> orchestration.maxTotalTokens }
  let task : Task := ⟨w.taskId 0, prompt, cwd, w.collectContextPaths prompt cwd⟩
  let options := newOptions apply
  let options := match goal with
    | some spec => { options with goal := some spec }
    | none => options
  let options := match worktreeOverride with
    | some on => { options with worktree := some on }
    | none => options
  pure ⟨task, { loaded.config with orchestration := orchestration }, adapterIds, options⟩

/-- `run_pi_benchmark`: the iterations that begin, in a directory of their own. -/
def runPiBenchmark (R : Readers) (w : World) (iterations : Nat) : Except RunError (List LoopCall) := do
  if iterations = 0 ∨ 20 < iterations then .error ["--iterations must be between 1 and 20"]
  else
    let loaded ← loadFrom R w w.tempDir
    pure ((List.range (min iterations w.iterationsBegun)).map fun i =>
      { task := ⟨w.taskId i, s!"Pi benchmark iteration {i + 1}: produce a reviewed patch artifact", w.tempDir, []⟩
        config := loaded.config
        adapters := adapterIds
        options := newOptions false })

/-! ### The state -/

structure InteractiveState where
  apply : Bool
  mock : Bool
  worktreeOverride : Option Bool
  activeGoal : Option GoalSpec
  budgetOverrideCostMicrousd : Option Nat
  budgetOverrideTokens : Option Nat
  deriving DecidableEq, Repr

def InteractiveState.new (apply mock : Bool) (worktreeOverride : Option Bool) : InteractiveState where
  apply := apply
  mock := mock
  worktreeOverride := worktreeOverride
  activeGoal := none
  budgetOverrideCostMicrousd := none
  budgetOverrideTokens := none

/-- A goal that is not loaded is no goal. -/
def refreshActiveGoal (R : Readers) (files : Files) (state : InteractiveState) (cwd : PathBuf) : InteractiveState :=
  match loadActiveGoal R files cwd with
  | .ok goal => { state with activeGoal := goal }
  | .error _ => { state with activeGoal := none }

section Commands

variable (R : Readers) (w : World)

/-- What a line comes to: the state, the calls of the loop, and whether the session is over. A
command that fails leaves the state as it was. -/
structure Outcome where
  state : InteractiveState
  calls : List LoopCall
  shouldExit : Bool

def Outcome.ofState (state : InteractiveState) : Outcome := ⟨state, [], false⟩

def runInteractiveTask (prompt : String) (state : InteractiveState) : Outcome where
  state := state
  calls := (runReportWithOverrides R w prompt state.apply state.activeGoal state.budgetOverrideCostMicrousd
    state.budgetOverrideTokens state.worktreeOverride).toOption.toList
  shouldExit := false

/-! ### Commands -/

def setMode (mode : String) (state : InteractiveState) : InteractiveState :=
  if mode = "dry-run" ∨ mode = "dryrun" ∨ mode = "dry" then { state with apply := false }
  else if mode = "apply" then { state with apply := true }
  else state

def setAdapter (adapter : String) (state : InteractiveState) : InteractiveState :=
  if adapter = "real" then { state with mock := false }
  else if adapter = "mock" then { state with mock := true }
  else state

def resolveWorkspacePath (target : String) (cwd : PathBuf) : PathBuf :=
  let home := w.home <|> w.userProfile
  match home, stripPrefix "~/".toList target.toList with
  | some home, some rest => joinPath ⟨home⟩ (String.ofList rest)
  | some home, none => if target = "~" then ⟨home⟩ else joinPath cwd target
  | none, _ => joinPath cwd target

/-- The directory `/cd` changes to. -/
def changeDir (target : String) (cwd : PathBuf) : Except RunError PathBuf :=
  if target.isEmpty then .error ["usage: /cd <path>"]
  else do
    let next := resolveWorkspacePath w target cwd
    context s!"failed to change directory to {next.text}" (w.setCurrentDir next)
    pure next

/-- Keep a goal in the directory, and make it the active one. -/
def registerGoal (state : InteractiveState) (spec : GoalSpec) (screening : String) : Except RunError InteractiveState := do
  context screening ((validate spec).mapError fun e => [e.text])
  w.writeActiveGoal spec
  pure { state with activeGoal := some spec }

def registerGoalFromNaturalLanguage (freeForm : String) (state : InteractiveState) (cwd : PathBuf) :
    Except RunError InteractiveState := do
  if !w.stdinIsTerminal then
    .error ["/goal natural-language input requires an interactive terminal so the LLM proposal can be " ++
      "confirmed before it runs"]
  else
    let _ ← context "failed to load nerve.config.json for /goal natural-language conversion" (loadFrom R w cwd)
    let proposed ← context "natural-language /goal conversion failed" (w.convert freeForm)
    let confirmed ← w.confirmGoalIntent
    if !confirmed then pure state
    else
      context "failed to append goal-history.jsonl audit entry" w.appendGoalHistory
      registerGoal w state { proposed with cwd := proposed.cwd <|> some cwd } "proposed goal failed validation"

def handleGoalCommand (args : List String) (raw : List Char) (state : InteractiveState) (cwd : PathBuf) :
    Except RunError InteractiveState :=
  match parseGoalArgvWithRaw args raw with
  | .error e => .error [e.text]
  | .ok .show => .ok state
  | .ok .clear => .ok { state with activeGoal := none }
  | .ok (.registerArgv argv timeoutSecs) =>
    registerGoal w state
      { id := s!"goal-{w.now}"
        checkCmd := argv
        timeoutSecs := timeoutSecs.getD 300
        cwd := some cwd
        env := []
        noProgressMax := none } "goal spec validation failed"
  | .ok (.registerNaturalLanguage freeForm) => registerGoalFromNaturalLanguage R w freeForm state cwd

/-! ### Limits -/

def budgetAuditPath (cwd : PathBuf) : PathBuf :=
  joinPath (joinPath (joinPath cwd ".nerve") "session-meta") "budget-audit.json"

def confirmRaiseInteractive (label : String) : Except RunError Bool :=
  if !w.stdinIsTerminal then
    .error [s!"/budget {label} raise requires interactive confirmation; non-interactive sessions are rejected"]
  else
    let answer := (trim (w.raiseAnswer label).toList).map Char.toLower
    .ok (answer == "y".toList || answer == "yes".toList)

/-- What `/budget` asks of one limit: the new one, and whether the operator confirmed it. `unit` is
what the refusal has behind the ceiling. -/
def raiseLimit (label unit : String) (ceiling current requested : Option Nat) (force userConfirmed : Bool) :
    Except RunError (Option Nat × Bool) :=
  match requested with
  | none => .ok (current, userConfirmed)
  | some requested =>
    if ceiling.any (· < requested) then
      .error [s!"/budget {label} cap {requested} exceeds global ceiling {ceiling.getD 0}{unit}. --force cannot bypass " ++
        "the ceiling."]
    else if requiresBudgetRaiseConfirmation current requested force then do
      let confirmed ← confirmRaiseInteractive w label
      if !confirmed then .error ["budget raise cancelled"] else pure (some requested, true)
    else .ok (some requested, userConfirmed)

def handleBudgetCommand (args : List String) (state : InteractiveState) (cwd : PathBuf) :
    Except RunError InteractiveState :=
  if args.isEmpty then .error ["usage: /budget show | /budget cost=$X | /budget tokens=N [--force]"]
  else do
    let action ← (parseBudgetArgs args).mapError fun e => [e.text]
    let loaded ← loadFrom R w cwd
    match action with
    | .show => pure state
    | .set cost tokens force =>
      let orchestration := loaded.config.orchestration
      let prev : BudgetSnapshot :=
        ⟨state.budgetOverrideTokens <|> orchestration.maxTotalTokens,
          state.budgetOverrideCostMicrousd <|> orchestration.maxEstimatedCostMicrousd⟩
      let (newCost, userConfirmed) ← raiseLimit w "cost" " (microusd)" loaded.budgetCostMicrousdCeiling
        prev.maxEstimatedCostMicrousd cost force false
      let (newTokens, userConfirmed) ← raiseLimit w "tokens" "" loaded.budgetTokensCeiling prev.maxTotalTokens tokens
        force userConfirmed
      context "failed to append budget audit entry"
        (w.appendBudgetAuditEntry (budgetAuditPath cwd) prev ⟨newTokens, newCost⟩ userConfirmed)
      -- The limit that was not asked for is kept from here on as well.
      pure { state with budgetOverrideCostMicrousd := newCost, budgetOverrideTokens := newTokens }

/-- `/template` with an identifier: the configured prompt becomes a task. -/
def runTemplate (templateId : String) (args : List String) (state : InteractiveState) (cwd : PathBuf) : Outcome :=
  match (loadFrom R w cwd).map fun loaded => loaded.templates.find? fun template => template.id == templateId with
  | .ok (some template) =>
    runInteractiveTask R w (template.prompt.replace "\x7b\x7bargs\x7d\x7d" (" ".intercalate args)) state
  | _ => .ofState state

def runBenchmark (target : String) (args : List String) : List LoopCall :=
  if target = "pi" then
    let iterations := match args with
      | [] => some 3
      | iterations :: _ => (parseUsize iterations.toList).filter (· < 2 ^ 16)
    (iterations.bind fun iterations => (runPiBenchmark R w iterations).toOption).getD []
  else []

/-- What stands in a command's text behind its name. -/
def rawArguments (name : String) (command : List Char) : List Char :=
  ((stripPrefix name.toList command).map trimStart).getD []

def words (command : List Char) : List String := (splitWhitespace command).map String.ofList

def handleInteractiveCommand (command : List Char) (state : InteractiveState) : Outcome :=
  match w.currentDir with
  | .error _ => .ofState state
  | .ok cwd =>
    match words command with
    | [] => .ofState state
    | name :: args =>
      match name, args with
      | "mode", mode :: _ => .ofState (setMode mode state)
      | "adapter", adapter :: _ => .ofState (setAdapter adapter state)
      | "cd", args =>
        match changeDir w (" ".intercalate args) cwd with
        | .error _ => .ofState state
        | .ok next => .ofState (refreshActiveGoal R w.files state next)
      | "template", templateId :: args => runTemplate R w templateId args state cwd
      | "goal", args =>
        .ofState ((handleGoalCommand R w args (rawArguments "goal" command) state cwd).toOption.getD state)
      | "budget", args => .ofState ((handleBudgetCommand R w args state cwd).toOption.getD state)
      | "benchmark", target :: args => { Outcome.ofState state with calls := runBenchmark R w target args }
      | "quit", _ | "exit", _ | "q", _ => { Outcome.ofState state with shouldExit := true }
      -- The other commands neither change this state nor call the loop.
      | _, _ => .ofState state

end Commands

/-! ### Lines -/

/-- The state between two lines; the lines of a paste so far, while there is one. -/
structure Shell where
  state : InteractiveState
  pasteLines : Option (List (List Char))
  deriving DecidableEq, Repr

/-- `run_interactive`, up to the first line. -/
def start (R : Readers) (w : World) (apply mock : Bool) (worktreeOverride : Option Bool) : Except RunError Shell := do
  let cwd ← context "failed to read current directory" w.currentDir
  pure ⟨refreshActiveGoal R w.files (.new apply mock worktreeOverride) cwd, none⟩

/-- `process_interactive_input`, with the lines of the paste after it. -/
def processInteractiveInput (R : Readers) (w : World) (rawInput : List Char) (s : Shell) :
    Outcome × Option (List (List Char)) :=
  match s.pasteLines with
  | some lines =>
    if rawInput = "/end".toList then
      let prompt := trim (['\n'].intercalate lines)
      (if prompt.isEmpty then .ofState s.state else runInteractiveTask R w (String.ofList prompt) s.state, none)
    else if rawInput = "/cancel".toList then (.ofState s.state, none)
    else (.ofState s.state, some (lines ++ [rawInput]))
  | none =>
    let input := trim rawInput
    if input.isEmpty ∨ input = "?".toList then (.ofState s.state, none)
    else if (stripPrefix "!".toList input).isSome then (.ofState s.state, none)
    else if input = "/paste".toList then (.ofState s.state, some [])
    else
      match stripPrefix "/".toList input with
      | some command => (handleInteractiveCommand R w command s.state, none)
      | none => (runInteractiveTask R w (String.ofList input) s.state, none)

/-- The text of the command that a line is, if it is one. -/
def Shell.command (s : Shell) (line : List Char) : Option (List Char) :=
  if s.pasteLines.isSome ∨ trim line = "/paste".toList then none else stripPrefix "/".toList (trim line)

/-- A line, and the world it is dealt with in. -/
structure Input where
  world : World
  line : List Char

/-- The session after a line, unless the line ends it. -/
def step (R : Readers) (s : Shell) (i : Input) : Option Shell :=
  let (outcome, pasteLines) := processInteractiveInput R i.world i.line s
  if outcome.shouldExit then none else some ⟨outcome.state, pasteLines⟩

/-- The calls of the loop of a whole session. -/
def calls (R : Readers) (s : Shell) (inputs : List Input) : List LoopCall :=
  (TransitionSystem.outputs (step R)
    (fun s i => some (processInteractiveInput R i.world i.line s).1.calls) s inputs).flatten

/-! ### What a line comes to -/

section Effects

variable {R : Readers} {w : World}

theorem mem_runInteractiveTask {prompt : String} {state : InteractiveState} {call : LoopCall}
    (h : call ∈ (runInteractiveTask R w prompt state).calls) :
    runReportWithOverrides R w prompt state.apply state.activeGoal state.budgetOverrideCostMicrousd
      state.budgetOverrideTokens state.worktreeOverride = .ok call := by
  unfold runInteractiveTask at h
  rcases hrun : runReportWithOverrides R w prompt state.apply state.activeGoal state.budgetOverrideCostMicrousd
    state.budgetOverrideTokens state.worktreeOverride with e | made
  · simp [hrun, Except.toOption] at h
  · obtain rfl : call = made := by simpa [hrun, Except.toOption] using h
    rfl

/-- A benchmark's runs have the configuration as it is loaded. -/
theorem mem_runBenchmark {target : String} {args : List String} {call : LoopCall} (h : call ∈ runBenchmark R w target args) :
    ∃ loaded, loadFrom R w call.task.cwd = .ok loaded ∧ call.config = loaded.config ∧ call.options = newOptions false := by
  have hmade (iterations : Option Nat) (h : call ∈ (iterations.bind fun n => (runPiBenchmark R w n).toOption).getD []) :
      ∃ n made, runPiBenchmark R w n = .ok made ∧ call ∈ made := by
    rcases iterations with _ | n
    · exact absurd h List.not_mem_nil
    rcases hrun : runPiBenchmark R w n with e | made
    · rw [Option.bind_some, hrun] at h
      exact absurd h List.not_mem_nil
    · rw [Option.bind_some, hrun] at h
      exact ⟨n, made, hrun, h⟩
  unfold runBenchmark at h
  dsimp only at h
  split_ifs at h
  · obtain ⟨n, made, hrun, hcall⟩ := hmade _ h
    unfold runPiBenchmark at hrun
    split_ifs at hrun
    obtain ⟨loaded, hloaded, hrun⟩ := bind_eq_ok.mp hrun
    cases hrun
    obtain ⟨_, -, rfl⟩ := List.mem_map.mp hcall
    exact ⟨loaded, hloaded, rfl, rfl⟩
  · exact absurd h List.not_mem_nil

/-- What a command may come to. -/
inductive CommandEffect (R : Readers) (w : World) (command : List Char) (state : InteractiveState) : Outcome → Prop where
  | nothing : CommandEffect R w command state (.ofState state)
  | mode (mode : String) : CommandEffect R w command state (.ofState (setMode mode state))
  | adapter (adapter : String) : CommandEffect R w command state (.ofState (setAdapter adapter state))
  | cd {cwd next : PathBuf} {args : List String} (hcwd : w.currentDir = .ok cwd) (hwords : words command = "cd" :: args)
      (h : changeDir w (" ".intercalate args) cwd = .ok next) :
      CommandEffect R w command state (.ofState (refreshActiveGoal R w.files state next))
  | template {args : List String} (hwords : words command = "template" :: args) (prompt : String) :
      CommandEffect R w command state (runInteractiveTask R w prompt state)
  | goal {cwd : PathBuf} {args : List String} {state' : InteractiveState} (hwords : words command = "goal" :: args)
      (h : handleGoalCommand R w args (rawArguments "goal" command) state cwd = .ok state') :
      CommandEffect R w command state (.ofState state')
  | budget {cwd : PathBuf} {args : List String} {state' : InteractiveState} (hwords : words command = "budget" :: args)
      (h : handleBudgetCommand R w args state cwd = .ok state') : CommandEffect R w command state (.ofState state')
  | benchmark {args : List String} (hwords : words command = "benchmark" :: args) (target : String) (rest : List String) :
      CommandEffect R w command state { Outcome.ofState state with calls := runBenchmark R w target rest }
  | quit : CommandEffect R w command state { Outcome.ofState state with shouldExit := true }

theorem handleInteractiveCommand_effect (command : List Char) (state : InteractiveState) :
    CommandEffect R w command state (handleInteractiveCommand R w command state) := by
  unfold handleInteractiveCommand
  rcases hcwd : w.currentDir with e | cwd
  · exact .nothing
  rcases hwords : words command with _ | ⟨name, args⟩
  · exact .nothing
  dsimp only
  split
  · exact .mode _
  · exact .adapter _
  · split
    · exact .nothing
    · exact .cd hcwd hwords ‹_›
  · unfold runTemplate
    split
    · exact .template hwords _
    · exact .nothing
  · rcases hrun : handleGoalCommand R w args (rawArguments "goal" command) state cwd with e | state'
    · exact .nothing
    · exact .goal hwords hrun
  · rcases hrun : handleBudgetCommand R w args state cwd with e | state'
    · exact .nothing
    · exact .budget hwords hrun
  · exact .benchmark hwords _ _
  · exact .quit
  · exact .quit
  · exact .quit
  · exact .nothing

/-- What a line may come to. -/
inductive LineEffect (R : Readers) (w : World) (line : List Char) (s : Shell) : Outcome → Prop where
  | nothing (h : s.command line = none) : LineEffect R w line s (.ofState s.state)
  | task (h : s.command line = none) (prompt : String) : LineEffect R w line s (runInteractiveTask R w prompt s.state)
  | command {command : List Char} (h : s.command line = some command) :
      LineEffect R w line s (handleInteractiveCommand R w command s.state)

theorem processInteractiveInput_effect (line : List Char) (s : Shell) :
    LineEffect R w line s (processInteractiveInput R w line s).1 := by
  unfold processInteractiveInput
  rcases hpaste : s.pasteLines with _ | lines
  · have hread (h : trim line ≠ "/paste".toList) : s.command line = stripPrefix "/".toList (trim line) := by
      rw [Shell.command, hpaste, if_neg]
      exact fun hor => hor.elim Bool.false_ne_true h
    have hslash {c : Char} {rest : List Char} (h : trim line = c :: rest) (hc : c ≠ '/') : s.command line = none := by
      rw [hread (by rw [h]; exact fun he => hc (List.cons.inj he).1), h]
      exact stripPrefix_eq_none (by decide) (by simpa using hc)
    dsimp only
    split_ifs with hempty hshell hpasting
    · refine .nothing ?_
      rcases hempty with hempty | hempty
      · rw [hread (by rw [List.isEmpty_iff.mp hempty]; decide), List.isEmpty_iff.mp hempty]
        rfl
      · exact hslash hempty (by decide)
    · obtain ⟨rest, hrest⟩ := Option.isSome_iff_exists.mp hshell
      exact .nothing (hslash (eq_append_of_stripPrefix hrest) (by decide))
    · exact .nothing (by rw [Shell.command, if_pos (Or.inr hpasting)])
    · split
      · exact .command ((hread hpasting).trans ‹_›)
      · exact .task ((hread hpasting).trans ‹_›) _
  · have hnone : s.command line = none := by
      rw [Shell.command, hpaste]
      exact if_pos (Or.inl rfl)
    dsimp only
    split_ifs
    · exact .nothing hnone
    · exact .task hnone _
    · exact .nothing hnone
    · exact .nothing hnone

end Effects

end Nerve.Session
