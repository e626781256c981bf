import Nerve.Library.Text
import Nerve.Run.Types

/-!
# The goal of a session

A goal is a check command with its limits. `validate` screens it, and every way to a goal
goes through that: the arguments of `/goal`, the proposal an adapter makes for a sentence, and the file
in which the active goal of a directory is kept. Who wrote the file is not asked.

What lies in the file system at one moment is `Files`. Reading JSON into a goal and into a
configuration is done by other crates, and is given with `Readers`.
-/

namespace Nerve.Session

open Nerve.Patch Nerve.Run Text

/-! ### Screening -/

inductive ConfigError where
  | emptyGoalId
  | emptyCheckCmd
  | invalidCheckCmdProgram (program : String)
  | zeroTimeout
  | invalidEnvKey (key : String)
  | forbiddenEnvKey (key : String)
  | invalidEnvValue (key : String)
  deriving DecidableEq, Repr

def ConfigError.text : ConfigError → String
  | .emptyGoalId => "goal id must not be empty"
  | .emptyCheckCmd => "goal check_cmd must not be empty"
  | .invalidCheckCmdProgram program =>
    s!"goal check_cmd[0] `{program}` must be a PATH-searchable program name (no `/`, no `..`)"
  | .zeroTimeout => "goal timeout_secs must be greater than 0"
  | .invalidEnvKey key => s!"goal env key `{key}` contains forbidden characters (`=`, NUL, or control)"
  | .forbiddenEnvKey key =>
    s!"goal env key `{key}` is a code-execution vector and may not be set " ++
      "(supply trusted process env via orchestration.check_env)"
  | .invalidEnvValue key => s!"goal env value for key `{key}` contains a forbidden control character"

def forbiddenEnvPrefixes : List String := ["LD_", "DYLD_"]

def forbiddenEnvExact : List String :=
  ["PATH", "RUSTC_WRAPPER", "RUSTC_WORKSPACE_WRAPPER", "BASH_ENV", "SHELLOPTS", "BASHOPTS", "IFS",
    "PROMPT_COMMAND", "GIT_SSH_COMMAND", "GIT_EXTERNAL_DIFF", "PYTHONPATH", "PYTHONSTARTUP", "NODE_OPTIONS",
    "PERL5OPT", "PERL5LIB", "RUBYOPT", "RUBYLIB"]

def isForbiddenGoalEnvKey (key : String) : Bool :=
  let folded := key.toList.map Char.toUpper
  forbiddenEnvPrefixes.any (fun p => p.toList.isPrefixOf folded) ||
    forbiddenEnvExact.any fun name => name.toList == folded

def isAsciiControl (c : Char) : Bool := c.toNat < 0x20 || c.toNat == 0x7f

/-- The program is not a plain name that is looked up in the search path. -/
def isInvalidProgram (program : String) : Bool :=
  let s := program.toList
  s.isEmpty || s.head? == some '-' || s.contains '/' || s.contains '\\' ||
    (s.splitOn '/').any (· == ['.', '.']) || (before ['.', '.'] s).isSome

def validateEnv : List (String × String) → Except ConfigError Unit
  | [] => .ok ()
  | (key, value) :: env =>
    let s := key.toList
    if s.isEmpty || s.contains '=' || s.contains '\x00' || s.any isAsciiControl then .error (.invalidEnvKey key)
    else if isForbiddenGoalEnvKey key then .error (.forbiddenEnvKey key)
    else if value.toList.any isAsciiControl then .error (.invalidEnvValue key)
    else validateEnv env

/-- `GoalSpec::validate`. -/
def validate (spec : GoalSpec) : Except ConfigError Unit :=
  if (trim spec.id.toList).isEmpty then .error .emptyGoalId
  else
    match spec.checkCmd with
    | [] => .error .emptyCheckCmd
    | program :: _ =>
      if isInvalidProgram program then .error (.invalidCheckCmdProgram program)
      else if spec.timeoutSecs = 0 then .error .zeroTimeout
      else validateEnv spec.env

/-! ### Files -/

/-- What lies at each path: nothing, a text, or something that cannot be read as one. -/
abbrev Files := PathBuf → Option (Except RunError String)

/-- `Path::join`. -/
def joinPath (p : PathBuf) (name : String) : PathBuf :=
  if name.toList.head? = some '/' ∨ p.text.toList = [] then ⟨name⟩
  else if p.text.toList.getLast? = some '/' then ⟨p.text ++ name⟩
  else ⟨p.text ++ "/" ++ name⟩

structure PromptTemplate where
  id : String
  prompt : String
  deriving DecidableEq, Repr

/-- A configuration, with the part of it that only the command line reads. -/
structure LoadedConfig where
  config : Config
  templates : List PromptTemplate
  budgetCostMicrousdCeiling : Option Nat
  budgetTokensCeiling : Option Nat
  deriving DecidableEq, Repr

/-- Texts as values, as far as other crates read them. -/
structure Readers where
  /-- `serde_json::from_str` at a goal. -/
  goalSpec : String → Except RunError GoalSpec
  /-- `Config::from_json_str`. -/
  config : String → Except RunError LoadedConfig
  /-- The text that is built in as the default configuration, read. -/
  defaultConfig : Except RunError LoadedConfig

/-- `with_context`. -/
def context {α : Type} (text : String) (r : Except RunError α) : Except RunError α := r.mapError (text :: ·)

/-! ### The active goal -/

def activeGoalPath (cwd : PathBuf) : PathBuf :=
  joinPath (joinPath (joinPath cwd ".nerve") "session-meta") "active-goal.json"

def loadActiveGoal (R : Readers) (files : Files) (cwd : PathBuf) : Except RunError (Option GoalSpec) :=
  let path := activeGoalPath cwd
  match files path with
  | none => .ok none
  | some file => do
    let raw ← context s!"failed to read `{path.text}`" file
    if (trim raw.toList).isEmpty then pure none
    else
      let spec ← context s!"invalid active goal JSON in `{path.text}`" (R.goalSpec raw)
      context s!"invalid active goal in `{path.text}`" ((validate spec).mapError fun e => [e.text])
      pure (some spec)

/-- In the directory lies a text that is a goal and passes the screening. -/
def PlantsGoal (R : Readers) (files : Files) (cwd : PathBuf) : Prop :=
  ∃ raw spec, files (activeGoalPath cwd) = some (.ok raw) ∧ trim raw.toList ≠ [] ∧ R.goalSpec raw = .ok spec ∧
    validate spec = .ok ()

theorem bind_eq_ok {α β : Type} {r : Except RunError α} {f : α → Except RunError β} {b : β} :
    (r >>= f) = .ok b ↔ ∃ a, r = .ok a ∧ f a = .ok b := by
  rcases r with e | a
  · simp [bind, Except.bind]
  · simp [bind, Except.bind]

theorem map_eq_ok {α β : Type} {r : Except RunError α} {f : α → β} {b : β} :
    r.map f = .ok b ↔ ∃ a, r = .ok a ∧ f a = b := by
  rcases r with e | a
  · simp [Except.map]
  · simp [Except.map]

theorem mapError_eq_ok {ε ε' α : Type} {g : ε → ε'} {r : Except ε α} {a : α} :
    r.mapError g = .ok a ↔ r = .ok a := by
  rcases r with e | b
  · simp [Except.mapError]
  · simp [Except.mapError]

theorem context_eq_ok {α : Type} {text : String} {r : Except RunError α} {a : α} :
    context text r = .ok a ↔ r = .ok a := mapError_eq_ok

/-- Such a text is loaded, whoever put it there; nothing else is. -/
theorem loadActiveGoal_eq_some_iff {R : Readers} {files : Files} {cwd : PathBuf} {spec : GoalSpec} :
    loadActiveGoal R files cwd = .ok (some spec) ↔
      ∃ raw, files (activeGoalPath cwd) = some (.ok raw) ∧ trim raw.toList ≠ [] ∧ R.goalSpec raw = .ok spec ∧
        validate spec = .ok () := by
  unfold loadActiveGoal
  dsimp only
  rcases files (activeGoalPath cwd) with _ | file
  · simp only [Except.ok.injEq, reduceCtorEq, false_and, exists_false]
  simp only [bind_eq_ok, context_eq_ok, Option.some.injEq]
  refine exists_congr fun raw => and_congr_right fun _ => ?_
  by_cases hblank : trim raw.toList = []
  · simp [hblank, pure, Except.pure]
  · simp only [List.isEmpty_iff, hblank, if_false, ne_eq, not_false_eq_true, true_and, bind_eq_ok, context_eq_ok,
      mapError_eq_ok, pure, Except.pure, Except.ok.injEq, Option.some.injEq]
    constructor
    · rintro ⟨found, hspec, _, hvalid, rfl⟩
      exact ⟨hspec, hvalid⟩
    · rintro ⟨hspec, hvalid⟩
      exact ⟨spec, hspec, (), hvalid, rfl⟩

theorem plantsGoal_iff {R : Readers} {files : Files} {cwd : PathBuf} :
    PlantsGoal R files cwd ↔ ∃ spec, loadActiveGoal R files cwd = .ok (some spec) := by
  simp only [loadActiveGoal_eq_some_iff, PlantsGoal]
  exact exists_comm

/-! ### The command `/goal` -/

inductive GoalAction where
  | show
  | clear
  | registerArgv (argv : List String) (timeoutSecs : Option Nat)
  | registerNaturalLanguage (freeForm : String)
  deriving DecidableEq, Repr

inductive GoalParseError where
  | empty
  | badTimeout
  | emptyNaturalLanguage
  deriving DecidableEq, Repr

def GoalParseError.text : GoalParseError → String
  | .empty =>
    "usage: /goal <argv> | /goal :nl <prose> | /goal \"<prose>\" | /goal show | /goal clear | " ++
      "/goal --timeout N <argv>"
  | .badTimeout => "/goal --timeout requires a positive number"
  | .emptyNaturalLanguage => "/goal natural-language input must be non-empty"

/-- The forms in natural language, `:nl` and the quoted one. -/
def parseGoalNlForm (raw : List Char) : Option (Except GoalParseError GoalAction) :=
  let trimmed := trim raw
  if trimmed.isEmpty then none
  else
    match stripPrefix ":nl".toList trimmed with
    | some body =>
      let freeForm := trim body
      some (if freeForm.isEmpty then .error .emptyNaturalLanguage
        else .ok (.registerNaturalLanguage (String.ofList freeForm)))
    | none =>
      if trimmed.head? = some '"' ∧ trimmed.getLast? = some '"' ∧ 2 ≤ trimmed.length then
        let inner := trimmed.tail.dropLast
        some (if inner.isEmpty then .error .emptyNaturalLanguage
          else .ok (.registerNaturalLanguage (String.ofList inner)))
      else none

/-- The arguments after those already read. -/
def goalArguments (argv : List String) (timeoutSecs : Option Nat) :
    List String → Except GoalParseError (List String × Option Nat)
  | [] => .ok (argv, timeoutSecs)
  | token :: rest =>
    if token = "--timeout" then
      match rest with
      | [] => .error .badTimeout
      | value :: rest =>
        match parseUsize value.toList with
        | none => .error .badTimeout
        | some 0 => .error .badTimeout
        | some secs => goalArguments argv (some secs) rest
    else goalArguments (argv ++ [token]) timeoutSecs rest

def parseGoalArgv (tokens : List String) : Except GoalParseError GoalAction :=
  match tokens with
  | [] => .error .empty
  | ["show"] => .ok .show
  | ["clear"] => .ok .clear
  | tokens => do
    let (argv, timeoutSecs) ← goalArguments [] none tokens
    if argv.isEmpty then .error .empty else pure (.registerArgv argv timeoutSecs)

def parseGoalArgvWithRaw (tokens : List String) (raw : List Char) : Except GoalParseError GoalAction :=
  match parseGoalNlForm raw with
  | some action => action
  | none => parseGoalArgv tokens

end Nerve.Session
