import Nerve.Run.CheckDeadline
import Nerve.Sandbox.Decision

/-!
# The confinement of a check

`spawn_and_wait` as a whole: it mints a directory for the check, decides on the words that the check is started with, and
proves them under `required` with a canary, before it starts them. Under `required` a check that passes has run under all
that the mode insists on, under which a canary had been seen to be refused (`required_confined`): the jail on Linux, with
Landlock where it is asked for, and the profile on macOS. The mode does not insist on the list of system calls; and what
the other system has, Landlock and that list or the paths that are not to be read, is not looked at. Otherwise the check
runs under what there is, and of every layer of the system that is missing the operator is told (`lost_layers_told`).
-/

namespace Nerve.Run.GoalEvaluator

open Sandbox Text Utf8

/-! ### Before the check is started -/

/-- `GoalError`, as far as an evaluation meets it. -/
inductive GoalError where
  | spawnFailed (error : String)
  | privateTmpDir (error : String)
  deriving DecidableEq, Repr

def GoalError.toString : GoalError → String
  | .spawnFailed error => "failed to spawn goal check command: " ++ error
  | .privateTmpDir error => "failed to create per-check private temp dir: " ++ error

/-- `CONFINEMENT_SELFTEST_FAILED`. -/
def confinementSelftestFailed : String :=
  "sandbox confinement self-test failed: an out-of-root write was NOT denied under sandbox.mode=required; " ++
    "refusing to run the check unconfined (fail closed)"

/-- The evaluator, after `with_options` has accepted it. -/
structure Evaluator where
  checkCmd : List String
  cwd : OsPath
  sandbox : CheckSandbox
  outputCap : Nat
  timeoutSecs : Nat
  checkCmd_ne_nil : checkCmd ≠ []
  cwd_ne_nil : cwd ≠ []

/-- The words of the canary of `run_confinement_probe`. -/
def canaryCmd : List String :=
  ["sh", "-c", "printf x > \"$NERVE_CANARY_LIVE\"; printf x > \"$NERVE_CANARY_ESCAPE\""]

/-- What becomes of a canary: it is not started, it is not waited for to the end, or it is, and the two files are there or
not. -/
inductive CanaryAnswer where
  | spawnFailed (error : String)
  | unfinished
  | finished (escapeExists liveExists : Bool)
  deriving DecidableEq, Repr

/-- `canary_confined`. -/
def canaryConfined (escapeExists liveExists : Bool) : Bool := !escapeExists && liveExists

/-- The lines as they are in a stream. -/
def joinLines (lines : List String) : List Char := lines.flatMap fun line => line.toList ++ ['\n']

/-- What a stream carries, put together. -/
def Pipe.bytes (p : Pipe) : List UInt8 := p.reads.flatMap PipeRead.chunk

/-- The system that an evaluation runs on. A process does what `Kernel.start` says: where that exits, it exits so, and
stderr begins with the lines that are written there. The file that the canary may write is there only if the canary was
executed. -/
structure World where
  host : Host
  kernel : Kernel
  privateTmp : Except String OsPath
  probeDir : Except String OsPath
  canary : Command → CanaryAnswer
  process : Command → Except String Behaviour
  privateTmp_ne_nil : ∀ dir, privateTmp = .ok dir → dir ≠ []
  isNv : ∀ exe ∈ host.currentExe, kernel.isNv (toStringLossy exe) = true
  live : ∀ command escape, canary command = .finished escape true →
    ∃ under, .executes canaryCmd under ∈ kernel.start command
  exits : ∀ command b, process command = .ok b → ∀ front code, kernel.start command = front ++ [.exits code] →
    ∀ t status, b.exit = some (t, .ok status) → status = .exited code
  stderr : ∀ command b, process command = .ok b →
    ∃ rest, b.stderr.bytes = encode (joinLines (linesOf (kernel.start command))) ++ rest

section evaluation

variable (w : World) (e : Evaluator)

/-- `private_check_tmpdir`. -/
def privateCheckTmpdir : Except GoalError (Option OsPath) :=
  if !e.sandbox.isEnabled then .ok none
  else
    match w.privateTmp with
    | .error error => .error (.privateTmpDir error)
    | .ok dir => .ok (some dir)

/-- `decide`, as `spawn_and_wait` and `run_confinement_probe` call it. -/
def decideOn (extra : List OsPath) (command : List String) : SandboxDecision :=
  sandboxDecide w.host e.sandbox e.cwd extra command (confineHelperPath w.host e.sandbox)

/-- `verify_confinement`, with `run_confinement_probe`. -/
def verifyConfinement (extra : List OsPath) : Except GoalError Bool :=
  match w.probeDir with
  | .error error => .error (.privateTmpDir error)
  | .ok _ =>
    match decideOn w e extra canaryCmd with
    | .wrap program args =>
      match w.canary ⟨program, args⟩ with
      | .spawnFailed error => .error (.spawnFailed error)
      | .unfinished => .ok false
      | .finished escapeExists liveExists => .ok (canaryConfined escapeExists liveExists)
    | _ => .ok false

/-- What `spawn_and_wait` does next: it returns an error, or a failure, or it starts a command. -/
inductive NextStep where
  | errs (error : GoalError)
  | fails (reason : String)
  | spawns (command : Command)
  deriving DecidableEq, Repr

structure Preparation where
  warnings : List String
  ranUnconfined : Bool
  next : NextStep
  deriving DecidableEq, Repr

def helperUnresolvedWarning : String :=
  "sandbox.landlock/seccomp requested but the Nerve binary path could not be resolved; running under bwrap-only " ++
    "confinement (best-effort, the extra layer is dropped)"

/-- The warning about a helper that cannot be found. -/
def helperWarnings : List String :=
  let wantsHelper := e.sandbox.landlock || e.sandbox.seccomp
  if wantsHelper && (confineHelperPath w.host e.sandbox).isNone &&
    !confineUnresolvedHelperRefuses e.sandbox.mode e.sandbox.landlock then [helperUnresolvedWarning] else []

/-- `spawn_and_wait`, until the check is started. -/
def prepare : Preparation :=
  match privateCheckTmpdir w e with
  | .error error => ⟨[], false, .errs error⟩
  | .ok privateTmp =>
    let extra := privateTmp.toList
    let warnings := helperWarnings w e
    match decideOn w e extra e.checkCmd with
    | .unconfined warning =>
      ⟨warnings ++ warning.toList, warning.isSome, .spawns ⟨e.checkCmd.headD "", e.checkCmd.tail⟩⟩
    | .wrap program args =>
      if e.sandbox.mode = .required then
        match privateTmp with
        | none => ⟨warnings, false, .fails confinementSelftestFailed⟩
        | some _ =>
          match verifyConfinement w e extra with
          | .error error => ⟨warnings, false, .errs error⟩
          | .ok false => ⟨warnings, false, .fails confinementSelftestFailed⟩
          | .ok true => ⟨warnings, false, .spawns ⟨program, args⟩⟩
      else ⟨warnings, false, .spawns ⟨program, args⟩⟩
    | .refuse reason => ⟨warnings, false, .fails reason⟩

/-- What the rest of `spawn_and_wait` has to do with. -/
def launch : NextStep → Launch
  | .errs error => .failed error.toString
  | .fails reason => .refused reason
  | .spawns command =>
    match w.process command with
    | .error error => .failed (GoalError.spawnFailed error).toString
    | .ok b => .started b

/-- `GoalEvaluator::evaluate`. -/
def check : Option (Tick × CheckOutcome) :=
  evaluate e.outputCap e.timeoutSecs (prepare w e).ranUnconfined (launch w (prepare w e).next)

/-! ### What is told after it -/

/-- `stderr_signals_landlock_degraded`. -/
def stderrSignalsLandlockDegraded (stderr : List Char) : Bool := (before confineDegradedMarker.toList stderr).isSome

/-- `stderr_signals_seccomp_degraded`. -/
def stderrSignalsSeccompDegraded (stderr : List Char) : Bool :=
  (before confineSeccompDegradedMarker.toList stderr).isSome

def landlockWarning : String :=
  "sandbox.landlock=true ran best-effort: the kernel could not fully enforce Landlock, so this check ran under " ++
    "bwrap-only confinement. Set sandbox.mode=required to fail closed instead."

def seccompWarning : String :=
  "sandbox.seccomp=true ran best-effort: the kernel could not install the seccomp denylist, so this check ran without " ++
    "it (bwrap + any Landlock layer still applied)."

/-- What was captured of stderr when the process has exited, if it was drained in time and fits. -/
def capturedStderr (b : Behaviour) : Option (List Char) :=
  match timeout (deadline e.timeoutSecs)
    (join (readCapped e.outputCap (some b.stdout)) (readCapped e.outputCap (some b.stderr))), b.exit with
  | some (_, _, .ok text), some (_, .ok _) => some text
  | _, _ => none

/-- The warnings about what was captured. -/
def stderrWarnings (b : Behaviour) : List String :=
  match capturedStderr e b with
  | some text =>
    (if stderrSignalsLandlockDegraded text then [landlockWarning] else []) ++
      if stderrSignalsSeccompDegraded text then [seccompWarning] else []
  | none => []

end evaluation

/-! ### What is started -/

section started

variable {w : World} {e : Evaluator} {command : Command}

theorem privateCheckTmpdir_isSome {privateTmp : Option OsPath} (h : privateCheckTmpdir w e = .ok privateTmp)
    (hmode : e.sandbox.isEnabled = true) : ∃ dir, privateTmp = some dir ∧ w.privateTmp = .ok dir := by
  rw [privateCheckTmpdir, hmode] at h
  cases hdir : w.privateTmp with
  | error error => simp [hdir] at h
  | ok dir => exact ⟨dir, by simpa [hdir] using h.symm, rfl⟩

/-- What a command is that is started: the check, where there is no backend, or the words of the backend, which were
proved under `required`. -/
theorem next_eq_spawns (h : (prepare w e).next = .spawns command) :
    ∃ privateTmp, privateCheckTmpdir w e = .ok privateTmp ∧
      ((∃ warning, decideOn w e privateTmp.toList e.checkCmd = .unconfined warning ∧
        command = ⟨e.checkCmd.headD "", e.checkCmd.tail⟩ ∧
        (prepare w e).warnings = helperWarnings w e ++ warning.toList ∧
        (prepare w e).ranUnconfined = warning.isSome) ∨
      (decideOn w e privateTmp.toList e.checkCmd = .wrap command.program command.args ∧
        (prepare w e).warnings = helperWarnings w e ∧ (prepare w e).ranUnconfined = false ∧
        (e.sandbox.mode = .required → verifyConfinement w e privateTmp.toList = .ok true))) := by
  rw [prepare] at h ⊢
  split at h
  · cases h
  · rename_i privateTmp htmp
    refine ⟨privateTmp, htmp, ?_⟩
    dsimp only at h ⊢
    split at h
    · rename_i warning hdecide
      cases h
      exact .inl ⟨warning, hdecide, rfl, rfl, rfl⟩
    · rename_i program args hdecide
      split at h
      · rename_i hrequired
        cases privateTmp with
        | none => cases h
        | some dir =>
          dsimp only at h
          split at h
          · cases h
          · cases h
          · rename_i hproved
            cases h
            rw [if_pos hrequired]
            exact .inr ⟨hdecide, rfl, rfl, fun _ => hproved⟩
      · rename_i hauto
        cases h
        rw [if_neg hauto]
        exact .inr ⟨hdecide, rfl, rfl, fun hrequired => absurd hrequired hauto⟩
    · cases h

theorem verifyConfinement_ok {extra : List OsPath} (h : verifyConfinement w e extra = .ok true) :
    ∃ canary : Command, decideOn w e extra canaryCmd = .wrap canary.program canary.args ∧
      w.canary canary = .finished false true := by
  rw [verifyConfinement] at h
  split at h
  · cases h
  · split at h
    · rename_i program args hdecide
      split at h
      · cases h
      · cases h
      · rename_i escapeExists liveExists hcanary
        cases escapeExists <;> cases liveExists <;> simp [canaryConfined] at h
        exact ⟨⟨program, args⟩, hdecide, hcanary⟩
    · cases h

/-- Under `required` nothing is decided to run without a backend. -/
theorem decideOn_ne_unconfined {extra : List OsPath} {check : List String} (hmode : e.sandbox.mode = .required)
    (warning : Option String) : decideOn w e extra check ≠ .unconfined warning := by
  intro h
  obtain ⟨hoff, -⟩ | h := sandboxDecide_unconfined h
  · simp [CheckSandbox.isEnabled, hmode] at hoff
  · simp [hmode, noBackendDecide] at h

/-- The words of a wrapper are more than those of the check. -/
theorem length_lt_of_wrapper {check argv : List String} {extra : List OsPath}
    (hwrap : decideOn w e extra check = .wrap command.program command.args)
    (h : argv = command.argv ∨ argv ∈ w.host.helperArgv e.sandbox e.cwd extra check) : check.length < argv.length := by
  have hhelper : ∀ argv ∈ w.host.helperArgv e.sandbox e.cwd extra check, check.length < argv.length := by
    intro argv hargv
    obtain ⟨nv, -, rfl⟩ := Option.map_eq_some_iff.mp hargv
    rw [buildConfineHelperArgv_eq]
    simp
    omega
  obtain rfl | h := h
  · obtain ⟨-, -, hargs⟩ | ⟨-, -, hargs, -⟩ := sandboxDecide_wrap hwrap
    · rw [Command.argv, hargs]
      simp
      omega
    · rw [Command.argv, hargs, bwrapArgs_eq_words]
      cases hargv : w.host.helperArgv e.sandbox e.cwd extra check with
      | none =>
        simp
        omega
      | some argv =>
        have hlength := hhelper argv hargv
        simp
        omega
  · exact hhelper argv h

end started

/-! ### A system -/

section plain

/-- The exit code of a process that does what the events say, and nothing else. -/
def codeOf (events : List Event) : Nat :=
  match events.getLast? with
  | some (.exits code) => code
  | _ => 0

/-- A stream that carries a text at once. -/
def pipeOf (bytes : List UInt8) (hbytes : bytes.length < 2 ^ 64) : Pipe where
  reads := if bytes.isEmpty then [] else [⟨0, bytes⟩]
  closes := some 0
  proper r hr := by
    split_ifs at hr with hempty
    · cases hr
    · obtain rfl := List.mem_singleton.mp hr
      exact List.length_pos_iff.mpr (by simpa using hempty)
  ordered := by split_ifs <;> simp
  last t ht r hr := by
    split_ifs at hr
    · cases hr
    · obtain rfl := List.mem_singleton.mp hr
      exact Nat.zero_le t
  countable := by
    split_ifs
    · simp
    · simpa using hbytes

theorem bytes_pipeOf (bytes : List UInt8) (hbytes : bytes.length < 2 ^ 64) : (pipeOf bytes hbytes).bytes = bytes := by
  rw [Pipe.bytes, pipeOf]
  split_ifs with hempty
  · simpa using hempty.symm
  · simp

def isCanary : Event → Bool
  | .executes argv _ => argv = canaryCmd
  | _ => false

/-- The system on which processes do nothing but what `Kernel.start` says. -/
def World.plain (host : Host) (kernel : Kernel) (dir : OsPath) (hdir : dir ≠ [])
    (hnv : ∀ exe ∈ host.currentExe, kernel.isNv (toStringLossy exe) = true) : World where
  host := host
  kernel := kernel
  privateTmp := .ok dir
  probeDir := .ok [47, 112]
  canary command := .finished false ((kernel.start command).any isCanary)
  process command :=
    if h : (encode (joinLines (linesOf (kernel.start command)))).length < 2 ^ 64 then
      .ok ⟨pipeOf [] (Nat.two_pow_pos 64), pipeOf _ h, some (0, .ok (.exited (codeOf (kernel.start command)))), 0⟩
    else .error "too much"
  privateTmp_ne_nil dir' h := by
    cases h
    exact hdir
  isNv := hnv
  live command escape h := by
    obtain ⟨event, hevent, hcanary⟩ := List.any_eq_true.mp (CanaryAnswer.finished.inj h).2
    cases event with
    | executes argv under =>
      obtain rfl : argv = canaryCmd := by simpa [isCanary] using hcanary
      exact ⟨under, hevent⟩
    | prints line => cases hcanary
    | exits code => cases hcanary
  exits command b h front code htrace t status hexit := by
    split_ifs at h
    cases h
    cases hexit
    simp [codeOf, htrace]
  stderr command b h := by
    split_ifs at h with hlength
    cases h
    exact ⟨[], by simp [bytes_pipeOf]⟩

/-- Linux, with `bwrap` or without, and `nv` at `/nv`. -/
def linux (bwrap : Bool) : Host where
  os := "linux"
  isFile path := bwrap && path = "/usr/bin/bwrap"
  pathExists _ := false
  canonicalize path := if path = [] then none else some path
  currentExe := some [47, 110, 118]
  home := none
  canonicalize_ne_nil p q h := by
    obtain ⟨hp, heq⟩ := Option.ite_none_left_eq_some.mp h
    exact Option.some.inj heq ▸ hp

/-- A kernel on which everything works. -/
def newKernel : Kernel where
  grammar := usedOptions
  makesJail _ := true
  takesProfile _ := true
  wrapperFails := ⟨1, by decide⟩
  exec _ := none
  isNv program := program = "/nv"
  landlock := ⟨true, fun _ => true, fun _ => true, some .fullyEnforced⟩
  seccomp := ⟨fun _ => 0, true, true, true⟩

def linuxWorld (bwrap : Bool) : World :=
  .plain (linux bwrap) newKernel [47, 116] (by decide) fun exe hexe => by
    cases hexe
    rfl

def trueUnder (mode : SandboxMode) : Evaluator where
  checkCmd := ["true"]
  cwd := [47]
  sandbox := ⟨⟨mode, false, true, true⟩, false⟩
  outputCap := 1000
  timeoutSecs := 1
  checkCmd_ne_nil := by decide
  cwd_ne_nil := by decide

end plain

/-! ### Required -/

section required

variable (w : World) (e : Evaluator)

/-- The command is the wrappers, when it is started, and then `check`, under all that is required. -/
def RunsRequired (dir : OsPath) (check : List String) (command : Command) : Prop :=
  BecomesCheck w.kernel w.host e.sandbox e.cwd [dir] check command (w.host.required w.kernel e.sandbox e.cwd [dir])
    (w.kernel.start command)

/-- How a check is started: a canary was seen to be refused under the confinement that the check gets, which is complete,
and the check is executed under nothing else. -/
structure StartedConfined (dir : OsPath) (command : Command) : Prop where
  minted : w.privateTmp = .ok dir
  complete : Complete w.kernel w.host e.sandbox e.cwd [dir] (w.host.required w.kernel e.sandbox e.cwd [dir])
  proved : ∃ canary, w.canary canary = .finished false true ∧ RunsRequired w e dir canaryCmd canary
  runs : RunsRequired w e dir e.checkCmd command ∨
    ExitsBefore w.host e.sandbox e.cwd [dir] e.checkCmd command (w.kernel.start command)

variable {w e}

/-- What is decided on under `required` is executed under what is required, or it exits. -/
theorem runsRequired_of_wrap {dir : OsPath} (hdir : dir ≠ []) (hmode : e.sandbox.mode = .required) {check : List String}
    (hcheck : check ≠ []) {command : Command} (hwrap : decideOn w e [dir] check = .wrap command.program command.args) :
    RunsRequired w e dir check command ∨
      ExitsBefore w.host e.sandbox e.cwd [dir] check command (w.kernel.start command) := by
  refine (start_decided hwrap w.isNv hcheck e.cwd_ne_nil (by simpa using hdir)).imp_left ?_
  rintro ⟨under, front, after, htrace, hfront, hasked⟩
  obtain rfl := hasked.eq_required hmode
  exact ⟨front, after, htrace, hfront, hasked⟩

/-- Wrappers that exit do not execute what they wrap. -/
theorem not_executes_of_exits {dir : OsPath} {check : List String} {command : Command}
    (hwrap : decideOn w e [dir] check = .wrap command.program command.args)
    (h : ExitsBefore w.host e.sandbox e.cwd [dir] check command (w.kernel.start command)) (under : Confinement) :
    .executes check under ∉ w.kernel.start command := by
  obtain ⟨front, code, htrace, hfront⟩ := h
  rw [htrace]
  intro hmem
  have hfront := hfront check under (by simpa using hmem)
  exact absurd (length_lt_of_wrapper hwrap hfront) (lt_irrefl _)

theorem startedConfined (hmode : e.sandbox.mode = .required) {command : Command}
    (h : (prepare w e).next = .spawns command) : ∃ dir, StartedConfined w e dir command := by
  obtain ⟨privateTmp, htmp, ⟨warning, hdecide, -⟩ | ⟨hwrap, -, -, hproved⟩⟩ := next_eq_spawns h
  · exact absurd hdecide (decideOn_ne_unconfined hmode warning)
  · obtain ⟨dir, rfl, hminted⟩ := privateCheckTmpdir_isSome htmp (by simp [CheckSandbox.isEnabled, hmode])
    have hdir := w.privateTmp_ne_nil dir hminted
    obtain ⟨canary, hcanary, hfinished⟩ := verifyConfinement_ok (hproved hmode)
    refine ⟨dir, hminted, complete_required hmode hwrap, ⟨canary, hfinished, ?_⟩,
      runsRequired_of_wrap hdir hmode e.checkCmd_ne_nil hwrap⟩
    refine (runsRequired_of_wrap hdir hmode (by simp [canaryCmd]) hcanary).resolve_right fun hexits => ?_
    obtain ⟨under, hlive⟩ := w.live canary false hfinished
    exact not_executes_of_exits hcanary hexits under hlive

/-- A check that passes was started, and has exited with code 0. -/
theorem exited_of_pass {cap timeoutSecs : Nat} {ranUnconfined : Bool} {launched : Launch} {t : Tick} {outcome : CheckOutcome}
    (h : evaluate cap timeoutSecs ranUnconfined launched = some (t, outcome)) (hpass : outcome.result = .pass) :
    ∃ b exitsAt, launched = .started b ∧ b.exit = some (exitsAt, .ok (.exited 0)) := by
  cases launched with
  | refused reason =>
    simp only [evaluate, spawnAndWait, Option.map_some, Option.some.injEq, Prod.mk.injEq] at h
    obtain ⟨-, rfl⟩ := h
    cases hpass
  | failed error =>
    simp only [evaluate, spawnAndWait, Option.map_some, Option.some.injEq, Prod.mk.injEq] at h
    obtain ⟨-, rfl⟩ := h
    cases hpass
  | started b =>
    by_cases hended : b.stdout.EndedBy cap (deadline timeoutSecs) ∧ b.stderr.EndedBy cap (deadline timeoutSecs)
    · obtain ⟨drainedAt, -, result, heval, hresult⟩ := evaluate_drained ranUnconfined hended.1 hended.2
      rw [heval] at h
      obtain ⟨⟨exitsAt, exits⟩, hexit, h⟩ := Option.map_eq_some_iff.mp h
      cases h
      obtain ⟨-, hsucceeds⟩ | ⟨⟨reason, progress, hfail⟩, -⟩ := hresult exits
      · rw [Fails, not_or] at hsucceeds
        obtain ⟨hstatus, -⟩ := hsucceeds
        push Not at hstatus
        obtain ⟨status, rfl, hsuccess⟩ := hstatus
        obtain rfl : status = .exited 0 := by simpa [ExitStatus.success] using hsuccess
        exact ⟨b, exitsAt, rfl, hexit⟩
      · cases hpass.symm.trans hfail
    · obtain ⟨reason, heval⟩ := evaluate_timeout ranUnconfined hended
      rw [heval] at h
      cases h
      cases hpass

theorem ranUnconfined_required (hmode : e.sandbox.mode = .required) : (prepare w e).ranUnconfined = false := by
  rw [prepare]
  split
  · rfl
  · dsimp only
    split
    · exact absurd ‹_› (decideOn_ne_unconfined hmode _)
    · rw [if_pos hmode]
      split
      · rfl
      · split <;> rfl
    · rfl

/-- Nothing ran unconfined that was not to. -/
theorem ranUnconfined_evaluate {cap timeoutSecs : Nat} {launched : Launch} {t : Tick} {outcome : CheckOutcome}
    (h : evaluate cap timeoutSecs false launched = some (t, outcome)) : outcome.ranUnconfined = false := by
  obtain ⟨⟨u, answer⟩, hspawn, h⟩ := Option.map_eq_some_iff.mp h
  cases launched with
  | refused reason =>
    cases hspawn
    cases h
    rfl
  | failed error =>
    cases hspawn
    cases h
    rfl
  | started b =>
    rw [spawnAndWait] at hspawn
    dsimp only at hspawn
    split at hspawn
    · cases hspawn
      cases h
      rfl
    · split at hspawn
      · cases hspawn
      · cases hspawn
        cases h
        rfl
      · cases hspawn
        cases h
        rfl

/-- **Under `required` a check runs under all that is required, or not at all.** Whatever is started is the check under a
confinement that is complete and was proved by a canary, or exits before the check is executed. A check that passes was
executed so. -/
theorem required_confined (w : World) (e : Evaluator) (hmode : e.sandbox.mode = .required) :
    (∀ command, (prepare w e).next = .spawns command → ∃ dir, StartedConfined w e dir command) ∧
    ∀ t outcome, check w e = some (t, outcome) → outcome.ranUnconfined = false ∧
      (outcome.result = .pass → ∃ command dir, (prepare w e).next = .spawns command ∧ StartedConfined w e dir command ∧
        RunsRequired w e dir e.checkCmd command) := by
  refine ⟨fun command => startedConfined hmode, fun t outcome h => ⟨?_, fun hpass => ?_⟩⟩
  · rw [check, ranUnconfined_required hmode] at h
    exact ranUnconfined_evaluate h
  · obtain ⟨b, exitsAt, hstarted, hexit⟩ := exited_of_pass h hpass
    rw [launch.eq_def] at hstarted
    split at hstarted
    · cases hstarted
    · cases hstarted
    · rename_i command hnext
      split at hstarted
      · cases hstarted
      · rename_i b' hprocess
        cases hstarted
        obtain ⟨dir, hconfined⟩ := startedConfined hmode hnext
        refine ⟨command, dir, hnext, hconfined, hconfined.runs.resolve_right ?_⟩
        -- a wrapper that exits has failed
        rintro ⟨front, code, htrace, -⟩
        have hexits := w.exits command b hprocess front code htrace exitsAt _ hexit
        exact code.property (ExitStatus.exited.inj hexits).symm

theorem required_confined_bwrap :
    ∃ t, check (linuxWorld true) (trueUnder .required) = some (t, ⟨.pass, false⟩) ∧
      ∃ command dir, (prepare (linuxWorld true) (trueUnder .required)).next = .spawns command ∧
        StartedConfined (linuxWorld true) (trueUnder .required) dir command ∧
        RunsRequired (linuxWorld true) (trueUnder .required) dir ["true"] command := by
  obtain ⟨-, hpass⟩ := required_confined (linuxWorld true) (trueUnder .required) rfl
  exact ⟨_, rfl, (hpass _ _ rfl).2 rfl⟩

end required

/-! ### What is captured -/

section captured

theorem readFrom_ok {cap : Nat} {closes : Option Tick} {buf : List UInt8} {reads : List PipeRead} {t : Tick}
    {text : List Char} (hproper : ∀ r ∈ reads, 0 < r.chunk.length)
    (h : readFrom cap closes buf reads = some (t, .ok text)) : text = decode (buf ++ reads.flatMap PipeRead.chunk) := by
  induction reads generalizing buf with
  | nil =>
    obtain ⟨u, -, h⟩ := Option.map_eq_some_iff.mp h
    cases h
    simp
  | cons r reads ih =>
    obtain ⟨hr, hproper⟩ := List.forall_mem_cons.mp hproper
    rw [readFrom, if_neg (by omega)] at h
    split_ifs at h
    · cases h
    · rw [ih hproper h, List.flatMap_cons, List.append_assoc]

/-- What is captured is all that the stream carries. -/
theorem capturedStderr_eq {e : Evaluator} {b : Behaviour} {text : List Char} (h : capturedStderr e b = some text) :
    text = decode b.stderr.bytes := by
  rw [capturedStderr] at h
  split at h
  · rename_i drainedAt stdoutRes text' exitsAt status hdrained hexit
    cases h
    have hjoin := (Option.filter_eq_some_iff.mp hdrained).1
    obtain ⟨⟨t, x⟩, -, hjoin⟩ := Option.bind_eq_some_iff.mp hjoin
    obtain ⟨⟨u, y⟩, hread, hjoin⟩ := Option.bind_eq_some_iff.mp hjoin
    cases hjoin
    exact readFrom_ok b.stderr.proper hread
  · cases h

/-- What goes over no line end is on a line, or behind the lines. -/
theorem infix_joinLines_append {p own : List Char} (hp : '\n' ∉ p) (lines : List String) :
    p <:+: joinLines lines ++ own ↔ (∃ line ∈ lines, p <:+: line.toList) ∨ p <:+: own := by
  induction lines with
  | nil => simp [joinLines]
  | cons line lines ih =>
    have hcons : joinLines (line :: lines) ++ own = line.toList ++ '\n' :: (joinLines lines ++ own) := by simp [joinLines]
    rw [hcons, infix_append_cons_iff hp, ih, List.exists_mem_cons_iff, or_assoc]

theorem infix_between (a m b : String) : m.toList <:+: (a ++ m ++ b).toList := ⟨a.toList, b.toList, by simp⟩

theorem infix_append {p : List Char} {s : String} (h : p <:+: s.toList) (t : String) : p <:+: (s ++ t).toList := by
  rw [String.toList_append]
  exact h.trans (List.prefix_append _ _).isInfix

theorem marker_degraded (enforcement : LandlockEnforcement) :
    confineDegradedMarker.toList <:+: (confineDegradedMessage enforcement).toList :=
  infix_append (infix_append (infix_between _ confineDegradedMarker _) _) _

theorem marker_seccompDegraded : confineSeccompDegradedMarker.toList <:+: confineSeccompDegradedMessage.toList :=
  infix_between _ confineSeccompDegradedMarker _

theorem toList_append_of {s t : String} {a b : List Char} (ha : s.toList = a) (hb : t.toList = b) :
    (s ++ t).toList = a ++ b :=
  String.toList_append.trans (congrArg₂ _ ha hb)

/-- The helper does not write one marker for the other. -/
theorem marker_not_seccompDegraded : ¬ confineDegradedMarker.toList <:+: confineSeccompDegradedMessage.toList := by
  -- The characters are read off the literals by lemmas: to evaluate `toList` on them is slow.
  have hmarker : confineDegradedMarker.toList = _ := String.toList_ofList
  have hmessage : confineSeccompDegradedMessage.toList = _ :=
    toList_append_of (toList_append_of String.toList_ofList String.toList_ofList) String.toList_ofList
  rw [← before_isSome_iff, hmarker, hmessage]
  decide +kernel

theorem seccompMarker_not_degraded (enforcement : LandlockEnforcement) :
    ¬ confineSeccompDegradedMarker.toList <:+: (confineDegradedMessage enforcement).toList := by
  have hmarker : confineSeccompDegradedMarker.toList = _ := String.toList_ofList
  have hmessage : (confineDegradedMessage enforcement).toList = _ :=
    toList_append_of (toList_append_of (toList_append_of (toList_append_of String.toList_ofList String.toList_ofList)
      String.toList_ofList) rfl) String.toList_ofList
  rw [← before_isSome_iff, hmarker, hmessage]
  cases enforcement <;> decide +kernel

end captured

/-! ### What the operator is told -/

section told

variable (w : World) (e : Evaluator)

/-- The command is the wrappers, when it is started, which write the lines, and then the check under `under`. -/
def RunsUnder (dir : OsPath) (command : Command) (under : Confinement) (lines : List String) : Prop :=
  ∃ front after, w.kernel.start command = front ++ .executes e.checkCmd under :: after ∧
    OfWrappers w.host e.sandbox e.cwd [dir] e.checkCmd command front ∧ linesOf front = lines

/-- All of Landlock is in force. -/
def hasLandlock (under : Confinement) : Bool := under.landlock.any Landlocked.whole

/-- What the operator is told of the layers that are asked for, that the system has and that `under` lacks; Landlock and
seccomp are Linux's. `own` is what the check itself has written to stderr: it can make a warning appear, but cannot make
one disappear. -/
structure Told (b : Behaviour) (under : Confinement) (own : List Char) : Prop where
  unconfined : under = {} → (prepare w e).ranUnconfined = true ∧
    ∃ warning ∈ (prepare w e).warnings, noBackendDecide w.host.os e.sandbox.mode = .unconfined (some warning)
  confined : under ≠ {} → (prepare w e).ranUnconfined = false
  landlock : w.host.os = "linux" → e.sandbox.landlock = true → hasLandlock under = false → under ≠ {} →
    helperUnresolvedWarning ∈ (prepare w e).warnings ∨ landlockWarning ∈ stderrWarnings e b
  seccomp : w.host.os = "linux" → e.sandbox.seccomp = true → under.seccomp = none → under ≠ {} →
    helperUnresolvedWarning ∈ (prepare w e).warnings ∨ seccompWarning ∈ stderrWarnings e b
  landlock_only : landlockWarning ∈ stderrWarnings e b →
    e.sandbox.landlock = true ∧ hasLandlock under = false ∨ confineDegradedMarker.toList <:+: own
  seccomp_only : seccompWarning ∈ stderrWarnings e b →
    e.sandbox.seccomp = true ∧ under.seccomp = none ∨ confineSeccompDegradedMarker.toList <:+: own
  before_only : ∀ warning ∈ (prepare w e).warnings,
    (warning = helperUnresolvedWarning ∧ (e.sandbox.landlock || e.sandbox.seccomp) = true ∧ under.landlock = none ∧
      under.seccomp = none) ∨
    (under = {} ∧ noBackendDecide w.host.os e.sandbox.mode = .unconfined (some warning))

variable {w e} {b : Behaviour} {text own : List Char} {lines : List String}

theorem landlockWarning_mem (htext : capturedStderr e b = some text) (heq : text = joinLines lines ++ own) :
    landlockWarning ∈ stderrWarnings e b ↔
      (∃ line ∈ lines, confineDegradedMarker.toList <:+: line.toList) ∨ confineDegradedMarker.toList <:+: own := by
  have hother : landlockWarning ≠ seccompWarning := by decide
  rw [← infix_joinLines_append (by decide), ← heq, ← before_isSome_iff, stderrWarnings, htext]
  by_cases hsignals : (before confineDegradedMarker.toList text).isSome = true <;>
    simp [hother, hsignals, stderrSignalsLandlockDegraded]

theorem seccompWarning_mem (htext : capturedStderr e b = some text) (heq : text = joinLines lines ++ own) :
    seccompWarning ∈ stderrWarnings e b ↔
      (∃ line ∈ lines, confineSeccompDegradedMarker.toList <:+: line.toList) ∨
        confineSeccompDegradedMarker.toList <:+: own := by
  have hother : seccompWarning ≠ landlockWarning := by decide
  rw [← infix_joinLines_append (by decide), ← heq, ← before_isSome_iff, stderrWarnings, htext]
  by_cases hsignals : (before confineSeccompDegradedMarker.toList text).isSome = true <;>
    simp [hother, hsignals, stderrSignalsSeccompDegraded]

/-- What is captured begins with the lines of the wrappers. -/
theorem RunsUnder.exists_own {dir : OsPath} {command : Command} {under : Confinement}
    (h : RunsUnder w e dir command under lines) (hprocess : w.process command = .ok b)
    (htext : capturedStderr e b = some text) : ∃ own, text = joinLines lines ++ own := by
  obtain ⟨front, after, htrace, -, rfl⟩ := h
  obtain ⟨rest, hbytes⟩ := w.stderr command b hprocess
  refine ⟨joinLines (linesOf after) ++ decode rest, ?_⟩
  have hlines : linesOf (w.kernel.start command) = linesOf front ++ linesOf after := by
    rw [htrace, linesOf, List.filterMap_append]
    rfl
  rw [capturedStderr_eq htext, hbytes, decode_encode_append, hlines]
  simp [joinLines]

/-- The check is started as it is where there is no backend. -/
theorem runsUnder_unconfined (w : World) (e : Evaluator) (dir : OsPath) :
    RunsUnder w e dir ⟨e.checkCmd.headD "", e.checkCmd.tail⟩ {} [] := by
  have hargv : (⟨e.checkCmd.headD "", e.checkCmd.tail⟩ : Command).argv = e.checkCmd := by
    obtain ⟨program, args, heq⟩ := List.exists_cons_of_ne_nil e.checkCmd_ne_nil
    rw [heq]
    rfl
  obtain ⟨after, hstart⟩ : ∃ after, w.kernel.start ⟨e.checkCmd.headD "", e.checkCmd.tail⟩ =
      .executes (⟨e.checkCmd.headD "", e.checkCmd.tail⟩ : Command).argv {} :: after := by
    rw [Kernel.start]
    split_ifs <;> exact ⟨_, rfl⟩
  exact ⟨[], after, by rw [hstart, hargv]; rfl, ofWrappers_nil, rfl⟩

theorem base_ne_empty (host : Host) (config : CheckSandbox) (cwd : OsPath) (extra : List OsPath)
    (landlock : Option Landlocked) (seccomp : Option (List Int)) :
    { host.base config cwd extra with landlock := landlock, seccomp := seccomp } ≠ ({} : Confinement) := by
  rw [Host.base]
  split_ifs <;> simp

/-- Where a helper is missed, it is told before. -/
theorem helperUnresolvedWarning_mem (hlinux : w.host.os = "linux") (hhelper : w.host.helper e.sandbox = none)
    (hasked : (e.sandbox.landlock || e.sandbox.seccomp) = true)
    (hmissed : e.sandbox.landlock = true → e.sandbox.mode ≠ .required) : helperUnresolvedWarning ∈ helperWarnings w e := by
  have hpath : confineHelperPath w.host e.sandbox = none := by
    rw [Host.helper, if_pos hlinux] at hhelper
    exact hhelper
  have hruns : confineUnresolvedHelperRefuses e.sandbox.mode e.sandbox.landlock = false := by
    rw [confineUnresolvedHelperRefuses, Bool.and_eq_false_iff]
    cases hlandlock : e.sandbox.landlock with
    | false => exact .inr rfl
    | true => exact .inl (by simpa using hmissed hlandlock)
  simp [helperWarnings, hasked, hpath, hruns]

/-- A helper is only told of where one is wanted and there is none. -/
theorem eq_of_mem_helperWarnings {warning : String} (h : warning ∈ helperWarnings w e) :
    warning = helperUnresolvedWarning ∧ (e.sandbox.landlock || e.sandbox.seccomp) = true ∧ w.host.helper e.sandbox = none := by
  simp only [helperWarnings] at h
  split_ifs at h with hmissed
  · rw [Bool.and_eq_true, Bool.and_eq_true, Option.isNone_iff_eq_none] at hmissed
    refine ⟨List.mem_singleton.mp h, hmissed.1.1, ?_⟩
    rw [Host.helper, hmissed.1.2, ite_self]
  · cases h

theorem told_unconfined {warning : Option String} (henabled : e.sandbox.isEnabled = true) {dir : OsPath}
    (hdecide : decideOn w e [dir] e.checkCmd = .unconfined warning)
    (hwarnings : (prepare w e).warnings = helperWarnings w e ++ warning.toList)
    (hran : (prepare w e).ranUnconfined = warning.isSome) (htext : capturedStderr e b = some text)
    (heq : text = joinLines [] ++ own) : Told w e b {} own := by
  obtain ⟨hoff, -⟩ | hbackend := sandboxDecide_unconfined hdecide
  · rw [hoff] at henabled
    cases henabled
  · obtain ⟨message, rfl⟩ : ∃ message, warning = some message := by
      cases hmode : e.sandbox.mode <;> simp [hmode, noBackendDecide] at hbackend
      all_goals exact ⟨_, hbackend.symm⟩
    refine ⟨fun _ => ⟨hran, message, by simp [hwarnings], hbackend⟩, fun h => absurd rfl h, fun _ _ _ h => absurd rfl h,
      fun _ _ _ h => absurd rfl h, fun h => ?_, fun h => ?_, fun warning h => ?_⟩
    · exact .inr (by simpa using (landlockWarning_mem htext heq).mp h)
    · exact .inr (by simpa using (seccompWarning_mem htext heq).mp h)
    · rw [hwarnings] at h
      rcases List.mem_append.mp h with h | h
      · obtain ⟨rfl, hasked, -⟩ := eq_of_mem_helperWarnings h
        exact .inl ⟨rfl, hasked, rfl, rfl⟩
      · obtain rfl := List.mem_singleton.mp h
        exact .inr ⟨rfl, hbackend⟩

theorem told_wrapped {dir : OsPath} {under : Confinement} {command : Command}
    (hwrap : decideOn w e [dir] e.checkCmd = .wrap command.program command.args)
    (hwarnings : (prepare w e).warnings = helperWarnings w e) (hran : (prepare w e).ranUnconfined = false)
    (hasked : AsAsked w.kernel w.host e.sandbox e.cwd [dir] e.checkCmd lines under)
    (htext : capturedStderr e b = some text) (heq : text = joinLines lines ++ own) : Told w e b under own := by
  have hlandlockMem := landlockWarning_mem htext heq
  have hseccompMem := seccompWarning_mem htext heq
  have hmissed : w.host.os = "linux" → w.host.helper e.sandbox = none →
      (e.sandbox.landlock || e.sandbox.seccomp) = true → helperUnresolvedWarning ∈ (prepare w e).warnings := by
    intro hlinux hhelper hlayers
    obtain ⟨hmac, -⟩ | ⟨-, -, -, hmissed⟩ := sandboxDecide_wrap hwrap
    · simp [hlinux] at hmac
    · rw [hwarnings]
      exact helperUnresolvedWarning_mem hlinux hhelper hlayers (hmissed hhelper)
  cases hasked with
  | wrapped hhelper =>
    refine ⟨fun h => absurd h (base_ne_empty w.host e.sandbox e.cwd [dir] _ _), fun _ => hran,
      fun hlinux hlayer _ _ => .inl (hmissed hlinux hhelper (by simp [hlayer])),
      fun hlinux hlayer _ _ => .inl (hmissed hlinux hhelper (by simp [hlayer])), fun h => ?_, fun h => ?_, fun warning h => ?_⟩
    · exact .inr (by simpa using hlandlockMem.mp h)
    · exact .inr (by simpa using hseccompMem.mp h)
    · obtain ⟨rfl, hlayers, -⟩ := eq_of_mem_helperWarnings (hwarnings ▸ h)
      refine .inl ⟨rfl, hlayers, ?_⟩
      rw [Host.base]
      split_ifs <;> exact ⟨rfl, rfl⟩
  | @helped nv hhelper lines lines' landlock seccomp hlandlock hseccomp =>
    refine ⟨fun h => absurd h (base_ne_empty w.host e.sandbox e.cwd [dir] _ _), fun _ => hran, fun _ hlayer hlost _ => ?_,
      fun _ hlayer hlost _ => ?_, fun h => ?_, fun h => ?_, fun warning h => ?_⟩
    · cases hlandlock with
      | off hoff => exact absurd (hlayer.symm.trans hoff) (by simp)
      | whole => simp [hasLandlock] at hlost
      | degraded _ _ enforcement =>
        exact .inr (hlandlockMem.mpr (.inl ⟨_, List.mem_append_left _ List.mem_cons_self, marker_degraded enforcement⟩))
    · cases hseccomp with
      | off hoff => exact absurd (hlayer.symm.trans hoff) (by simp)
      | whole => simp at hlost
      | degraded =>
        exact .inr (hseccompMem.mpr (.inl ⟨_, List.mem_append_right _ List.mem_cons_self, marker_seccompDegraded⟩))
    · refine (hlandlockMem.mp h).imp_left ?_
      rintro ⟨line, hline, hmarker⟩
      obtain hline | hline := List.mem_append.mp hline
      · cases hlandlock with
        | off | whole => cases hline
        | degraded hlayer _ _ hpart =>
          refine ⟨hlayer, ?_⟩
          cases landlock with
          | none => rfl
          | some l => exact hpart l rfl
      · cases hseccomp with
        | off | whole => cases hline
        | degraded =>
          obtain rfl := List.mem_singleton.mp hline
          exact absurd hmarker marker_not_seccompDegraded
    · refine (hseccompMem.mp h).imp_left ?_
      rintro ⟨line, hline, hmarker⟩
      obtain hline | hline := List.mem_append.mp hline
      · cases hlandlock with
        | off | whole => cases hline
        | degraded _ _ enforcement =>
          obtain rfl := List.mem_singleton.mp hline
          exact absurd hmarker (seccompMarker_not_degraded enforcement)
      · cases hseccomp with
        | off | whole => cases hline
        | degraded hlayer => exact ⟨hlayer, rfl⟩
    · obtain ⟨-, -, hnone⟩ := eq_of_mem_helperWarnings (hwarnings ▸ h)
      rw [hnone] at hhelper
      cases hhelper

/-- **No layer is lost in silence.** A check that is started with a sandbox, and whose stderr is captured, runs under a
confinement, or its wrappers exit before it; and the operator is told of each layer of the system that was asked for and
that the confinement lacks, and of no other, unless the check writes a marker itself. -/
theorem lost_layers_told (w : World) (e : Evaluator) (henabled : e.sandbox.isEnabled = true) {command : Command}
    (hnext : (prepare w e).next = .spawns command) {b : Behaviour} (hprocess : w.process command = .ok b)
    {text : List Char} (htext : capturedStderr e b = some text) :
    ∃ dir, w.privateTmp = .ok dir ∧
      ((∃ under lines own, RunsUnder w e dir command under lines ∧ text = joinLines lines ++ own ∧ Told w e b under own) ∨
        ExitsBefore w.host e.sandbox e.cwd [dir] e.checkCmd command (w.kernel.start command)) := by
  obtain ⟨privateTmp, htmp, hcases⟩ := next_eq_spawns hnext
  obtain ⟨dir, rfl, hminted⟩ := privateCheckTmpdir_isSome htmp henabled
  refine ⟨dir, hminted, ?_⟩
  obtain ⟨warning, hdecide, rfl, hwarnings, hran⟩ | ⟨hwrap, hwarnings, hran, -⟩ := hcases
  · have hruns := runsUnder_unconfined w e dir
    obtain ⟨own, heq⟩ := hruns.exists_own hprocess htext
    exact .inl ⟨{}, [], own, hruns, heq, told_unconfined henabled hdecide hwarnings hran htext heq⟩
  · have hdir : ∀ p ∈ [dir], p ≠ [] := by simpa using w.privateTmp_ne_nil dir hminted
    refine (start_decided hwrap w.isNv e.checkCmd_ne_nil e.cwd_ne_nil hdir).imp_left ?_
    rintro ⟨under, front, after, htrace, hfront, hasked⟩
    have hruns : RunsUnder w e dir command under (linesOf front) := ⟨front, after, htrace, hfront, rfl⟩
    obtain ⟨own, heq⟩ := hruns.exists_own hprocess htext
    exact ⟨under, _, own, hruns, heq, told_wrapped hwrap hwarnings hran hasked htext heq⟩

theorem lost_layers_told_without_bwrap : ∃ command b text,
    (prepare (linuxWorld false) (trueUnder .auto)).next = .spawns command ∧
    (linuxWorld false).process command = .ok b ∧ capturedStderr (trueUnder .auto) b = some text ∧
    ∃ dir, (linuxWorld false).privateTmp = .ok dir ∧
      ((∃ under lines own, RunsUnder (linuxWorld false) (trueUnder .auto) dir command under lines ∧
        text = joinLines lines ++ own ∧ Told (linuxWorld false) (trueUnder .auto) b under own) ∨
      ExitsBefore (linux false) (trueUnder .auto).sandbox [47] [dir] ["true"] command (newKernel.start command)) :=
  ⟨_, _, _, rfl, rfl, rfl, lost_layers_told (linuxWorld false) (trueUnder .auto) rfl rfl rfl rfl⟩

end told

end Nerve.Run.GoalEvaluator
