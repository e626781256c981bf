import Nerve.Sandbox.Helper
import Nerve.Sandbox.Seatbelt

/-!
# The words that are decided on, and what they become

`decide` gives the words of a backend for a check. A process that is started with them is nothing but that backend, and
the helper, until it is the check, under the confinement that was asked for, or exits (`start_decided`). The jail is made
as a whole or not at all. Landlock is in force as a whole under `required`, and where it is not, or the seccomp denylist
is not, the helper says so.
-/

namespace Nerve.Sandbox

/-! ### The decision -/

/-- `SandboxConfig`, with what only Seatbelt looks at. -/
structure CheckSandbox extends SandboxConfig where
  strict : Bool
  deriving DecidableEq, Repr

/-- `SandboxConfig::is_enabled`. -/
def CheckSandbox.isEnabled (config : CheckSandbox) : Bool := config.mode != .off

/-- The system and the files that are looked at. -/
structure Host where
  os : String
  isFile : String → Bool
  pathExists : String → Bool
  canonicalize : OsPath → Option OsPath
  currentExe : Option OsPath
  home : Option OsPath
  canonicalize_ne_nil : ∀ p, ∀ q ∈ canonicalize p, q ≠ []

/-- `Path::join`, of a relative path. -/
def joinPath (base name : OsPath) : OsPath := if base.getLast? = some 47 then base ++ name else base ++ 47 :: name

/-- `home_sensitive_read_paths`. -/
def homeSensitiveReadPaths : Option OsPath → List OsPath
  | some home =>
    if home.isEmpty then []
    else
      [joinPath home (pathOfText ".ssh"), joinPath home (pathOfText ".aws"),
        joinPath (joinPath home (pathOfText "Library")) (pathOfText "Keychains")]
  | none => []

/-- `confine_helper_path`. -/
def confineHelperPath (host : Host) (config : CheckSandbox) : Option OsPath :=
  if !config.landlock && !config.seccomp then none else host.currentExe

section decision

variable (host : Host) (config : CheckSandbox) (cwd : OsPath) (extra : List OsPath)

def Host.roots : List OsPath := canonicalWritableRoots host.canonicalize cwd extra

/-- The profile of `seatbelt_decide`. -/
def Host.profile : String :=
  let sensitive :=
    if config.strict then (homeSensitiveReadPaths host.home).map fun p => (host.canonicalize p).getD p else []
  let text (path : OsPath) := (toStringLossy path).toList
  String.ofList (seatbeltProfile ((host.roots cwd extra).map text) config.allowNetwork config.strict (sensitive.map text))

variable (checkCmd : List String)

/-- `seatbelt_decide`, which only macOS has. -/
def seatbeltDecide : SandboxDecision :=
  if !host.pathExists sandboxExec then noBackendDecide host.os config.mode
  else .wrap sandboxExec ("-p" :: host.profile config cwd extra :: "--" :: checkCmd)

/-- `decide`. -/
def sandboxDecide (confineHelper : Option OsPath) : SandboxDecision :=
  if !config.isEnabled then .unconfined none
  else if host.os = "macos" then seatbeltDecide host config cwd extra checkCmd
  else if host.os = "linux" then
    bwrapDecide host.isFile host.canonicalize config.toSandboxConfig cwd checkCmd extra confineHelper
  else noBackendDecide host.os config.mode

end decision

/-! ### What the helper does -/

section helper

variable (kernel : Kernel) (spec : ConfineSpec)

/-- What the Landlock step printed, and what is in force after it. -/
inductive LandlockStep : List String → Option Landlocked → Prop where
  | off (h : spec.landlock = false) : LandlockStep [] none
  | whole (h : spec.landlock = true) : LandlockStep [] (some ⟨true, kernel.landlock.grants spec.roots⟩)
  | degraded (h : spec.landlock = true) (hauto : spec.required = false) (enforcement : LandlockEnforcement)
      {landlock : Option Landlocked} (hlandlock : ∀ l ∈ landlock, l.whole = false) :
      LandlockStep [confineDegradedMessage enforcement] landlock

/-- What the seccomp step printed, and what is in force after it. -/
inductive SeccompStep : List String → Option (List Int) → Prop where
  | off (h : spec.seccomp = false) : SeccompStep [] none
  | whole (h : spec.seccomp = true) {program : List Int} (hprogram : applySeccompDenylist kernel.seccomp = some program) :
      SeccompStep [] (some program)
  | degraded (h : spec.seccomp = true) (hnone : applySeccompDenylist kernel.seccomp = none) :
      SeccompStep [confineSeccompDegradedMessage] none

variable {kernel spec}

theorem landlockStep_of_ok {printed : List Event} {landlock : Option Landlocked}
    (h : restrictWithLandlock kernel spec = .ok (printed, landlock)) :
    ∃ lines, printed = lines.map .prints ∧ LandlockStep kernel spec lines landlock := by
  rw [restrictWithLandlock] at h
  split_ifs at h with hasked
  · dsimp only at h
    split_ifs at h with hrefuse
    have hauto (hfull : applyLandlockWriteConfinement kernel.landlock spec.roots ≠ .full) : spec.required = false := by
      rw [confineShouldRefuse.eq_def] at hrefuse
      split at hrefuse
      · exact absurd ‹_› hfull
      · simpa using hrefuse
    split at h
    case h_1 =>
      cases h
      exact ⟨[], rfl, .whole hasked⟩
    case h_2 heq =>
      cases h
      exact ⟨[_], rfl, .degraded hasked (hauto (by simp [heq])) _ (by simp)⟩
    case h_3 hfull _ =>
      cases h
      exact ⟨[_], rfl, .degraded hasked (hauto hfull) _ (by simp)⟩
  · cases h
    exact ⟨[], rfl, .off (by simpa using hasked)⟩

theorem seccompStep (kernel : Kernel) (spec : ConfineSpec) :
    ∃ lines, (restrictWithSeccomp kernel spec).1 = lines.map .prints ∧
      SeccompStep kernel spec lines (restrictWithSeccomp kernel spec).2 := by
  rw [restrictWithSeccomp]
  cases hasked : spec.seccomp with
  | false => exact ⟨[], rfl, .off hasked⟩
  | true =>
    rw [if_pos rfl]
    cases hprogram : applySeccompDenylist kernel.seccomp with
    | some program => exact ⟨[], rfl, .whole hasked hprogram⟩
    | none => exact ⟨[_], rfl, .degraded hasked hprogram⟩

/-- The helper writes lines, and then it exits, or it is the check. -/
theorem runConfineHelper_cases (kernel : Kernel) (under : Confinement) (spec : ConfineSpec) :
    (∃ lines : List String, runConfineHelper kernel under spec = lines.map .prints ++ [.exits confineExitRefused]) ∨
    ∃ lines lines' landlock seccomp, LandlockStep kernel spec lines landlock ∧ SeccompStep kernel spec lines' seccomp ∧
      runConfineHelper kernel under spec = (lines ++ lines').map .prints ++
        [.executes spec.checkCmd { under with landlock := landlock, seccomp := seccomp }] := by
  rw [runConfineHelper]
  rcases hlandlock : restrictWithLandlock kernel spec with line | ⟨printed, landlock⟩
  · exact .inl ⟨[line], rfl⟩
  · obtain ⟨lines, rfl, hstep⟩ := landlockStep_of_ok hlandlock
    obtain ⟨lines', heq, hstep'⟩ := seccompStep kernel spec
    dsimp only
    rw [heq]
    cases hexec : kernel.exec (spec.checkCmd.headD "") with
    | none => exact .inr ⟨lines, lines', landlock, _, hstep, hstep', by simp⟩
    | some error => exact .inl ⟨lines ++ lines' ++ [_], by simp; rfl⟩

theorem confine_cases (kernel : Kernel) (can : Bool) (command : List String) (under : Confinement) :
    kernel.confine can command under = [.exits kernel.wrapperFails] ∨
      kernel.confine can command under = kernel.execute command under := by
  rw [Kernel.confine]
  split_ifs
  · exact .inr rfl
  · exact .inl rfl

end helper

/-! ### What the decided words become -/

section decided

variable (kernel : Kernel) (host : Host) (config : CheckSandbox) (cwd : OsPath) (extra : List OsPath)

/-- The helper that is in the words. -/
def Host.helper : Option OsPath := if host.os = "linux" then confineHelperPath host config else none

/-- What the backend confines a check by. -/
def Host.base : Confinement :=
  if host.os = "linux" then { jail := some (checkJail (host.roots cwd extra) cwd config.allowNetwork) }
  else { profile := some (host.profile config cwd extra) }

variable (checkCmd : List String)

/-- What the helper reads. -/
def Host.helperSpec : ConfineSpec where
  required := config.mode == .required
  landlock := config.landlock
  seccomp := config.seccomp
  roots := if config.landlock then (host.roots cwd extra).map asArgument else []
  checkCmd := checkCmd

/-- The words of the helper, where there is one. -/
def Host.helperArgv : Option (List String) :=
  (host.helper config).map fun nv =>
    buildConfineHelperArgv nv config.mode config.landlock config.seccomp (host.roots cwd extra) checkCmd

/-- The confinements that a check can get, and the lines that the helper writes before. -/
inductive AsAsked : List String → Confinement → Prop where
  | wrapped (h : host.helper config = none) : AsAsked [] (host.base config cwd extra)
  | helped {nv : OsPath} (h : host.helper config = some nv) {lines lines' : List String} {landlock : Option Landlocked}
      {seccomp : Option (List Int)} (hlandlock : LandlockStep kernel (host.helperSpec config cwd extra checkCmd) lines landlock)
      (hseccomp : SeccompStep kernel (host.helperSpec config cwd extra checkCmd) lines' seccomp) :
      AsAsked (lines ++ lines') { host.base config cwd extra with landlock := landlock, seccomp := seccomp }

/-- Events of the wrappers: `command`, and the helper. -/
def OfWrappers (command : Command) (front : List Event) : Prop :=
  ∀ argv under, .executes argv under ∈ front →
    argv = command.argv ∨ argv ∈ host.helperArgv config cwd extra checkCmd

def Event.line? : Event → Option String
  | .prints line => some line
  | _ => none

/-- What is written to stderr. -/
def linesOf (events : List Event) : List String := events.filterMap Event.line?

/-- The process is the wrappers until it is the check, under `under`. -/
def BecomesCheck (command : Command) (under : Confinement) (trace : List Event) : Prop :=
  ∃ front after, trace = front ++ .executes checkCmd under :: after ∧ OfWrappers host config cwd extra checkCmd command front ∧
    AsAsked kernel host config cwd extra checkCmd (linesOf front) under

/-- The process is the wrappers until it exits. -/
def ExitsBefore (command : Command) (trace : List Event) : Prop :=
  ∃ front, ∃ code : Failure, trace = front ++ [.exits code] ∧ OfWrappers host config cwd extra checkCmd command front

end decided

section start

variable {kernel : Kernel} {host : Host} {config : CheckSandbox} {cwd : OsPath} {extra : List OsPath}
  {checkCmd : List String} {program : String} {args : List String}

@[simp] theorem linesOf_prints (lines : List String) : linesOf (lines.map .prints) = lines := by
  induction lines with
  | nil => rfl
  | cons line lines ih => exact congrArg (line :: ·) ih

@[simp] theorem linesOf_executes (argv : List String) (under : Confinement) (events : List Event) :
    linesOf (.executes argv under :: events) = linesOf events := rfl

/-- A helper that cannot be found is missed only where it is not needed. -/
theorem bwrapDecide_wrap {isFile : String → Bool} {canonicalize : OsPath → Option OsPath} {config : SandboxConfig}
    {confineHelper : Option OsPath}
    (h : bwrapDecide isFile canonicalize config cwd checkCmd extra confineHelper = .wrap program args) :
    program ∈ bwrapTrustedPaths ∧ (confineHelper = none → config.landlock = true → config.mode ≠ .required) := by
  rw [bwrapDecide] at h
  split at h
  · cases hmode : config.mode <;> simp [hmode, noBackendDecide] at h
  · rename_i bwrap hbwrap
    have hprogram : bwrap = program := by
      dsimp only at h
      split at h
      · split at h
        · cases h
          rfl
        · split_ifs at h
          cases h
          rfl
      · cases h
        rfl
    refine ⟨hprogram ▸ List.mem_of_find?_eq_some hbwrap, ?_⟩
    rintro rfl hlandlock hmode
    simp [hlandlock, hmode, confineUnresolvedHelperRefuses] at h

/-- The words that are decided on. -/
theorem sandboxDecide_wrap
    (h : sandboxDecide host config cwd extra checkCmd (confineHelperPath host config) = .wrap program args) :
    (host.os = "macos" ∧ program = sandboxExec ∧ args = "-p" :: host.profile config cwd extra :: "--" :: checkCmd) ∨
    (host.os = "linux" ∧ program ∈ bwrapTrustedPaths ∧
      args = bwrapArgs (host.roots cwd extra) cwd ((host.helperArgv config cwd extra checkCmd).getD checkCmd)
        config.allowNetwork ∧
      (host.helper config = none → config.landlock = true → config.mode ≠ .required)) := by
  rw [sandboxDecide] at h
  split_ifs at h with _ hmac hlinux
  · rw [seatbeltDecide] at h
    split_ifs at h
    · cases hmode : config.mode <;> simp [hmode, noBackendDecide] at h
    · cases h
      exact .inl ⟨hmac, rfl, rfl⟩
  · obtain ⟨hprogram, hmissed⟩ := bwrapDecide_wrap h
    obtain ⟨command, rfl, hplain, hspliced⟩ := args_of_bwrapDecide h
    have hhelper : host.helper config = confineHelperPath host config := if_pos hlinux
    refine .inr ⟨hlinux, hprogram, ?_, by rwa [hhelper]⟩
    suffices hcommand : command = (host.helperArgv config cwd extra checkCmd).getD checkCmd by rw [hcommand]; rfl
    rw [Host.helperArgv, hhelper]
    cases hnv : confineHelperPath host config with
    | none => exact hplain (.inr hnv)
    | some nv =>
      have hlayers : (config.landlock || config.seccomp) = true := by
        rw [confineHelperPath] at hnv
        cases hlandlock : config.landlock <;> cases hseccomp : config.seccomp <;> simp_all
      exact hspliced nv hlayers hnv
  · cases hmode : config.mode <;> simp [hmode, noBackendDecide] at h

/-- Nothing is decided to run as it is, but where there is no backend, or none is asked for. -/
theorem sandboxDecide_unconfined {confineHelper : Option OsPath} {warning : Option String}
    (h : sandboxDecide host config cwd extra checkCmd confineHelper = .unconfined warning) :
    config.isEnabled = false ∧ warning = none ∨ noBackendDecide host.os config.mode = .unconfined warning := by
  rw [sandboxDecide] at h
  split_ifs at h with henabled _ hlinux
  · cases h
    exact .inl ⟨by simpa using henabled, rfl⟩
  · rw [seatbeltDecide] at h
    split_ifs at h
    exact .inr h
  · rw [bwrapDecide] at h
    split at h
    · exact .inr (hlinux ▸ h)
    · dsimp only at h
      split at h
      · split at h
        · cases h
        · split at h <;> cases h
      · cases h
  · exact .inr h

theorem roots_ne_nil (hcwd : cwd ≠ []) (hextra : ∀ p ∈ extra, p ≠ []) : ∀ root ∈ host.roots cwd extra, root ≠ [] := by
  intro root hroot
  obtain ⟨p, hp, rfl⟩ := List.mem_map.mp hroot
  cases hcanonical : host.canonicalize p with
  | none =>
    obtain rfl | hp := List.mem_cons.mp hp
    · exact hcwd
    · exact hextra p hp
  | some q => exact host.canonicalize_ne_nil p q hcanonical

/-- The helper reads what it was given. -/
theorem maybeRunConfineHelper_argv (hcheck : checkCmd ≠ []) (hcwd : cwd ≠ []) (hextra : ∀ p ∈ extra, p ≠ [])
    (under : Confinement) (nv : OsPath) :
    maybeRunConfineHelper kernel under (buildConfineHelperArgv nv config.mode config.landlock config.seccomp
      (host.roots cwd extra) checkCmd) = some (runConfineHelper kernel under (host.helperSpec config cwd extra checkCmd)) := by
  have hsays : (host.helperSpec config cwd extra checkCmd).Says
      (confineOptions config.mode config.landlock config.seccomp (host.roots cwd extra)) :=
    says_confineOptions (roots_ne_nil hcwd hextra) hcheck
  have hread : parseConfineArgs ((confineOptions config.mode config.landlock config.seccomp
      (host.roots cwd extra)).flatMap ConfineOption.words ++ "--" :: checkCmd) =
      some (host.helperSpec config cwd extra checkCmd) := parseConfineArgs_eq_some.mpr ⟨_, hsays, rfl⟩
  rw [buildConfineHelperArgv_eq, maybeRunConfineHelper, if_pos rfl, hread]

section ofWrappers

variable {command : Command} {front : List Event}

theorem ofWrappers_nil : OfWrappers host config cwd extra checkCmd command [] := by
  simp [OfWrappers]

theorem ofWrappers_prints (lines : List String) :
    OfWrappers host config cwd extra checkCmd command (lines.map .prints) := by
  simp [OfWrappers]

theorem OfWrappers.cons (h : OfWrappers host config cwd extra checkCmd command front) {argv : List String}
    (hargv : argv = command.argv ∨ argv ∈ host.helperArgv config cwd extra checkCmd) (under : Confinement) :
    OfWrappers host config cwd extra checkCmd command (.executes argv under :: front) := by
  intro argv' under' hmem
  obtain heq | hmem := List.mem_cons.mp hmem
  · obtain ⟨rfl, -⟩ := Event.executes.inj heq
    exact hargv
  · exact h argv' under' hmem

end ofWrappers

/-- Without a helper the backend becomes the check. -/
theorem becomesCheck_base {command : Command} {after : List Event} (hhelper : host.helper config = none) :
    BecomesCheck kernel host config cwd extra checkCmd command (host.base config cwd extra)
      (.executes command.argv {} :: .executes checkCmd (host.base config cwd extra) :: after) :=
  ⟨[.executes command.argv {}], after, rfl, ofWrappers_nil.cons (.inl rfl) {}, .wrapped hhelper⟩

/-- With a helper the backend becomes the helper. -/
theorem start_helper {command : Command} {nv : OsPath} (hhelper : host.helper config = some nv)
    (hnv : kernel.isNv (toStringLossy nv) = true) (hcheck : checkCmd ≠ []) (hcwd : cwd ≠ []) (hextra : ∀ p ∈ extra, p ≠ [])
    {trace : List Event} (htrace : trace = .executes command.argv {} ::
      kernel.execute ((host.helperArgv config cwd extra checkCmd).getD checkCmd) (host.base config cwd extra)) :
    (∃ under, BecomesCheck kernel host config cwd extra checkCmd command under trace) ∨
      ExitsBefore host config cwd extra checkCmd command trace := by
  obtain ⟨argv, hargv⟩ : ∃ argv, argv = buildConfineHelperArgv nv config.mode config.landlock config.seccomp
    (host.roots cwd extra) checkCmd := ⟨_, rfl⟩
  have hwords : host.helperArgv config cwd extra checkCmd = some argv := by rw [Host.helperArgv, hhelper, hargv]; rfl
  have hruns : kernel.execute argv (host.base config cwd extra) = .executes argv (host.base config cwd extra) ::
      runConfineHelper kernel (host.base config cwd extra) (host.helperSpec config cwd extra checkCmd) := by
    have hisNv : kernel.isNv (argv.headD "") = true := by rw [hargv]; exact hnv
    rw [Kernel.execute, if_pos hisNv, hargv, maybeRunConfineHelper_argv hcheck hcwd hextra]
    rfl
  have hfront (lines : List String) : OfWrappers host config cwd extra checkCmd command
      (.executes command.argv {} :: .executes argv (host.base config cwd extra) :: lines.map .prints) :=
    ((ofWrappers_prints lines).cons (.inr hwords) _).cons (.inl rfl) _
  rw [hwords, Option.getD_some, hruns] at htrace
  obtain ⟨lines, heq⟩ | ⟨lines, lines', landlock, seccomp, hlandlock, hseccomp, heq⟩ :=
    runConfineHelper_cases kernel (host.base config cwd extra) (host.helperSpec config cwd extra checkCmd)
  · rw [heq] at htrace
    exact .inr ⟨_, ⟨confineExitRefused, by decide⟩, htrace, hfront lines⟩
  · rw [heq] at htrace
    refine .inl ⟨_, _, [], htrace, hfront (lines ++ lines'), ?_⟩
    rw [linesOf_executes, linesOf_executes, linesOf_prints]
    exact .helped hhelper hlandlock hseccomp

/-- **A decided command is the check that was asked for**, or nothing at all: the process that it is started as executes
the backend, and the helper, and then it is the check under the confinement that was asked for, or exits and fails. -/
theorem start_decided
    (hwrap : sandboxDecide host config cwd extra checkCmd (confineHelperPath host config) = .wrap program args)
    (hnv : ∀ exe ∈ host.currentExe, kernel.isNv (toStringLossy exe) = true) (hcheck : checkCmd ≠ []) (hcwd : cwd ≠ [])
    (hextra : ∀ p ∈ extra, p ≠ []) :
    (∃ under, BecomesCheck kernel host config cwd extra checkCmd ⟨program, args⟩ under (kernel.start ⟨program, args⟩)) ∨
      ExitsBefore host config cwd extra checkCmd ⟨program, args⟩ (kernel.start ⟨program, args⟩) := by
  have hexits : ExitsBefore host config cwd extra checkCmd ⟨program, args⟩
      [.executes (program :: args) {}, .exits kernel.wrapperFails] :=
    ⟨[_], kernel.wrapperFails, rfl, ofWrappers_nil.cons (.inl rfl) {}⟩
  obtain ⟨hmac, rfl, rfl⟩ | ⟨hlinux, hprogram, rfl, -⟩ := sandboxDecide_wrap hwrap
  · have hbase : { profile := some (host.profile config cwd extra) } = host.base config cwd extra :=
      (if_neg (by simp [hmac])).symm
    have hother : sandboxExec ∉ bwrapTrustedPaths := by decide
    rw [Kernel.start, if_neg hother, if_pos rfl, Kernel.runSandboxExec, hbase]
    obtain heq | heq := confine_cases kernel (kernel.takesProfile (host.profile config cwd extra)) checkCmd
      (host.base config cwd extra)
    · rw [heq]
      exact .inr hexits
    · rw [heq]
      exact .inl ⟨_, becomesCheck_base (if_neg (by simp [hmac]))⟩
  · have hbase : { jail := some (checkJail (host.roots cwd extra) cwd config.allowNetwork) } =
        host.base config cwd extra := (if_pos hlinux).symm
    rw [Kernel.start, if_pos hprogram, Kernel.runBwrap, read_bwrapArgs]
    dsimp only
    rw [hbase]
    obtain heq | heq := confine_cases kernel (kernel.makesJail (checkJail (host.roots cwd extra) cwd config.allowNetwork))
      ((host.helperArgv config cwd extra checkCmd).getD checkCmd) (host.base config cwd extra)
    · rw [heq]
      exact .inr hexits
    · rw [heq]
      cases hhelper : host.helper config with
      | none =>
        have hplain : host.helperArgv config cwd extra checkCmd = none := by rw [Host.helperArgv, hhelper]; rfl
        rw [hplain]
        exact .inl ⟨_, becomesCheck_base hhelper⟩
      | some nv =>
        have hpath : host.helper config = confineHelperPath host config := if_pos hlinux
        have hexe : host.currentExe = some nv := by
          rw [hpath, confineHelperPath] at hhelper
          exact (Option.ite_none_left_eq_some.mp hhelper).2
        exact start_helper hhelper (hnv nv hexe) hcheck hcwd hextra rfl

/-! ### Nothing less than what is required -/

/-- All that was asked for but seccomp is there: the jail, or the profile, and Landlock in force as a whole. -/
structure Complete (kernel : Kernel) (host : Host) (config : CheckSandbox) (cwd : OsPath) (extra : List OsPath)
    (under : Confinement) : Prop where
  supported : host.os = "linux" ∨ host.os = "macos"
  jail : host.os = "linux" → under.jail = some (checkJail (host.roots cwd extra) cwd config.allowNetwork)
  landlock : host.os = "linux" → config.landlock = true →
    under.landlock = some ⟨true, kernel.landlock.grants ((host.roots cwd extra).map asArgument)⟩
  profile : host.os = "macos" → under.profile = some (host.profile config cwd extra)

/-- The confinement under `required`, which does not depend on the check. -/
def Host.required (kernel : Kernel) (host : Host) (config : CheckSandbox) (cwd : OsPath) (extra : List OsPath) :
    Confinement :=
  if (host.helper config).isNone then host.base config cwd extra
  else
    { host.base config cwd extra with
      landlock :=
        if config.landlock then some ⟨true, kernel.landlock.grants ((host.roots cwd extra).map asArgument)⟩ else none
      seccomp := if config.seccomp then applySeccompDenylist kernel.seccomp else none }

theorem AsAsked.eq_required {lines : List String} {under : Confinement}
    (h : AsAsked kernel host config cwd extra checkCmd lines under) (hmode : config.mode = .required) :
    under = host.required kernel config cwd extra := by
  cases h with
  | wrapped h => simp [Host.required, h]
  | helped h hlandlock hseccomp =>
    have hsome : (host.helper config).isNone = false := by simp [h]
    rw [Host.required, hsome, if_neg Bool.false_ne_true, Confinement.mk.injEq]
    refine ⟨rfl, rfl, ?_, ?_⟩
    · cases hlandlock with
      | off hoff =>
        have hoff : config.landlock = false := hoff
        simp [hoff]
      | whole hasked =>
        have hasked : config.landlock = true := hasked
        simp [hasked, Host.helperSpec]
      | degraded _ hauto => simp [Host.helperSpec, hmode] at hauto
    · cases hseccomp with
      | off hoff =>
        have hoff : config.seccomp = false := hoff
        simp [hoff]
      | whole hasked hprogram =>
        have hasked : config.seccomp = true := hasked
        simp [hasked, hprogram]
      | degraded hasked hnone =>
        have hasked : config.seccomp = true := hasked
        simp [hasked, hnone]

theorem complete_required (hmode : config.mode = .required)
    (hwrap : sandboxDecide host config cwd extra checkCmd (confineHelperPath host config) = .wrap program args) :
    Complete kernel host config cwd extra (host.required kernel config cwd extra) := by
  have hbase : (host.required kernel config cwd extra).jail = (host.base config cwd extra).jail ∧
      (host.required kernel config cwd extra).profile = (host.base config cwd extra).profile := by
    rw [Host.required]
    split_ifs <;> exact ⟨rfl, rfl⟩
  obtain ⟨hmac, -, -⟩ | ⟨hlinux, -, -, hmissed⟩ := sandboxDecide_wrap hwrap
  · have hother : host.os ≠ "linux" := by simp [hmac]
    refine ⟨.inr hmac, fun h => absurd h hother, fun h => absurd h hother, fun _ => ?_⟩
    rw [hbase.2, Host.base, if_neg hother]
  · refine ⟨.inl hlinux, fun _ => ?_, fun _ hasked => ?_, fun h => absurd h (by simp [hlinux])⟩
    · rw [hbase.1, Host.base, if_pos hlinux]
    · have hsome : (host.helper config).isNone = false := by
        rw [Option.isNone_eq_false_iff, Option.isSome_iff_ne_none]
        exact fun hnone => hmissed hnone hasked hmode
      rw [Host.required, hsome, if_neg Bool.false_ne_true, if_pos hasked]

end start

end Nerve.Sandbox
