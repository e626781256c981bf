import Nerve.Sandbox.Bwrap

/-!
# The helper in the jail

What a process does that was started with the words of `bwrap` or of `sandbox-exec`: it confines itself and becomes the
command behind its `--`. Where that is `nv` once more (`maybeRunConfineHelper`), it adds Landlock and the seccomp denylist
to the jail, as far as the kernel lets it, and becomes the check. The kernel is asked and may refuse everything.

A process is what it executes, one after another, and under which confinement; it may write to stderr in between
(`Event`). What a check does once it runs is not followed.
-/

namespace Nerve.Sandbox

/-! ### Landlock -/

inductive LandlockEnforcement where
  | full
  | partially
  | none
  | error
  deriving DecidableEq, Repr

/-- The name that `{:?}` writes. -/
def LandlockEnforcement.debug : LandlockEnforcement → String
  | .full => "Full"
  | .partially => "Partial"
  | .none => "None"
  | .error => "Error"

inductive RulesetStatus where
  | fullyEnforced
  | partiallyEnforced
  | notEnforced
  deriving DecidableEq, Repr

/-- What the kernel answers when a ruleset is created, a path is opened, a rule is added for it, and a process restricts
itself. -/
structure LandlockKernel where
  creates : Bool
  opens : OsPath → Bool
  addsRule : OsPath → Bool
  restrictSelf : Option RulesetStatus

section landlock

variable (kernel : LandlockKernel)

def dev : OsPath := pathOfText "/dev"

/-- The paths that the ruleset has rules for. -/
def LandlockKernel.grants (roots : List OsPath) : List OsPath := roots ++ if kernel.opens dev then [dev] else []

/-- `apply_landlock_write_confinement`. A root has to be there, and `/dev` need not. -/
def applyLandlockWriteConfinement (roots : List OsPath) : LandlockEnforcement :=
  if !kernel.creates then .error
  else if !roots.all fun root => kernel.opens root && kernel.addsRule root then .error
  else if kernel.opens dev && !kernel.addsRule dev then .error
  else
    match kernel.restrictSelf with
    | some .fullyEnforced => .full
    | some .partiallyEnforced => .partially
    | some .notEnforced => .none
    | none => .error

end landlock

/-- `confine_should_refuse`. -/
def confineShouldRefuse (required : Bool) : LandlockEnforcement → Bool
  | .full => false
  | _ => required

/-- `CONFINE_DEGRADED_MARKER`. -/
def confineDegradedMarker : String := "[nv-confine:landlock-auto-degraded]"

/-- `CONFINE_EXIT_REFUSED`. -/
def confineExitRefused : Nat := 70

/-- `confine_refused_message`. -/
def confineRefusedMessage (enforcement : LandlockEnforcement) : String :=
  "nv __nv-confine: Landlock confinement could not be fully enforced (" ++ enforcement.debug ++
    ") under sandbox.mode=required; refusing to run the check unconfined (fail closed)"

/-- `confine_degraded_message`. -/
def confineDegradedMessage (enforcement : LandlockEnforcement) : String :=
  "nv __nv-confine: " ++ confineDegradedMarker ++ " Landlock not fully enforced (" ++ enforcement.debug ++
    "); continuing best-effort under bwrap-only confinement"

/-! ### Seccomp -/

/-- `CONFINE_SECCOMP_DEGRADED_MARKER`. -/
def confineSeccompDegradedMarker : String := "[nv-confine:seccomp-degraded]"

/-- `confine_seccomp_degraded_message`. -/
def confineSeccompDegradedMessage : String :=
  "nv __nv-confine: " ++ confineSeccompDegradedMarker ++
    " seccomp denylist could not be installed; continuing best-effort without it (it is never the fail-closed basis)"

/-- `SECCOMP_DENYLIST`. -/
def seccompDenylist : List String :=
  ["mount", "umount2", "pivot_root", "chroot", "unshare", "setns", "ptrace", "process_vm_writev", "bpf", "init_module",
    "finit_module", "delete_module", "kexec_load", "kexec_file_load", "add_key", "request_key", "keyctl", "userfaultfd",
    "reboot", "swapon", "swapoff"]

/-- What the system calls are numbered as, and whether the filter is accepted: the architecture is known, the program
compiles, and the kernel installs it. -/
structure SeccompKernel where
  number : String → Int
  knowsArch : Bool
  compiles : Bool
  installs : Bool

section seccomp

variable (kernel : SeccompKernel)

/-- `seccomp_syscall_number`. -/
def seccompSyscallNumber (name : String) : Option Int :=
  match name with
  | "mount" | "umount2" | "pivot_root" | "chroot" | "unshare" | "setns" | "ptrace" | "process_vm_writev" | "bpf"
  | "init_module" | "finit_module" | "delete_module" | "kexec_load" | "kexec_file_load" | "add_key" | "request_key"
  | "keyctl" | "userfaultfd" | "reboot" | "swapon" | "swapoff" => some (kernel.number name)
  | _ => none

/-- `build_seccomp_denylist_program`: the numbers of the system calls that kill the process. -/
def buildSeccompDenylistProgram : Option (List Int) := do
  let rules ← seccompDenylist.mapM (seccompSyscallNumber kernel)
  if kernel.knowsArch && kernel.compiles then some rules else none

/-- `apply_seccomp_denylist`. -/
def applySeccompDenylist : Option (List Int) := do
  let program ← buildSeccompDenylistProgram kernel
  if kernel.installs then some program else none

/-- Every name of the list has a number, so that a filter that is installed has them all. -/
theorem applySeccompDenylist_eq :
    applySeccompDenylist kernel =
      if kernel.knowsArch && kernel.compiles && kernel.installs then some (seccompDenylist.map kernel.number) else none := by
  have hrules : seccompDenylist.mapM (seccompSyscallNumber kernel) = some (seccompDenylist.map kernel.number) := rfl
  simp only [applySeccompDenylist, buildSeccompDenylistProgram, hrules]
  cases kernel.knowsArch <;> cases kernel.compiles <;> cases kernel.installs <;> rfl

end seccomp

/-! ### Processes -/

/-- A Landlock ruleset that is in force: all of it, or a part, and the paths that can be written beneath. -/
structure Landlocked where
  whole : Bool
  grants : List OsPath
  deriving DecidableEq, Repr

/-- What a process is confined by. -/
structure Confinement where
  jail : Option Jail := none
  profile : Option String := none
  landlock : Option Landlocked := none
  seccomp : Option (List Int) := none
  deriving DecidableEq, Repr

inductive Event where
  | executes (argv : List String) (under : Confinement)
  | prints (line : String)
  | exits (code : Nat)
  deriving DecidableEq, Repr

/-- An exit code that is no success. -/
abbrev Failure := { code : Nat // code ≠ 0 }

/-- What a process meets: the options of `bwrap` and whether it can make a jail, whether `sandbox-exec` takes a profile,
whether a program can be executed or which error there is, the programs that are `nv`, and what the kernel answers to
Landlock and to seccomp. -/
structure Kernel where
  grammar : BwrapGrammar
  makesJail : Jail → Bool
  takesProfile : String → Bool
  wrapperFails : Failure
  exec : String → Option String
  isNv : String → Bool
  landlock : LandlockKernel
  seccomp : SeccompKernel

section process

variable (kernel : Kernel)

/-- The Landlock step of `run_confine_helper`: what it printed and what is in force then, or the refusal. -/
def restrictWithLandlock (spec : ConfineSpec) : Except String (List Event × Option Landlocked) :=
  if spec.landlock then
    let enforcement := applyLandlockWriteConfinement kernel.landlock spec.roots
    if confineShouldRefuse spec.required enforcement then .error (confineRefusedMessage enforcement)
    else
      let grants := kernel.landlock.grants spec.roots
      match enforcement with
      | .full => .ok ([], some ⟨true, grants⟩)
      | .partially => .ok ([.prints (confineDegradedMessage enforcement)], some ⟨false, grants⟩)
      | _ => .ok ([.prints (confineDegradedMessage enforcement)], none)
  else .ok ([], none)

/-- The seccomp step, which refuses nothing. -/
def restrictWithSeccomp (spec : ConfineSpec) : List Event × Option (List Int) :=
  if spec.seccomp then
    match applySeccompDenylist kernel.seccomp with
    | some program => ([], some program)
    | none => ([.prints confineSeccompDegradedMessage], none)
  else ([], none)

/-- `run_confine_helper`. `parseConfineArgs` gives no empty check. -/
def runConfineHelper (under : Confinement) (spec : ConfineSpec) : List Event :=
  match restrictWithLandlock kernel spec with
  | .error line => [.prints line, .exits confineExitRefused]
  | .ok (landlockPrints, landlock) =>
    let (seccompPrints, seccomp) := restrictWithSeccomp kernel spec
    let program := spec.checkCmd.headD ""
    landlockPrints ++ seccompPrints ++
      match kernel.exec program with
      | none => [.executes spec.checkCmd { under with landlock := landlock, seccomp := seccomp }]
      | some error =>
        [.prints ("nv __nv-confine: failed to exec check `" ++ program ++ "`: " ++ error), .exits confineExitRefused]

/-- `maybe_run_confine_helper`: what `nv` does at the top of `main`, if it was started as the helper. -/
def maybeRunConfineHelper (under : Confinement) : List String → Option (List Event)
  | _ :: token :: tail =>
    if token = confineHelperToken then
      match parseConfineArgs tail with
      | none =>
        some [.prints "nv __nv-confine: malformed confinement invocation; refusing to run (fail closed)",
          .exits confineExitRefused]
      | some spec => some (runConfineHelper kernel under spec)
    else none
  | _ => none

/-- A command is executed, and if it is `nv`, it may be the helper. -/
def Kernel.execute (command : List String) (under : Confinement) : List Event :=
  .executes command under ::
    if kernel.isNv (command.headD "") then (maybeRunConfineHelper kernel under command).getD [] else []

/-- What a wrapper does that has read a confinement and a command: it fails, or becomes the command. -/
def Kernel.confine (can : Bool) (command : List String) (under : Confinement) : List Event :=
  if can && (kernel.exec (command.headD "")).isNone then kernel.execute command under else [.exits kernel.wrapperFails]

def Kernel.runBwrap (args : List String) : List Event :=
  match kernel.grammar.read args with
  | none => [.exits kernel.wrapperFails]
  | some (jail, command) => kernel.confine (kernel.makesJail jail) command { jail := some jail }

/-- `sandbox-exec -p profile -- command`. -/
def Kernel.runSandboxExec : List String → List Event
  | "-p" :: profile :: "--" :: command => kernel.confine (kernel.takesProfile profile) command { profile := some profile }
  | _ => [.exits kernel.wrapperFails]

/-- `SANDBOX_EXEC`. -/
def sandboxExec : String := "/usr/bin/sandbox-exec"

/-- A program and its arguments. -/
structure Command where
  program : String
  args : List String
  deriving DecidableEq, Repr

def Command.argv (command : Command) : List String := command.program :: command.args

/-- What is executed in the process that a command was started as. -/
def Kernel.start (command : Command) : List Event :=
  if command.program ∈ bwrapTrustedPaths then .executes command.argv {} :: kernel.runBwrap command.args
  else if command.program = sandboxExec then .executes command.argv {} :: kernel.runSandboxExec command.args
  else kernel.execute command.argv {}

end process

end Nerve.Sandbox
