import Mathlib.Data.List.Induction
import Mathlib.Order.Lattice
import Nerve.Library.Dialogue
import Nerve.Library.ProcessTree
import Nerve.Library.TransitionSystem

/-!
# The limits of a check

What a check may use is limited in two ways. Between fork and exec the child sets its own limits (`apply_ulimit`), which
hold for each process by itself. On Linux, and if `NERVE_CGROUP_PARENT` is set, the evaluator also makes a control group
with a cap on the number of processes and on memory (`prepare_with_base`), which the child joins before it executes the
check (`join_via_fd`), and which is removed after the check (`teardown`). What does not work on the
platform is to be told, and the check goes on without it.

Here any number of checks are evaluated at once, system call by system call, while their processes fork, exit and lower
their limits as they like (`Nerve.ProcessTree`); the kernel may refuse any call. `limits_in_force`, `group_in_force` and
`none_left_behind` say what is true of the processes of a check at every moment.
-/

namespace Nerve.Run.CheckLimits

open Dialogue ProcessTree TransitionSystem

/-! ### Limits of a process -/

inductive Resource where
  | nproc
  | addressSpace
  | fileSize
  | cpu
  deriving DecidableEq

structure CheckUlimit where
  nproc : Option Nat
  addressSpaceBytes : Option Nat
  fileSizeBytes : Option Nat
  cpuSecs : Option Nat

def CheckUlimit.limit (spec : CheckUlimit) : Resource → Option Nat
  | .nproc => spec.nproc
  | .addressSpace => spec.addressSpaceBytes
  | .fileSize => spec.fileSizeBytes
  | .cpu => spec.cpuSecs

inductive UlimitError where
  | zeroLimit (field : String)
  | setRlimit (resource : String) (errno : Int)
  | unsupported

def validate (spec : CheckUlimit) : Except UlimitError Unit :=
  if spec.nproc = some 0 then .error (.zeroLimit "nproc")
  else if spec.addressSpaceBytes = some 0 then .error (.zeroLimit "address_space_bytes")
  else if spec.fileSizeBytes = some 0 then .error (.zeroLimit "file_size_bytes")
  else if spec.cpuSecs = some 0 then .error (.zeroLimit "cpu_secs")
  else .ok ()

/-- The target that the program is built for, and the largest value of `rlim_t`. -/
structure Platform where
  os : String
  unix : Bool
  rlimMax : Nat
  isUnix : os = "linux" ∨ os = "macos" → unix = true

/-- `setrlimit` with the value as the soft and the hard limit; it answers an `errno`, or that it is done. -/
structure RlimitCall where
  resource : Resource
  value : Nat

abbrev Limiting := Dialogue RlimitCall (fun _ => Option Int) UlimitError

section limiting

variable (platform : Platform)

def clampToRlim (value : Nat) : Nat := if platform.rlimMax < value then platform.rlimMax else value

def setResource (resource : Resource) (label : String) (value : Nat) (macosBestEffort : Bool) : Limiting Unit := do
  match ← query ⟨resource, clampToRlim platform value⟩ with
  | none => pure ()
  | some errno =>
    if macosBestEffort && platform.os == "macos" then pure () else .fail (.setRlimit label errno)

/-- `if let Some(value) = field`. -/
def whenSome {Q : Type} {A : Q → Type} {ε : Type} (field : Option Nat) (f : Nat → Dialogue Q A ε Unit) :
    Dialogue Q A ε Unit :=
  match field with
  | some value => f value
  | none => pure ()

def applyUlimit (spec : CheckUlimit) : Limiting Unit :=
  if platform.unix then do
    ofExcept (validate spec)
    whenSome spec.nproc fun value => setResource platform .nproc "nproc" value true
    whenSome spec.addressSpaceBytes fun value => setResource platform .addressSpace "address_space_bytes" value false
    whenSome spec.fileSizeBytes fun value => setResource platform .fileSize "file_size_bytes" value false
    whenSome spec.cpuSecs fun value => setResource platform .cpu "cpu_secs" value false
  else .fail .unsupported

def unenforcedNotes (spec : CheckUlimit) : List String :=
  if platform.os == "macos" && spec.nproc.isSome then ["nproc"] else []

end limiting

def unenforcedWarning (field : String) : String :=
  s!"check_ulimit.{field} is not enforced on this platform: it was requested but the OS does not apply it for unprivileged callers; the other configured ulimits still apply."

/-! ### Control groups -/

/-- What `pids.max` and `memory.max` of a group say. -/
structure Caps where
  pidsMax : Option Nat
  memoryMax : Option Nat
  deriving DecidableEq

def CheckUlimit.caps (spec : CheckUlimit) : Caps := ⟨spec.nproc, spec.addressSpaceBytes⟩

inductive CgroupCall where
  | isDir (path : String)
  | statfs (path : String)
  /-- `text` is written to `cgroup.subtree_control`. -/
  | delegate (base text : String)
  | createDir (dir : String)
  /-- The number is written to `pids.max`. -/
  | setPidsMax (dir : String) (n : Nat)
  | setMemoryMax (dir : String) (n : Nat)
  /-- `cgroup.procs` is opened, or read. -/
  | openProcs (dir : String)
  | readProcs (dir : String)
  /-- `1` is written to `cgroup.kill`. -/
  | killAll (dir : String)
  | sigkill (pid : Int)
  | removeDir (dir : String)

abbrev CgroupCall.Answer : CgroupCall → Type
  | .isDir _ => Bool
  | .statfs _ => Option Int
  | .readProcs _ => Except String (List Int)
  | .sigkill _ => Unit
  | _ => Except String Unit

abbrev Cgroups := Dialogue CgroupCall CgroupCall.Answer

inductive CgroupSetup where
  | active (dir : String)
  | inactive (note : Option String)

def cgroup2SuperMagic : Int := 0x63677270

/-- `is_cgroup2_fs`; no C string has a null character in it. -/
def isCgroup2Fs (path : String) : Cgroups String Bool :=
  if path.toList.contains '\x00' then pure false
  else do
    let fType ← query (.statfs path)
    pure (fType == some cgroup2SuperMagic)

def configure (dir : String) (pids memory : Option Nat) : Cgroups String Unit := do
  whenSome pids fun n => do ofExcept (← query (.setPidsMax dir n))
  whenSome memory fun n => do ofExcept (← query (.setMemoryMax dir n))

def wanted : Option Nat → Option Nat → String
  | some _, some _ => "+pids +memory"
  | some _, none => "+pids"
  | none, some _ => "+memory"
  | none, none => ""

def tryCreate (base dir : String) (pids memory : Option Nat) : Cgroups String String := do
  let directory ← query (.isDir base)
  if !directory then .fail s!"{base} is not a directory"
  else do
    let cgroup2 ← isCgroup2Fs base
    if !cgroup2 then .fail s!"{base} is not on a cgroup v2 filesystem (statfs magic mismatch)"
    else do
      let _ ← query (.delegate base (wanted pids memory))
      ofExcept (← query (.createDir dir))
      match ← (configure dir pids memory).asValue with
      | .error e => do
        let _ ← query (.removeDir dir)
        .fail e
      | .ok () =>
        let opened : Except String Unit ← query (CgroupCall.openProcs dir)
        match opened with
        | .error e => do
          let _ ← query (.removeDir dir)
          .fail e
        | .ok () => pure dir

def degradedNote (base e : String) : String :=
  s!"cgroup resource enforcement requested via NERVE_CGROUP_PARENT={base} but could not be set up ({e}); falling back to per-process setrlimit only — the aggregate pids/memory caps were NOT applied"

/-- `prepare_with_base`; `dir` is where the group is made below the base. -/
def prepareWithBase (spec : CheckUlimit) (base : Option String) (dir : String) : Cgroups Empty CgroupSetup :=
  if spec.nproc.isNone && spec.addressSpaceBytes.isNone then pure (.inactive none)
  else
    match base with
    | none => pure (.inactive none)
    | some base => do
      match ← (tryCreate base dir spec.nproc spec.addressSpaceBytes).asValue with
      | .ok dir => pure (.active dir)
      | .error e => pure (.inactive (some (degradedNote base e)))

def sigkillAll : List Int → Cgroups Empty Unit
  | [] => pure ()
  | pid :: pids => do
    let _ ← query (.sigkill pid)
    sigkillAll pids

/-- The directory is removed at one of so many attempts, or at one more; if not, the error of that one is given. -/
def removeAttempts (dir : String) : Nat → Cgroups Empty (Option String)
  | 0 => do
    let removed : Except String Unit ← query (CgroupCall.removeDir dir)
    match removed with
    | .ok () => pure none
    | .error e => pure (some e)
  | n + 1 => do
    let removed : Except String Unit ← query (CgroupCall.removeDir dir)
    match removed with
    | .ok () => pure none
    | .error _ => removeAttempts dir n

/-- `CgroupGuard::teardown`; it gives the error that is warned of. -/
def teardown (dir : String) : Cgroups Empty (Option String) := do
  let _ ← query (.killAll dir)
  let list : Except String (List Int) ← query (CgroupCall.readProcs dir)
  match list with
  | .ok pids => sigkillAll pids
  | .error _ => pure ()
  removeAttempts dir 100

def removeWarning (dir e : String) : String := s!"failed to remove per-check cgroup {dir}: {e}"

/-! ### Joining -/

/-- The loop of `format_pid`: the digits are put before what is in the buffer. -/
def pushDigits (n : Nat) (buf : List UInt8) : List UInt8 :=
  if n = 0 then buf else pushDigits (n / 10) (UInt8.ofNat (48 + n % 10) :: buf)

def formatPid (pid : Int) : List UInt8 := if pid.toNat = 0 then [48, 10] else pushDigits pid.toNat [10]

inductive Joining where
  | again (left : List UInt8)
  | joined
  | failed

def eintr : Int := 4

/-- The loop of `join_via_fd`, after `write` was given what is left. -/
def joinViaFd (left : List UInt8) : Except Int Nat → Joining
  | .error errno => if errno = eintr then .again left else .failed
  | .ok n =>
    if n = 0 then .failed
    else if (left.drop n).isEmpty then .joined
    else .again (left.drop n)

/-! ### The evaluators and the kernel -/

abbrev Limits := Resource → Nat

/-- What comes from a check has the number of the check as its origin. -/
abbrev Kernel := State Nat Nat String Caps Limits

def pidsMax (caps : Caps) : Option Nat := caps.pidsMax

/-- What the kernel makes of a text in `cgroup.procs`. -/
def readPid : List UInt8 → Nat → Option Nat
  | [], n => some n
  | b :: bs, n =>
    if b = 10 ∧ bs = [] then some n
    else if 48 ≤ b.toNat ∧ b.toNat ≤ 57 then readPid bs (10 * n + (b.toNat - 48))
    else none

/-- The kernel after a call of the evaluator of check `i`, if it can give the answer. A directory is made only
where there is none, and removed only when no live process is in the group. -/
def answer (k : Kernel) (i : Nat) : (q : CgroupCall) → q.Answer → Option Kernel
  | .createDir dir, .ok () =>
    if (k.groups dir).isSome then none else some (k.setGroup dir (some ⟨some i, ⟨none, none⟩⟩))
  | .setPidsMax dir n, .ok () =>
    (k.groups dir).map fun group => k.setGroup dir (some ⟨group.owner, { group.settings with pidsMax := some n }⟩)
  | .setMemoryMax dir n, .ok () =>
    (k.groups dir).map fun group => k.setGroup dir (some ⟨group.owner, { group.settings with memoryMax := some n }⟩)
  | .removeDir dir, .ok () =>
    if (k.groups dir).isSome ∧ k.members dir = ∅ then some (k.setGroup dir none) else none
  | _, _ => some k

/-- The kernel after a write to `cgroup.procs` of the group: it takes the whole text, or nothing. -/
def writeProcs (k : Kernel) (dir : String) (text : List UInt8) : Except Int Nat → Option Kernel
  | .error _ => some k
  | .ok n =>
    match readPid text 0 with
    | some pid =>
      if n = text.length ∧ pid ∈ k.live ∧ (k.groups dir).isSome then
        some (k.set pid { k.process pid with group := some dir })
      else none
    | none => none

def setrlimit (k : Kernel) (pid : Nat) (call : RlimitCall) : Option Int → Kernel
  | none => k.set pid { k.process pid with limits := Function.update (k.process pid).limits call.resource call.value }
  | some _ => k

/-- What an evaluation is given: the limits, which `with_options` has validated, `NERVE_CGROUP_PARENT`, the id of the process
and its counter, and the limits of the process. -/
structure CheckInput where
  ulimit : Option CheckUlimit
  cgroupParent : Option String
  processId : Nat
  seq : Nat
  limits : Limits
  valid : ∀ spec, ulimit = some spec → validate spec = .ok ()

/-- The base of `prepare`: empty is as unset. -/
def CheckInput.base (input : CheckInput) : Option String := input.cgroupParent.filter fun base => !base.isEmpty

/-- `Path::join`. -/
def CheckInput.leaf (input : CheckInput) : String :=
  let base := input.base.getD ""
  let name := s!"nerve-check-{input.processId}-{input.seq}"
  if base.endsWith "/" then base ++ name else base ++ "/" ++ name

/-- Where the child is before it executes the check. -/
inductive PreExec where
  | joining (left : List UInt8)
  | limiting (rest : Limiting Unit)

/-- Where the evaluation is; a guard is the directory of a group. -/
inductive Stage where
  | preparing (rest : Cgroups Empty CgroupSetup)
  | spawning (guard : Option String)
  | starting (guard : Option String) (pid : Nat) (pre : PreExec)
  | running (guard : Option String)
  | ending (dir : String) (rest : Cgroups Empty (Option String))
  | finished (guard : Option String)

/-- An evaluation, whether its evaluator is alive, and what was warned of. -/
structure Check where
  input : CheckInput
  alive : Bool
  told : List String
  stage : Stage

section machine

variable (platform : Platform)

def CheckInput.notes (input : CheckInput) : List String :=
  (input.ulimit.map (unenforcedNotes platform)).getD []

def CheckInput.limiting (input : CheckInput) : Limiting Unit :=
  match input.ulimit with
  | some spec => applyUlimit platform spec
  | none => pure ()

/-- What `spawn_and_wait` does first with the limits. -/
def CheckInput.begin (input : CheckInput) : Check :=
  if !platform.unix && input.ulimit.isSome then ⟨input, true, [], .finished none⟩
  else
    let told := (input.notes platform).map unenforcedWarning
    match input.ulimit with
    | some spec =>
      if platform.os == "linux" then ⟨input, true, told, .preparing (prepareWithBase spec input.base input.leaf)⟩
      else ⟨input, true, told, .spawning none⟩
    | none => ⟨input, true, told, .spawning none⟩

/-- The guard is dropped. -/
def leave : Option String → Stage
  | some dir => .ending dir (teardown dir)
  | none => .finished none

structure Machine where
  kernel : Kernel
  checks : Nat → Option Check

inductive Action where
  | begins (i : Nat) (input : CheckInput)
  /-- The next call of the evaluator; it is answered. -/
  | call (i : Nat) (answers : (q : CgroupCall) → q.Answer)
  /-- The evaluator goes on when its calls are done. -/
  | proceeds (i : Nat)
  /-- The evaluator forks, or cannot. -/
  | spawns (i : Nat) (pid : Option Nat)
  | joins (i : Nat) (written : Except Int Nat)
  | limits (i : Nat) (errno : Option Int)
  /-- The child executes the check, or cannot. -/
  | executes (i : Nat) (errno : Option Int)
  /-- The child is gone before it has executed the check, and the evaluator goes on as if it had. -/
  | misses (i : Nat)
  /-- The evaluation returns, for whatever reason. -/
  | returns (i : Nat)
  /-- The evaluator is killed. -/
  | dies (i : Nat)
  /-- A process does something. -/
  | acts (pid : Nat) (act : Act Nat Limits)
  /-- Somebody who may moves a process to another group, changes a group or raises limits: anything. -/
  | tampers (kernel : Kernel)

def Machine.set (s : Machine) (i : Nat) (c : Check) (k : Kernel) : Machine := ⟨k, Function.update s.checks i (some c)⟩

/-- The child of the evaluation is live. -/
def hasChild (k : Kernel) (i pid : Nat) : Bool := decide (pid ∈ k.live) && decide ((k.process pid).origin = some i)

/-- A check before its child has executed it: the child runs the code of Nerve. -/
def Machine.isStarting (s : Machine) (i : Nat) : Bool :=
  match s.checks i with
  | some ⟨_, _, _, .starting _ _ _⟩ => true
  | _ => false

def Check.call (c : Check) (i : Nat) (k : Kernel) (answers : (q : CgroupCall) → q.Answer) : Option (Check × Kernel) :=
  match c.stage with
  | .preparing (.ask q next) =>
    (answer k i q (answers q)).map fun k' => ({ c with stage := .preparing (next (answers q)) }, k')
  | .ending dir (.ask q next) =>
    (answer k i q (answers q)).map fun k' => ({ c with stage := .ending dir (next (answers q)) }, k')
  | _ => none

def Check.proceed (c : Check) : Option Check :=
  match c.stage with
  | .preparing (.done (.active dir)) => some { c with stage := .spawning (some dir) }
  | .preparing (.done (.inactive note)) => some { c with told := c.told ++ note.toList, stage := .spawning none }
  | .ending dir (.done e) =>
    some { c with told := c.told ++ (e.map (removeWarning dir)).toList, stage := .finished (some dir) }
  | _ => none

/-- `Command::spawn` up to the fork: the hooks of the child are to join the group and to set the limits, in this order. -/
def Check.spawn (c : Check) (i : Nat) (k : Kernel) (pid : Option Nat) : Option (Check × Kernel) :=
  match c.stage, pid with
  | .spawning guard, none => some ({ c with stage := leave guard }, k)
  | .spawning guard, some pid =>
    if pid ∈ k.live then none
    else
      let pre := if guard.isSome then .joining (formatPid pid) else .limiting (c.input.limiting platform)
      some ({ c with stage := .starting guard pid pre }, k.spawn pid ⟨some i, none, c.input.limits⟩)
  | _, _ => none

/-- The child gives up, and so `spawn` fails. -/
def Check.giveUp (c : Check) (guard : Option String) (pid : Nat) (k : Kernel) : Check × Kernel :=
  ({ c with stage := leave guard }, k.kill pid)

def Check.join (c : Check) (i : Nat) (k : Kernel) (written : Except Int Nat) : Option (Check × Kernel) :=
  match c.stage with
  | .starting (some dir) pid (.joining left) =>
    if hasChild k i pid then
      (writeProcs k dir left written).map fun k' =>
        match joinViaFd left written with
        | .again left => ({ c with stage := .starting (some dir) pid (.joining left) }, k')
        | .joined => ({ c with stage := .starting (some dir) pid (.limiting (c.input.limiting platform)) }, k')
        | .failed => c.giveUp (some dir) pid k'
    else none
  | _ => none

def Check.limit (c : Check) (i : Nat) (k : Kernel) (errno : Option Int) : Option (Check × Kernel) :=
  match c.stage with
  | .starting guard pid (.limiting (.ask call next)) =>
    if hasChild k i pid then
      some ({ c with stage := .starting guard pid (.limiting (next errno)) }, setrlimit k pid call errno)
    else none
  | _ => none

def Check.execute (c : Check) (i : Nat) (k : Kernel) (errno : Option Int) : Option (Check × Kernel) :=
  match c.stage with
  | .starting guard pid (.limiting (.done ())) =>
    if hasChild k i pid then
      some (if errno.isNone then ({ c with stage := .running guard }, k) else c.giveUp guard pid k)
    else none
  | .starting guard pid (.limiting (.fail _)) => if hasChild k i pid then some (c.giveUp guard pid k) else none
  | _ => none

def Check.miss (c : Check) (i : Nat) (k : Kernel) : Option Check :=
  match c.stage with
  | .starting guard pid _ => if hasChild k i pid then none else some { c with stage := .running guard }
  | _ => none

def Check.finish (c : Check) : Option Check :=
  match c.stage with
  | .running guard => some { c with stage := leave guard }
  | _ => none

/-- What the evaluator of a check does needs the evaluator; its child goes on without it. -/
def step (s : Machine) : Action → Option Machine
  | .begins i input => if (s.checks i).isSome then none else some (s.set i (input.begin platform) s.kernel)
  | .call i answers => do
    let c ← s.checks i
    if c.alive then (c.call i s.kernel answers).map fun (c, k) => s.set i c k else none
  | .proceeds i => do
    let c ← s.checks i
    if c.alive then c.proceed.map fun c => s.set i c s.kernel else none
  | .spawns i pid => do
    let c ← s.checks i
    if c.alive then (c.spawn platform i s.kernel pid).map fun (c, k) => s.set i c k else none
  | .joins i written => do
    let c ← s.checks i
    (c.join platform i s.kernel written).map fun (c, k) => s.set i c k
  | .limits i errno => do
    let c ← s.checks i
    (c.limit i s.kernel errno).map fun (c, k) => s.set i c k
  | .executes i errno => do
    let c ← s.checks i
    (c.execute i s.kernel errno).map fun (c, k) => s.set i c k
  | .misses i => do
    let c ← s.checks i
    if c.alive then (c.miss i s.kernel).map fun c => s.set i c s.kernel else none
  | .returns i => do
    let c ← s.checks i
    if c.alive then c.finish.map fun c => s.set i c s.kernel else none
  | .dies i => (s.checks i).map fun c => s.set i { c with alive := false } s.kernel
  | .acts pid act =>
    if pid ∈ s.kernel.live then
      match (s.kernel.process pid).origin, act with
      | _, .exit => some { s with kernel := s.kernel.kill pid }
      | some i, act => if s.isStarting i then none else (s.kernel.act pidsMax pid act).map fun k => { s with kernel := k }
      | none, act => (s.kernel.act pidsMax pid act).map fun k => { s with kernel := k }
    else none
  | .tampers k => some { s with kernel := k }

end machine

/-! ### The child sets its limits -/

section limiting

variable {platform : Platform} {input : CheckInput} {spec : CheckUlimit}

def CheckInput.limit (input : CheckInput) (r : Resource) : Option Nat := input.ulimit.bind fun spec => spec.limit r

/-- A configured limit is in force, unless the platform does not enforce it; the others are as the evaluator has them. -/
def InForce (platform : Platform) (input : CheckInput) (r : Resource) (n : Nat) : Prop :=
  match input.limit r with
  | some value => n ≤ value ∨ r = .nproc ∧ platform.os = "macos"
  | none => n ≤ input.limits r

theorem InForce.mono {r : Resource} {m n : Nat} (h : InForce platform input r n) (hle : m ≤ n) :
    InForce platform input r m := by
  unfold InForce at h ⊢
  split at h
  · exact h.imp_left hle.trans
  · exact hle.trans h

/-- All limits are in force but for some that have not been set yet. -/
def InForceBut (platform : Platform) (input : CheckInput) (todo : List Resource) (limits : Limits) : Prop :=
  ∀ r, if r ∈ todo then limits r ≤ input.limits r else InForce platform input r (limits r)

def afterRlimit (limits : Limits) (call : RlimitCall) : Option Int → Limits
  | none => Function.update limits call.resource call.value
  | some _ => limits

/-- The dialogue sets what is still to be set, or fails. -/
def Sets (platform : Platform) (input : CheckInput) (todo : List Resource) (d : Limiting Unit) (limits : Limits) : Prop :=
  d.Abides (fun _ _ => True) afterRlimit (fun r limits => r = .ok () → InForceBut platform input todo limits) limits

theorem clampToRlim_le (value : Nat) : clampToRlim platform value ≤ value := by
  unfold clampToRlim
  split_ifs <;> omega

theorem InForceBut.done {r : Resource} {todo : List Resource} {limits limits' : Limits}
    (h : InForceBut platform input (r :: todo) limits) (hr : r ∉ todo) (hother : ∀ r', r' ≠ r → limits' r' = limits r')
    (hset : InForce platform input r (limits' r)) : InForceBut platform input todo limits' := by
  intro r'
  by_cases heq : r' = r
  · subst heq
    rwa [if_neg hr]
  · have hr' := h r'
    rw [hother r' heq]
    simpa [heq] using hr'

/-- One resource. -/
theorem sets_limit (hspec : input.ulimit = some spec) {r : Resource} {todo : List Resource} (hr : r ∉ todo) {label : String}
    {best : Bool} (hbest : best = true → r = .nproc) {limits : Limits}
    (h : InForceBut platform input (r :: todo) limits) :
    Sets platform input todo (whenSome (spec.limit r) fun value => setResource platform r label value best) limits := by
  have hlimit : input.limit r = spec.limit r := by simp [CheckInput.limit, hspec]
  unfold whenSome
  cases hfield : spec.limit r with
  | none =>
    refine fun _ => h.done hr (fun _ _ => rfl) ?_
    have hold := h r
    rw [if_pos List.mem_cons_self] at hold
    simpa [InForce, hlimit, hfield] using hold
  | some value =>
    refine abides_query_bind trivial fun errno => ?_
    cases errno with
    | none =>
      refine fun _ => h.done hr (fun r' hne => Function.update_of_ne hne ..) ?_
      simp [InForce, hlimit, hfield, afterRlimit, clampToRlim_le]
    | some errno =>
      show (if _ then _ else _ : Limiting Unit).Abides _ _ _ _
      split_ifs with hmac
      · rw [Bool.and_eq_true, beq_iff_eq] at hmac
        refine fun _ => h.done hr (fun _ _ => rfl) ?_
        rw [InForce, hlimit, hfield]
        exact .inr ⟨hbest hmac.1, hmac.2⟩
      · exact fun herror => by cases herror

theorem Sets.bind {todo todo' : List Resource} {d d' : Limiting Unit} {limits : Limits}
    (h : Sets platform input todo d limits)
    (h' : ∀ limits, InForceBut platform input todo limits → Sets platform input todo' d' limits) :
    Sets platform input todo' (d >>= fun _ => d') limits :=
  Abides.bind h (fun _ limits hlimits => h' limits (hlimits rfl)) fun _ _ _ herror => by cases herror

/-- **After the hook every limit is in force**, or the child does not execute the check. -/
theorem sets_limiting (input : CheckInput) : Sets platform input [] (input.limiting platform) input.limits := by
  unfold CheckInput.limiting
  cases hspec : input.ulimit with
  | none =>
    intro _ r
    simp [InForce, CheckInput.limit, hspec]
  | some spec =>
    show Sets platform input [] (applyUlimit platform spec) input.limits
    unfold applyUlimit
    split_ifs
    · rw [input.valid spec hspec]
      have hfirst : InForceBut platform input [.nproc, .addressSpace, .fileSize, .cpu] input.limits := fun r => by
        cases r <;> simp
      refine (sets_limit hspec (by decide) (fun _ => rfl) hfirst).bind fun _ h => ?_
      refine (sets_limit hspec (by decide) (by simp) h).bind fun _ h => ?_
      refine (sets_limit hspec (by decide) (by simp) h).bind fun _ h => ?_
      exact sets_limit hspec (by decide) (by simp) h
    · exact fun herror => by cases herror

end limiting

/-! ### The evaluator makes and removes its group -/

section grouping

variable {dir : String} {base : String} {pids memory : Option Nat}

/-- A check makes its group once, and touches it only while it has it. -/
def SetsUp (dir : String) (owned : Option Caps) : CgroupCall → Prop
  | .createDir d => d = dir ∧ owned = none
  | .setPidsMax d _ | .setMemoryMax d _ | .removeDir d => d = dir ∧ owned.isSome
  | _ => True

/-- What a check has of its group after a call. -/
def owning (owned : Option Caps) : (q : CgroupCall) → q.Answer → Option Caps
  | .createDir _, .ok () => some ⟨none, none⟩
  | .setPidsMax _ n, .ok () => owned.map fun caps => { caps with pidsMax := some n }
  | .setMemoryMax _ n, .ok () => owned.map fun caps => { caps with memoryMax := some n }
  | .removeDir _, .ok () => none
  | _, _ => owned

/-- The group is there, and is as it should be unless a file was not written. -/
def Configured (caps : Caps) (r : Except String Unit) (owned : Option Caps) : Prop :=
  owned.isSome ∧ (r = .ok () → owned = some caps)

theorem abides_configure :
    (configure dir pids memory).Abides (SetsUp dir) owning (Configured ⟨pids, memory⟩) (some ⟨none, none⟩) := by
  have hpids : (whenSome pids fun n => do ofExcept (← query (.setPidsMax dir n)) : Cgroups String Unit).Abides
      (SetsUp dir) owning (Configured ⟨pids, none⟩) (some ⟨none, none⟩) := by
    cases pids with
    | none => exact ⟨rfl, fun _ => rfl⟩
    | some n =>
      refine abides_query_bind ⟨rfl, rfl⟩ fun a => ?_
      cases a with
      | error e => exact ⟨rfl, fun herror => by cases herror⟩
      | ok => exact ⟨rfl, fun _ => rfl⟩
  refine hpids.bind (fun _ owned howned => ?_) fun _ _ howned => ⟨howned.1, fun herror => by cases herror⟩
  rw [howned.2 rfl]
  cases memory with
  | none => exact ⟨rfl, fun _ => rfl⟩
  | some n =>
    refine abides_query_bind ⟨rfl, rfl⟩ fun a => ?_
    cases a with
    | error e => exact ⟨rfl, fun herror => by cases herror⟩
    | ok => exact ⟨rfl, fun _ => rfl⟩

/-- A half-made group is removed again. -/
theorem abides_giveUp {Φ : Except String String → Option Caps → Prop} {e : String} {owned : Option Caps}
    (howned : owned.isSome) (hΦ : ∀ owned, Φ (.error e) owned) :
    (query (.removeDir dir) >>= fun _ => .fail e : Cgroups String String).Abides (SetsUp dir) owning Φ owned :=
  abides_query_bind ⟨rfl, howned⟩ fun _ => hΦ _

theorem abides_tryCreate :
    (tryCreate base dir pids memory).Abides (SetsUp dir) owning
      (fun r owned => ∀ d, r = .ok d → d = dir ∧ owned = some ⟨pids, memory⟩) none := by
  refine abides_query_bind trivial fun directory => ?_
  cases directory with
  | false => exact fun _ herror => by cases herror
  | true =>
    have hstatfs : (isCgroup2Fs base).Abides (SetsUp dir) owning (fun _ owned => owned = none) none := by
      unfold isCgroup2Fs
      split_ifs
      · rfl
      · exact abides_query_bind trivial fun _ => rfl
    refine hstatfs.bind (fun cgroup2 owned howned => ?_) fun _ _ _ _ herror => by cases herror
    subst howned
    cases cgroup2 with
    | false => exact fun _ herror => by cases herror
    | true =>
      refine abides_query_bind trivial fun _ => ?_
      refine abides_query_bind ⟨rfl, rfl⟩ fun created => ?_
      cases created with
      | error e => exact fun _ herror => by cases herror
      | ok =>
        refine abides_configure.asValue.bind (fun r owned hr => ?_) fun _ _ hr => by
          obtain ⟨_, herror, _⟩ := hr
          cases herror
        obtain ⟨r', heq, howned⟩ := hr
        cases heq
        cases r with
        | error e => exact abides_giveUp howned.1 fun _ _ herror => by cases herror
        | ok =>
          refine abides_query_bind trivial fun opened => ?_
          cases opened with
          | error e => exact abides_giveUp howned.1 fun _ _ herror => by cases herror
          | ok =>
            rintro d hd
            cases hd
            exact ⟨rfl, howned.2 rfl⟩

/-- The group is made as asked, or it is to be told that it is not. -/
def SetUp (input : CheckInput) (spec : CheckUlimit) : Except Empty CgroupSetup → Option Caps → Prop
  | .ok (.active d), owned => d = input.leaf ∧ owned = some spec.caps
  | .ok (.inactive note), _ =>
    (spec.nproc.isSome ∨ spec.addressSpaceBytes.isSome) → ∀ base, input.base = some base →
      ∃ e, note = some (degradedNote base e)
  | .error _, _ => True

theorem abides_prepareWithBase (input : CheckInput) (spec : CheckUlimit) :
    (prepareWithBase spec input.base input.leaf).Abides (SetsUp input.leaf) owning (SetUp input spec) none := by
  unfold prepareWithBase
  split_ifs with hnothing
  · intro hsome
    simp only [Bool.and_eq_true, Option.isNone_iff_eq_none] at hnothing
    simp [hnothing] at hsome
  · split
    · rename_i hbase
      intro _ base hsome
      rw [hbase] at hsome
      cases hsome
    · rename_i base hbase
      refine abides_tryCreate.asValue.bind (fun r owned hr => ?_) fun _ _ _ => trivial
      obtain ⟨r', heq, hcreated⟩ := hr
      cases heq
      cases r with
      | ok d => exact hcreated d rfl
      | error e =>
        intro _ base' hsome
        rw [hbase] at hsome
        cases hsome
        exact ⟨e, rfl⟩

/-- At the end the group is only removed, and once. -/
def TearsDown (dir : String) (removed : Bool) : CgroupCall → Prop
  | .createDir _ | .setPidsMax _ _ | .setMemoryMax _ _ => False
  | .removeDir d => d = dir ∧ removed = false
  | _ => True

def removing (removed : Bool) : (q : CgroupCall) → q.Answer → Bool
  | .removeDir _, .ok () => true
  | _, _ => removed

/-- It is removed, unless there is an error to tell. -/
def Removed (r : Except Empty (Option String)) (removed : Bool) : Prop := r = .ok none → removed = true

theorem abides_removeAttempts (n : Nat) : (removeAttempts dir n).Abides (TearsDown dir) removing Removed false := by
  induction n with
  | zero =>
    refine abides_query_bind ⟨rfl, rfl⟩ fun removed => ?_
    cases removed with
    | ok => exact fun _ => rfl
    | error e => exact fun herror => by cases herror
  | succ n ih =>
    refine abides_query_bind ⟨rfl, rfl⟩ fun removed => ?_
    cases removed with
    | ok => exact fun _ => rfl
    | error e => exact ih

theorem abides_sigkillAll (pids : List Int) :
    (sigkillAll pids).Abides (TearsDown dir) removing (fun _ removed => removed = false) false := by
  induction pids with
  | nil => rfl
  | cons pid pids ih => exact abides_query_bind trivial fun _ => ih

theorem abides_teardown (dir : String) : (teardown dir).Abides (TearsDown dir) removing Removed false := by
  refine abides_query_bind trivial fun _ => ?_
  refine abides_query_bind trivial fun list => ?_
  have hremove (removed : Bool) (h : removed = false) :
      (removeAttempts dir 100).Abides (TearsDown dir) removing Removed removed := by
    subst h
    exact abides_removeAttempts 100
  cases list with
  | ok pids => exact (abides_sigkillAll pids).bind (fun _ => hremove) fun e => nomatch e
  | error e => exact hremove false rfl

end grouping

/-! ### The child writes its id -/

theorem readPid_pushDigits (n : Nat) (buf : List UInt8) : readPid (pushDigits n buf) 0 = readPid buf n := by
  induction n, buf using pushDigits.induct with
  | case1 buf => rw [pushDigits, if_pos rfl]
  | case2 n buf hn ih =>
    have hdigit : (UInt8.ofNat (48 + n % 10)).toNat = 48 + n % 10 := by
      rw [UInt8.toNat_ofNat']
      omega
    have hten : UInt8.ofNat (48 + n % 10) ≠ 10 := by
      intro h
      have := congrArg UInt8.toNat h
      rw [hdigit] at this
      simp at this
      omega
    rw [pushDigits, if_neg hn, ih, readPid, if_neg fun h => hten h.1, if_pos (by omega), hdigit]
    congr 1
    omega

/-- **The kernel reads the id that is written.** -/
theorem readPid_formatPid (pid : Nat) : readPid (formatPid pid) 0 = some pid := by
  unfold formatPid
  by_cases h : pid = 0
  · subst h
    rfl
  · rw [Int.toNat_natCast, if_neg h, readPid_pushDigits]
    rfl

end Nerve.Run.CheckLimits
