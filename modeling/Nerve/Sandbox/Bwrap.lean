import Nerve.Library.Utf8

/-!
# The wrapped command line

The words that `bwrap` is started with, and what they are read as. The options of `bwrap` end at a `--`, and what is
behind it is a command. That is the check, or it is `nv` once more, with options of its own that end at a `--` of
their own (`buildConfineHelperArgv`), which `parseConfineArgs` reads inside the jail. No word of a command is ever in
the place of an option, and neither is an operand, whatever they look like (`readOptions_words`,
`readConfineFlags_eq_some`).
-/

namespace Nerve.Sandbox

/-- A path, as the system has it: any octets. -/
abbrev OsPath := List UInt8

/-- `Path::to_string_lossy`. -/
def toStringLossy (path : OsPath) : String := String.ofList (Utf8.decode path)

/-- `PathBuf::from`, of a text. -/
def pathOfText (s : String) : OsPath := Utf8.encode s.toList

/-! ### The command line -/

inductive SandboxMode where
  | off
  | auto
  | required
  deriving DecidableEq, Repr

/-- `SandboxConfig`, what `bwrap_decide` looks at. -/
structure SandboxConfig where
  mode : SandboxMode
  allowNetwork : Bool
  landlock : Bool
  seccomp : Bool
  deriving DecidableEq, Repr

inductive SandboxDecision where
  | unconfined (warning : Option String)
  | wrap (program : String) (args : List String)
  | refuse (reason : String)
  deriving DecidableEq, Repr

/-- `no_backend_decide`, on the system named `os`. -/
def noBackendDecide (os : String) : SandboxMode → SandboxDecision
  | .required =>
    .refuse (s!"sandbox.mode=required but no OS sandbox backend is available on this platform ({os}); " ++
      "refusing to run the check unconfined")
  | _ =>
    .unconfined (some (s!"sandbox.mode=auto requested but no OS sandbox backend is available on this platform ({os}); " ++
      "running the check UNCONFINED — set sandbox.mode=required to refuse instead"))

/-- `LANDLOCK_HELPER_UNRESOLVED`. -/
def landlockHelperUnresolved : String :=
  "sandbox.mode=required with sandbox.landlock=true, but the Nerve binary path could not be resolved to insert the " ++
    "in-jail Landlock helper; refusing to run the check (fail closed)"

/-- `BWRAP_TRUSTED_PATHS`. -/
def bwrapTrustedPaths : List String := ["/usr/bin/bwrap", "/bin/bwrap", "/usr/sbin/bwrap"]

/-- `trusted_bwrap`. -/
def trustedBwrap (isFile : String → Bool) : Option String := bwrapTrustedPaths.find? isFile

/-- `canonical_writable_roots`. -/
def canonicalWritableRoots (canonicalize : OsPath → Option OsPath) (cwd : OsPath) (extra : List OsPath) : List OsPath :=
  (cwd :: extra).map fun p => (canonicalize p).getD p

/-- `CONFINE_HELPER_TOKEN`. -/
def confineHelperToken : String := "__nv-confine"

/-- `confine_mode_token`. -/
def confineModeToken : SandboxMode → String
  | .required => "required"
  | .auto | .off => "auto"

/-- `confine_required_from_token`. -/
def confineRequiredFromToken (token : String) : Option Bool :=
  if token = "required" then some true else if token = "auto" then some false else none

/-- `confine_unresolved_helper_refuses`. -/
def confineUnresolvedHelperRefuses (mode : SandboxMode) (landlock : Bool) : Bool := mode == .required && landlock

/-- `build_confine_helper_argv`. -/
def buildConfineHelperArgv (nv : OsPath) (mode : SandboxMode) (landlock seccomp : Bool) (roots : List OsPath)
    (checkCmd : List String) : List String :=
  [toStringLossy nv, confineHelperToken, "--mode", confineModeToken mode] ++
  (if landlock then ["--landlock"] else []) ++
  (if seccomp then ["--seccomp"] else []) ++
  (if landlock then roots.flatMap fun root => ["--root", toStringLossy root] else []) ++
  "--" :: checkCmd

/-- `bwrap_args`. -/
def bwrapArgs (writableRoots : List OsPath) (cwd : OsPath) (checkCmd : List String) (allowNetwork : Bool) : List String :=
  ["--ro-bind", "/", "/", "--proc", "/proc", "--dev", "/dev", "--chdir", toStringLossy cwd, "--die-with-parent"] ++
  (writableRoots.flatMap fun root => ["--bind", toStringLossy root, toStringLossy root]) ++
  (if allowNetwork then [] else ["--unshare-net"]) ++
  "--" :: checkCmd

/-- `bwrap_decide`, which only Linux has. `isFile` and `canonicalize` ask the file system. -/
def bwrapDecide (isFile : String → Bool) (canonicalize : OsPath → Option OsPath) (config : SandboxConfig) (cwd : OsPath)
    (checkCmd : List String) (extraWritableRoots : List OsPath) (confineHelper : Option OsPath) : SandboxDecision :=
  match trustedBwrap isFile with
  | none => noBackendDecide "linux" config.mode
  | some bwrap =>
    let writable := canonicalWritableRoots canonicalize cwd extraWritableRoots
    if config.landlock || config.seccomp then
      match confineHelper with
      | some nv =>
        let inner := buildConfineHelperArgv nv config.mode config.landlock config.seccomp writable checkCmd
        .wrap bwrap (bwrapArgs writable cwd inner config.allowNetwork)
      | none =>
        if confineUnresolvedHelperRefuses config.mode config.landlock then .refuse landlockHelperUnresolved
        else .wrap bwrap (bwrapArgs writable cwd checkCmd config.allowNetwork)
    else .wrap bwrap (bwrapArgs writable cwd checkCmd config.allowNetwork)

/-- `ConfineSpec`. -/
structure ConfineSpec where
  required : Bool
  landlock : Bool
  seccomp : Bool
  roots : List OsPath
  checkCmd : List String
  deriving DecidableEq, Repr

/-- What `parse_confine_args` has read so far. -/
structure ConfineFlags where
  required : Option Bool := none
  landlock : Bool := false
  seccomp : Bool := false
  roots : List OsPath := []
  deriving DecidableEq, Repr

/-- The loop of `parse_confine_args`: what it has read at the `--`, and the words that are behind. -/
def readConfineFlags (flags : ConfineFlags) : List String → Option (ConfineFlags × List String)
  | [] => none
  | token :: rest =>
    if token = "--" then some (flags, rest)
    else if token = "--mode" then
      match rest with
      | [] => none
      | value :: rest =>
        if flags.required.isSome then none
        else
          match confineRequiredFromToken value with
          | none => none
          | some required => readConfineFlags { flags with required := some required } rest
    else if token = "--landlock" then
      if flags.landlock then none else readConfineFlags { flags with landlock := true } rest
    else if token = "--seccomp" then
      if flags.seccomp then none else readConfineFlags { flags with seccomp := true } rest
    else if token = "--root" then
      match rest with
      | [] => none
      | value :: rest =>
        if value = "" then none else readConfineFlags { flags with roots := flags.roots ++ [pathOfText value] } rest
    else none

/-- `parse_confine_args`. -/
def parseConfineArgs (tail : List String) : Option ConfineSpec := do
  let (flags, checkCmd) ← readConfineFlags {} tail
  let required ← flags.required
  if checkCmd.isEmpty then none
  else some ⟨required, flags.landlock, flags.seccomp, flags.roots, checkCmd⟩

/-! ### How `bwrap` reads it -/

/-- An option, with its operands. -/
structure GivenOption where
  name : String
  operands : List String
  deriving DecidableEq, Repr

def GivenOption.words (o : GivenOption) : List String := o.name :: o.operands

/-- What is read of words: the operands that an option in front of them is still owed, the options, and the command. -/
structure Reading where
  owed : List String
  options : List GivenOption
  command : List String
  deriving DecidableEq, Repr

/-- Reads words of which the first `n` are operands that are owed. An option takes as many operands as `arity` says,
and the first `--` that is no operand ends the options. -/
def readOptions (arity : String → Option Nat) : Nat → List String → Option Reading
  | _, [] => none
  | n + 1, word :: rest => (readOptions arity n rest).map fun r => { r with owed := word :: r.owed }
  | 0, word :: rest =>
    if word = "--" then some ⟨[], [], rest⟩
    else (arity word).bind fun n =>
      (readOptions arity n rest).map fun r => { r with owed := [], options := ⟨word, r.owed⟩ :: r.options }

/-- How many operands the options of `bwrap` have. It has more options than the ones below. -/
structure BwrapGrammar where
  arity : String → Option Nat
  ro_bind : arity "--ro-bind" = some 2
  bind : arity "--bind" = some 2
  proc : arity "--proc" = some 1
  dev : arity "--dev" = some 1
  chdir : arity "--chdir" = some 1
  die_with_parent : arity "--die-with-parent" = some 0
  unshare_net : arity "--unshare-net" = some 0

inductive Mount where
  | roBind (source target : OsPath)
  | bind (source target : OsPath)
  | proc (target : OsPath)
  | dev (target : OsPath)
  deriving DecidableEq, Repr

/-- What `bwrap` makes: the mounts, the first one first, where the command is run, whether it has a network of its own,
and whether it dies with its parent. -/
structure Jail where
  mounts : List Mount := []
  directory : Option OsPath := none
  unshareNet : Bool := false
  dieWithParent : Bool := false
  deriving DecidableEq, Repr

def Jail.add (jail : Jail) (o : GivenOption) : Jail :=
  match o.name, o.operands with
  | "--ro-bind", [source, target] =>
    { jail with mounts := jail.mounts ++ [.roBind (pathOfText source) (pathOfText target)] }
  | "--bind", [source, target] =>
    { jail with mounts := jail.mounts ++ [.bind (pathOfText source) (pathOfText target)] }
  | "--proc", [target] => { jail with mounts := jail.mounts ++ [.proc (pathOfText target)] }
  | "--dev", [target] => { jail with mounts := jail.mounts ++ [.dev (pathOfText target)] }
  | "--chdir", [target] => { jail with directory := some (pathOfText target) }
  | "--die-with-parent", [] => { jail with dieWithParent := true }
  | "--unshare-net", [] => { jail with unshareNet := true }
  | _, _ => jail

/-- The jail and the command that words of `bwrap` stand for. -/
def BwrapGrammar.read (grammar : BwrapGrammar) (args : List String) : Option (Jail × List String) :=
  (readOptions grammar.arity 0 args).map fun r => (r.options.foldl Jail.add {}, r.command)

theorem readOptions_succ (arity : String → Option Nat) (n : Nat) (word : String) (rest : List String) :
    readOptions arity (n + 1) (word :: rest) =
      (readOptions arity n rest).map fun r => { r with owed := word :: r.owed } := rfl

theorem readOptions_zero (arity : String → Option Nat) (word : String) (rest : List String) :
    readOptions arity 0 (word :: rest) =
      if word = "--" then some ⟨[], [], rest⟩
      else (arity word).bind fun n =>
        (readOptions arity n rest).map fun r => { r with owed := [], options := ⟨word, r.owed⟩ :: r.options } := rfl

theorem readOptions_owed (arity : String → Option Nat) (operands rest : List String) {n : Nat} :
    readOptions arity (operands.length + n) (operands ++ rest) =
      (readOptions arity n rest).map fun r => { r with owed := operands ++ r.owed } := by
  induction operands with
  | nil => simp
  | cons word operands ih =>
    have hlength : (word :: operands).length + n = (operands.length + n) + 1 := by
      rw [List.length_cons]
      omega
    rw [hlength, List.cons_append, readOptions_succ, ih, Option.map_map]
    rfl

/-- Nothing is owed to an option that is not there. -/
theorem owed_of_readOptions {arity : String → Option Nat} {words : List String} {r : Reading}
    (h : readOptions arity 0 words = some r) : r.owed = [] := by
  cases words with
  | nil => cases h
  | cons word rest =>
    rw [readOptions_zero] at h
    split at h
    · cases h
      rfl
    · obtain ⟨n, -, h⟩ := Option.bind_eq_some_iff.mp h
      obtain ⟨r', -, rfl⟩ := Option.map_eq_some_iff.mp h
      rfl

/-- One option is read, with its operands. -/
theorem readOptions_option {arity : String → Option Nat} {o : GivenOption} (hname : o.name ≠ "--")
    (harity : arity o.name = some o.operands.length) {rest : List String} {r : Reading}
    (h : readOptions arity 0 rest = some r) :
    readOptions arity 0 (o.words ++ rest) = some { r with options := o :: r.options } := by
  have howed := readOptions_owed arity o.operands rest (n := 0)
  rw [Nat.add_zero, h] at howed
  rw [GivenOption.words, List.cons_append, readOptions_zero, if_neg hname, harity, Option.bind_some, howed]
  simp [owed_of_readOptions h]

/-- Options and a command are read as these, whatever the operands and the command look like. -/
theorem readOptions_words {arity : String → Option Nat} {options : List GivenOption} (command : List String)
    (h : ∀ o ∈ options, o.name ≠ "--" ∧ arity o.name = some o.operands.length) :
    readOptions arity 0 (options.flatMap GivenOption.words ++ "--" :: command) = some ⟨[], options, command⟩ := by
  induction options with
  | nil => rw [List.flatMap_nil, List.nil_append, readOptions_zero, if_pos rfl]
  | cons o options ih =>
    obtain ⟨⟨hname, harity⟩, h⟩ := List.forall_mem_cons.mp h
    rw [List.flatMap_cons, List.append_assoc, readOptions_option hname harity (ih h)]

/-- The options of `bwrapArgs`. -/
def bwrapOptions (writableRoots : List OsPath) (cwd : OsPath) (allowNetwork : Bool) : List GivenOption :=
  [⟨"--ro-bind", ["/", "/"]⟩, ⟨"--proc", ["/proc"]⟩, ⟨"--dev", ["/dev"]⟩, ⟨"--chdir", [toStringLossy cwd]⟩,
    ⟨"--die-with-parent", []⟩] ++
  (writableRoots.map fun root => ⟨"--bind", [toStringLossy root, toStringLossy root]⟩) ++
  if allowNetwork then [] else [⟨"--unshare-net", []⟩]

theorem bwrapArgs_eq_words (writableRoots : List OsPath) (cwd : OsPath) (checkCmd : List String) (allowNetwork : Bool) :
    bwrapArgs writableRoots cwd checkCmd allowNetwork =
      (bwrapOptions writableRoots cwd allowNetwork).flatMap GivenOption.words ++ "--" :: checkCmd := by
  rw [bwrapArgs, bwrapOptions, List.flatMap_append, List.flatMap_append, List.flatMap_map]
  cases allowNetwork <;> rfl

theorem bwrapOptions_fit (grammar : BwrapGrammar) (writableRoots : List OsPath) (cwd : OsPath) (allowNetwork : Bool) :
    ∀ o ∈ bwrapOptions writableRoots cwd allowNetwork,
      o.name ≠ "--" ∧ grammar.arity o.name = some o.operands.length := by
  intro o ho
  rw [bwrapOptions, List.mem_append, List.mem_append] at ho
  obtain (ho | ho) | ho := ho
  · simp only [List.mem_cons, List.not_mem_nil, or_false] at ho
    obtain rfl | rfl | rfl | rfl | rfl := ho
    · exact ⟨by decide, grammar.ro_bind⟩
    · exact ⟨by decide, grammar.proc⟩
    · exact ⟨by decide, grammar.dev⟩
    · exact ⟨(by decide : "--chdir" ≠ "--"), grammar.chdir⟩
    · exact ⟨by decide, grammar.die_with_parent⟩
  · obtain ⟨root, -, rfl⟩ := List.mem_map.mp ho
    exact ⟨(by decide : "--bind" ≠ "--"), grammar.bind⟩
  · cases allowNetwork
    · obtain rfl := List.mem_singleton.mp ho
      exact ⟨by decide, grammar.unshare_net⟩
    · cases ho

/-- A path, as it is after it was an argument. It is the path where that is UTF-8 (`asArgument_of_utf8`). -/
def asArgument (path : OsPath) : OsPath := pathOfText (toStringLossy path)

theorem asArgument_of_utf8 {path : OsPath} (h : ∃ s, path = pathOfText s) : asArgument path = path := by
  obtain ⟨s, rfl⟩ := h
  rw [asArgument, toStringLossy, pathOfText, pathOfText, String.toList_ofList, Utf8.decode_encode]

theorem foldl_add_binds (jail : Jail) (roots : List OsPath) :
    (roots.map fun root => (⟨"--bind", [toStringLossy root, toStringLossy root]⟩ : GivenOption)).foldl Jail.add jail =
      { jail with mounts := jail.mounts ++ roots.map fun root => .bind (asArgument root) (asArgument root) } := by
  induction roots generalizing jail with
  | nil => simp
  | cons root roots ih =>
    rw [List.map_cons, List.foldl_cons, ih]
    simp [Jail.add, asArgument]

/-- The jail of a check: the host is read-only, with the roots bound over it. -/
def checkJail (writableRoots : List OsPath) (cwd : OsPath) (allowNetwork : Bool) : Jail where
  mounts := [.roBind (pathOfText "/") (pathOfText "/"), .proc (pathOfText "/proc"), .dev (pathOfText "/dev")] ++
    writableRoots.map fun root => .bind (asArgument root) (asArgument root)
  directory := some (asArgument cwd)
  unshareNet := !allowNetwork
  dieWithParent := true

theorem read_bwrapArgs (grammar : BwrapGrammar) (writableRoots : List OsPath) (cwd : OsPath) (command : List String)
    (allowNetwork : Bool) :
    grammar.read (bwrapArgs writableRoots cwd command allowNetwork) =
      some (checkJail writableRoots cwd allowNetwork, command) := by
  have hread := readOptions_words command (bwrapOptions_fit grammar writableRoots cwd allowNetwork)
  rw [BwrapGrammar.read, bwrapArgs_eq_words, hread, Option.map_some, bwrapOptions, List.foldl_append, List.foldl_append,
    foldl_add_binds]
  cases allowNetwork <;> simp [Jail.add, checkJail, asArgument]

/-! ### How the helper reads it -/

/-- An option of the helper. -/
inductive ConfineOption where
  | mode (required : Bool)
  | landlock
  | seccomp
  | root (path : String)
  deriving DecidableEq, Repr

def ConfineOption.words : ConfineOption → List String
  | .mode required => ["--mode", if required then "required" else "auto"]
  | .landlock => ["--landlock"]
  | .seccomp => ["--seccomp"]
  | .root path => ["--root", path]

def ConfineOption.required? : ConfineOption → Option Bool
  | .mode required => some required
  | _ => none

def ConfineOption.root? : ConfineOption → Option OsPath
  | .root path => some (pathOfText path)
  | _ => none

/-- One option more. -/
def ConfineFlags.add (flags : ConfineFlags) : ConfineOption → Option ConfineFlags
  | .mode required => if flags.required.isSome then none else some { flags with required := some required }
  | .landlock => if flags.landlock then none else some { flags with landlock := true }
  | .seccomp => if flags.seccomp then none else some { flags with seccomp := true }
  | .root path => if path = "" then none else some { flags with roots := flags.roots ++ [pathOfText path] }

theorem confineRequiredFromToken_eq_some {token : String} {required : Bool} :
    confineRequiredFromToken token = some required ↔ token = if required then "required" else "auto" := by
  rw [confineRequiredFromToken]
  cases required <;> grind

theorem readConfineFlags_words (flags : ConfineFlags) (option : ConfineOption) (rest : List String) :
    readConfineFlags flags (option.words ++ rest) = (flags.add option).bind fun flags => readConfineFlags flags rest := by
  cases option with
  | mode required =>
    have htoken := confineRequiredFromToken_eq_some.mpr (rfl : (if required then "required" else "auto") = _)
    cases hrequired : flags.required.isSome <;>
      simp [ConfineOption.words, readConfineFlags, ConfineFlags.add, htoken, hrequired]
  | landlock =>
    rw [readConfineFlags.eq_def]
    cases h : flags.landlock <;> simp [ConfineOption.words, ConfineFlags.add, h]
  | seccomp =>
    rw [readConfineFlags.eq_def]
    cases h : flags.seccomp <;> simp [ConfineOption.words, ConfineFlags.add, h]
  | root path => by_cases h : path = "" <;> simp [ConfineOption.words, readConfineFlags, ConfineFlags.add, h]

theorem exists_options_cons (option : ConfineOption) {flags flags₁ flags' : ConfineFlags} {rest check : List String}
    (hadd : flags.add option = some flags₁)
    (h : ∃ options : List ConfineOption, rest = options.flatMap ConfineOption.words ++ "--" :: check ∧
      options.foldlM ConfineFlags.add flags₁ = some flags') :
    ∃ options : List ConfineOption, option.words ++ rest = options.flatMap ConfineOption.words ++ "--" :: check ∧
      options.foldlM ConfineFlags.add flags = some flags' := by
  obtain ⟨options, rfl, h⟩ := h
  refine ⟨option :: options, by rw [List.flatMap_cons, List.append_assoc], ?_⟩
  rw [List.foldlM_cons, hadd]
  exact h

/-- The loop gets to the `--` on options that it can add, and on nothing else. -/
theorem readConfineFlags_eq_some {flags flags' : ConfineFlags} {tail check : List String} :
    readConfineFlags flags tail = some (flags', check) ↔
      ∃ options : List ConfineOption, tail = options.flatMap ConfineOption.words ++ "--" :: check ∧
        options.foldlM ConfineFlags.add flags = some flags' := by
  constructor
  · intro h
    fun_induction readConfineFlags flags tail
    case case2 =>
      cases h
      exact ⟨[], rfl, rfl⟩
    case case6 flags value rest hmode required htoken _ ih =>
      rw [confineRequiredFromToken_eq_some.mp htoken]
      exact exists_options_cons (.mode required) (if_neg hmode) (ih h)
    case case8 flags rest hlandlock _ _ ih => exact exists_options_cons .landlock (if_neg hlandlock) (ih h)
    case case10 flags rest hseccomp _ _ _ ih => exact exists_options_cons .seccomp (if_neg hseccomp) (ih h)
    case case13 flags value rest hvalue _ _ _ _ ih => exact exists_options_cons (.root value) (if_neg hvalue) (ih h)
    all_goals cases h
  · rintro ⟨options, rfl, h⟩
    induction options generalizing flags with
    | nil =>
      obtain rfl : flags = flags' := by simpa using h
      rw [readConfineFlags.eq_def]
      simp
    | cons option options ih =>
      rw [List.foldlM_cons] at h
      obtain ⟨flags₁, hadd, h⟩ := Option.bind_eq_some_iff.mp h
      rw [List.flatMap_cons, List.append_assoc, readConfineFlags_words, hadd, Option.bind_some, ih h]

/-- What `flags` are after the options: one mode at most, each layer once at most, and no root without a text. -/
structure ConfineFlags.Grows (flags : ConfineFlags) (options : List ConfineOption) (flags' : ConfineFlags) : Prop where
  required : flags.required.toList ++ options.filterMap ConfineOption.required? = flags'.required.toList
  landlock : flags.landlock.toNat + options.count .landlock = flags'.landlock.toNat
  seccomp : flags.seccomp.toNat + options.count .seccomp = flags'.seccomp.toNat
  roots : flags.roots ++ options.filterMap ConfineOption.root? = flags'.roots
  nonempty : .root "" ∉ options

theorem toNat_inj {a b : Bool} : a.toNat = b.toNat ↔ a = b := by
  cases a <;> cases b <;> decide

theorem ConfineFlags.grows_nil {flags flags' : ConfineFlags} : flags.Grows [] flags' ↔ flags = flags' := by
  constructor
  · rintro ⟨hrequired, hlandlock, hseccomp, hroots, -⟩
    have hrequired : flags.required = flags'.required :=
      Option.ext fun a => by rw [← Option.mem_toList, ← Option.mem_toList, ← hrequired]; simp
    have hroots : flags.roots = flags'.roots := by simpa using hroots
    cases flags
    cases flags'
    rw [ConfineFlags.mk.injEq]
    exact ⟨hrequired, toNat_inj.mp hlandlock, toNat_inj.mp hseccomp, hroots⟩
  · rintro rfl
    exact ⟨List.append_nil _, Nat.add_zero _, Nat.add_zero _, List.append_nil _, List.not_mem_nil⟩

theorem eq_false_of_toNat_add {b b' : Bool} {n : Nat} (h : b.toNat + (n + 1) = b'.toNat) : b = false := by
  have hle := Bool.toNat_le b'
  exact Bool.toNat_eq_zero.mp (by omega)

/-- An option that can be added is not one too many. -/
theorem ConfineFlags.Grows.of_add {flags flags₁ flags' : ConfineFlags} {option : ConfineOption}
    {options : List ConfineOption} (hadd : flags.add option = some flags₁) (h : flags₁.Grows options flags') :
    flags.Grows (option :: options) flags' := by
  obtain ⟨hrequired, hlandlock, hseccomp, hroots, hnonempty⟩ := h
  cases option with
  | mode required =>
    obtain ⟨hnone, hadd⟩ := Option.ite_none_left_eq_some.mp hadd
    cases hadd
    rw [Bool.not_eq_true, Option.isSome_eq_false_iff, Option.isNone_iff_eq_none] at hnone
    refine ⟨?_, by simpa using hlandlock, by simpa using hseccomp, hroots, by simpa using hnonempty⟩
    rw [hnone]
    exact hrequired
  | landlock =>
    obtain ⟨hlayer, hadd⟩ := Option.ite_none_left_eq_some.mp hadd
    cases hadd
    refine ⟨hrequired, ?_, by simpa using hseccomp, hroots, by simpa using hnonempty⟩
    rw [Bool.eq_false_iff.mpr hlayer, List.count_cons_self, Nat.add_comm (List.count _ _)]
    exact (Nat.zero_add _).trans hlandlock
  | seccomp =>
    obtain ⟨hlayer, hadd⟩ := Option.ite_none_left_eq_some.mp hadd
    cases hadd
    refine ⟨hrequired, by simpa using hlandlock, ?_, hroots, by simpa using hnonempty⟩
    rw [Bool.eq_false_iff.mpr hlayer, List.count_cons_self, Nat.add_comm (List.count _ _)]
    exact (Nat.zero_add _).trans hseccomp
  | root path =>
    obtain ⟨hpath, hadd⟩ := Option.ite_none_left_eq_some.mp hadd
    cases hadd
    refine ⟨hrequired, by simpa using hlandlock, by simpa using hseccomp, ?_, by simpa [Ne.symm hpath] using hnonempty⟩
    exact (List.append_assoc _ [pathOfText path] _).symm.trans hroots

/-- Where there is none too many, the first one can be added. -/
theorem ConfineFlags.Grows.add {flags flags' : ConfineFlags} {option : ConfineOption} {options : List ConfineOption}
    (h : flags.Grows (option :: options) flags') :
    ∃ flags₁, flags.add option = some flags₁ ∧ flags₁.Grows options flags' := by
  obtain ⟨hrequired, hlandlock, hseccomp, hroots, hnonempty⟩ := h
  have hrest := fun h => hnonempty (List.mem_cons_of_mem option h)
  cases option with
  | mode required =>
    have hnone : flags.required = none := by
      cases hflags : flags.required with
      | none => rfl
      | some _ => cases hflags' : flags'.required <;> simp [hflags, hflags', ConfineOption.required?] at hrequired
    rw [hnone] at hrequired
    refine ⟨{ flags with required := some required }, by simp [ConfineFlags.add, hnone], ?_⟩
    exact ⟨hrequired, by simpa using hlandlock, by simpa using hseccomp, hroots, hrest⟩
  | landlock =>
    rw [List.count_cons_self] at hlandlock
    have hlayer := eq_false_of_toNat_add hlandlock
    rw [hlayer, Nat.add_comm (List.count _ _)] at hlandlock
    refine ⟨{ flags with landlock := true }, by simp [ConfineFlags.add, hlayer], ?_⟩
    exact ⟨hrequired, (Nat.zero_add _).symm.trans hlandlock, by simpa using hseccomp, hroots, hrest⟩
  | seccomp =>
    rw [List.count_cons_self] at hseccomp
    have hlayer := eq_false_of_toNat_add hseccomp
    rw [hlayer, Nat.add_comm (List.count _ _)] at hseccomp
    refine ⟨{ flags with seccomp := true }, by simp [ConfineFlags.add, hlayer], ?_⟩
    exact ⟨hrequired, by simpa using hlandlock, (Nat.zero_add _).symm.trans hseccomp, hroots, hrest⟩
  | root path =>
    have hpath : path ≠ "" := by
      rintro rfl
      exact hnonempty List.mem_cons_self
    refine ⟨{ flags with roots := flags.roots ++ [pathOfText path] }, if_neg hpath, ?_⟩
    refine ⟨hrequired, by simpa using hlandlock, by simpa using hseccomp, ?_, hrest⟩
    exact (List.append_assoc _ [pathOfText path] _).trans hroots

theorem ConfineFlags.foldlM_add_eq_some {flags flags' : ConfineFlags} {options : List ConfineOption} :
    options.foldlM ConfineFlags.add flags = some flags' ↔ flags.Grows options flags' := by
  induction options generalizing flags with
  | nil => rw [grows_nil, List.foldlM_nil, Option.pure_def, Option.some.injEq]
  | cons option options ih =>
    rw [List.foldlM_cons, Option.bind_eq_bind, Option.bind_eq_some_iff]
    constructor
    · rintro ⟨flags₁, hadd, h⟩
      exact .of_add hadd (ih.mp h)
    · intro h
      obtain ⟨flags₁, hadd, h⟩ := h.add
      exact ⟨flags₁, hadd, ih.mpr h⟩

/-- What words of the helper say: the options, with the check behind them. -/
structure ConfineSpec.Says (spec : ConfineSpec) (options : List ConfineOption) : Prop where
  required : options.filterMap ConfineOption.required? = [spec.required]
  landlock : options.count .landlock = spec.landlock.toNat
  seccomp : options.count .seccomp = spec.seccomp.toNat
  roots : options.filterMap ConfineOption.root? = spec.roots
  nonempty : .root "" ∉ options
  checkCmd : spec.checkCmd ≠ []

theorem parseConfineArgs_eq_some {tail : List String} {spec : ConfineSpec} :
    parseConfineArgs tail = some spec ↔
      ∃ options, spec.Says options ∧ tail = options.flatMap ConfineOption.words ++ "--" :: spec.checkCmd := by
  constructor
  · intro h
    obtain ⟨⟨flags, checkCmd⟩, hread, h⟩ := Option.bind_eq_some_iff.mp h
    obtain ⟨required, hrequired, h⟩ := Option.bind_eq_some_iff.mp h
    obtain ⟨hcheck, h⟩ := Option.ite_none_left_eq_some.mp h
    cases h
    obtain ⟨options, rfl, hadd⟩ := readConfineFlags_eq_some.mp hread
    have hgrows := ConfineFlags.foldlM_add_eq_some.mp hadd
    refine ⟨options, ⟨?_, (Nat.zero_add _).symm.trans hgrows.landlock, (Nat.zero_add _).symm.trans hgrows.seccomp,
      hgrows.roots, hgrows.nonempty, fun h => hcheck (List.isEmpty_iff.mpr h)⟩, rfl⟩
    have hmode := hgrows.required
    rw [hrequired] at hmode
    exact hmode
  · rintro ⟨options, hspec, rfl⟩
    have hread : readConfineFlags {} (options.flatMap ConfineOption.words ++ "--" :: spec.checkCmd) =
        some (⟨some spec.required, spec.landlock, spec.seccomp, spec.roots⟩, spec.checkCmd) := by
      refine readConfineFlags_eq_some.mpr ⟨options, rfl, ConfineFlags.foldlM_add_eq_some.mpr ?_⟩
      exact ⟨hspec.required, (Nat.zero_add _).trans hspec.landlock, (Nat.zero_add _).trans hspec.seccomp, hspec.roots,
        hspec.nonempty⟩
    simp [parseConfineArgs, hread, hspec.checkCmd]

/-! ### What was asked is what is read -/

/-- The options of `buildConfineHelperArgv`. -/
def confineOptions (mode : SandboxMode) (landlock seccomp : Bool) (roots : List OsPath) : List ConfineOption :=
  [.mode (mode == .required)] ++ (if landlock then [.landlock] else []) ++ (if seccomp then [.seccomp] else []) ++
  if landlock then roots.map fun root => .root (toStringLossy root) else []

theorem buildConfineHelperArgv_eq (nv : OsPath) (mode : SandboxMode) (landlock seccomp : Bool) (roots : List OsPath)
    (checkCmd : List String) :
    buildConfineHelperArgv nv mode landlock seccomp roots checkCmd =
      toStringLossy nv :: confineHelperToken ::
        ((confineOptions mode landlock seccomp roots).flatMap ConfineOption.words ++ "--" :: checkCmd) := by
  have hroots : (roots.map fun root => ConfineOption.root (toStringLossy root)).flatMap ConfineOption.words =
      roots.flatMap fun root => ["--root", toStringLossy root] := by
    rw [List.flatMap_map]
    rfl
  rw [buildConfineHelperArgv, confineOptions, List.flatMap_append, List.flatMap_append, List.flatMap_append, ← hroots]
  cases landlock <;> cases seccomp <;> cases mode <;> rfl

theorem toStringLossy_ne_empty {path : OsPath} (h : path ≠ []) : toStringLossy path ≠ "" := fun hempty =>
  h (Utf8.decode_eq_nil.mp (by simpa [toStringLossy] using hempty))

section roots

variable (roots : List OsPath)

theorem filterMap_required?_roots :
    (roots.map fun root => ConfineOption.root (toStringLossy root)).filterMap ConfineOption.required? = [] :=
  List.filterMap_eq_nil_iff.mpr fun _ h => by
    obtain ⟨root, -, rfl⟩ := List.mem_map.mp h
    rfl

theorem filterMap_root?_roots :
    (roots.map fun root => ConfineOption.root (toStringLossy root)).filterMap ConfineOption.root? =
      roots.map asArgument := by
  rw [List.filterMap_map, ← List.filterMap_eq_map]
  rfl

theorem count_roots (option : ConfineOption) (h : ∀ path, option ≠ .root path) :
    (roots.map fun root => ConfineOption.root (toStringLossy root)).count option = 0 :=
  List.count_eq_zero.mpr fun hmem => by
    obtain ⟨root, -, hroot⟩ := List.mem_map.mp hmem
    exact h _ hroot.symm

end roots

theorem says_confineOptions {mode : SandboxMode} {landlock seccomp : Bool} {roots : List OsPath} {checkCmd : List String}
    (hroots : ∀ root ∈ roots, root ≠ []) (hcheck : checkCmd ≠ []) :
    ConfineSpec.Says ⟨mode == .required, landlock, seccomp, if landlock then roots.map asArgument else [], checkCmd⟩
      (confineOptions mode landlock seccomp roots) := by
  have hempty : ConfineOption.root "" ∉ roots.map fun root => ConfineOption.root (toStringLossy root) := by
    intro h
    obtain ⟨root, hroot, h⟩ := List.mem_map.mp h
    exact toStringLossy_ne_empty (hroots root hroot) (ConfineOption.root.inj h)
  have hlandlock := count_roots roots .landlock fun _ h => nomatch h
  have hseccomp := count_roots roots .seccomp fun _ h => nomatch h
  refine ⟨?_, ?_, ?_, ?_, ?_, hcheck⟩
  · have hmode := congrArg ((mode == .required) :: ·) (filterMap_required?_roots roots)
    cases landlock <;> cases seccomp
    · rfl
    · rfl
    · exact hmode
    · exact hmode
  · cases landlock <;> cases seccomp <;> simp [confineOptions, hlandlock]
  · cases landlock <;> cases seccomp <;> simp [confineOptions, hseccomp]
  · have hroot := filterMap_root?_roots roots
    cases landlock <;> cases seccomp
    · rfl
    · rfl
    · exact hroot
    · exact hroot
  · cases landlock <;> cases seccomp
    · simp [confineOptions]
    · simp [confineOptions]
    · simpa [confineOptions] using hempty
    · simpa [confineOptions] using hempty

/-- All that `bwrapDecide` can wrap. -/
theorem args_of_bwrapDecide {isFile : String → Bool} {canonicalize : OsPath → Option OsPath} {config : SandboxConfig}
    {cwd : OsPath} {checkCmd : List String} {extraWritableRoots : List OsPath} {confineHelper : Option OsPath}
    {program : String} {args : List String}
    (h : bwrapDecide isFile canonicalize config cwd checkCmd extraWritableRoots confineHelper = .wrap program args) :
    ∃ command,
      args = bwrapArgs (canonicalWritableRoots canonicalize cwd extraWritableRoots) cwd command config.allowNetwork ∧
      ((config.landlock || config.seccomp) = false ∨ confineHelper = none → command = checkCmd) ∧
      ∀ nv, (config.landlock || config.seccomp) = true → confineHelper = some nv →
        command = buildConfineHelperArgv nv config.mode config.landlock config.seccomp
          (canonicalWritableRoots canonicalize cwd extraWritableRoots) checkCmd := by
  rw [bwrapDecide] at h
  split at h
  · cases hmode : config.mode <;> simp [hmode, noBackendDecide] at h
  · cases confineHelper with
    | some nv =>
      dsimp only at h
      split_ifs at h with hlayers
      · cases h
        exact ⟨_, rfl, fun h => by simp [hlayers] at h, fun _ _ h => Option.some.inj h ▸ rfl⟩
      · cases h
        exact ⟨_, rfl, fun _ => rfl, fun _ h => absurd h hlayers⟩
    | none =>
      dsimp only at h
      split_ifs at h
      all_goals
        cases h
        exact ⟨_, rfl, fun _ => rfl, fun _ _ h => nomatch h⟩

/-- The tails of `parse_confine_args` as its comment writes them down: the mode, then the layers, then the roots. -/
def WrittenTail (tail : List String) : Prop :=
  ∃ (required landlock seccomp : Bool) (roots checkCmd : List String), "" ∉ roots ∧ checkCmd ≠ [] ∧
    tail = ["--mode", if required then "required" else "auto"] ++ (if landlock then ["--landlock"] else []) ++
      (if seccomp then ["--seccomp"] else []) ++ (roots.flatMap fun root => ["--root", root]) ++ "--" :: checkCmd

/-- **What was asked is what is read.** The words of `bwrap` are read as the host mounted read-only with the roots bound
over it, no network but where it is allowed, and the check, or the helper. Its own words are read as the mode and the
layers that were asked for, with the roots for Landlock, and the check. The helper reads options in any order, up to the
`--`, and nothing else. -/
theorem bwrapDecide_reads (grammar : BwrapGrammar) (isFile : String → Bool) (canonicalize : OsPath → Option OsPath)
    (config : SandboxConfig) (cwd : OsPath) (checkCmd : List String) (extraWritableRoots : List OsPath)
    (confineHelper : Option OsPath) (hcheck : checkCmd ≠ [])
    (hroots : ∀ root ∈ canonicalWritableRoots canonicalize cwd extraWritableRoots, root ≠ []) {program : String}
    {args : List String}
    (hwrap : bwrapDecide isFile canonicalize config cwd checkCmd extraWritableRoots confineHelper = .wrap program args) :
    (∃ command,
      grammar.read args =
        some (checkJail (canonicalWritableRoots canonicalize cwd extraWritableRoots) cwd config.allowNetwork, command) ∧
      ((config.landlock || config.seccomp) = false ∨ confineHelper = none → command = checkCmd) ∧
      ∀ nv, (config.landlock || config.seccomp) = true → confineHelper = some nv →
        ∃ tail, command = toStringLossy nv :: confineHelperToken :: tail ∧
          parseConfineArgs tail = some
            { required := config.mode == .required
              landlock := config.landlock
              seccomp := config.seccomp
              roots := if config.landlock then
                (canonicalWritableRoots canonicalize cwd extraWritableRoots).map asArgument else []
              checkCmd := checkCmd }) ∧
    (∀ path, (∃ s, path = pathOfText s) → asArgument path = path) ∧
    ∀ tail spec, parseConfineArgs tail = some spec ↔
      ∃ options, spec.Says options ∧ tail = options.flatMap ConfineOption.words ++ "--" :: spec.checkCmd := by
  refine ⟨?_, fun path => asArgument_of_utf8, fun tail spec => parseConfineArgs_eq_some⟩
  obtain ⟨command, rfl, hplain, hspliced⟩ := args_of_bwrapDecide hwrap
  refine ⟨command, read_bwrapArgs _ _ _ _ _, hplain, fun nv hlayers hnv => ?_⟩
  rw [hspliced nv hlayers hnv, buildConfineHelperArgv_eq]
  exact ⟨_, rfl, parseConfineArgs_eq_some.mpr ⟨_, says_confineOptions hroots hcheck, rfl⟩⟩

/-- The options that are used here, and no more. -/
def usedOptions : BwrapGrammar where
  arity name := [("--ro-bind", 2), ("--bind", 2), ("--proc", 1), ("--dev", 1), ("--chdir", 1), ("--die-with-parent", 0),
    ("--unshare-net", 0)].lookup name
  ro_bind := rfl
  bind := rfl
  proc := rfl
  dev := rfl
  chdir := rfl
  die_with_parent := rfl
  unshare_net := rfl

theorem bwrapDecide_reads_layers :
    ∃ command,
      usedOptions.read (bwrapArgs [[47], [45, 45]] [47]
        (buildConfineHelperArgv [47] .required true true [[47], [45, 45]] ["--", "__nv-confine"]) false) =
        some (checkJail [[47], [45, 45]] [47] false, command) ∧
      ∃ tail, command = toStringLossy [47] :: confineHelperToken :: tail ∧
        parseConfineArgs tail =
          some ⟨true, true, true, [[47], [45, 45]].map asArgument, ["--", "__nv-confine"]⟩ := by
  obtain ⟨⟨command, hread, -, hspliced⟩, -⟩ := bwrapDecide_reads usedOptions (fun _ => true) some
    ⟨.required, false, true, true⟩ [47] ["--", "__nv-confine"] [[45, 45]] (some [47]) (List.cons_ne_nil _ _) (by decide) rfl
  exact ⟨command, hread, hspliced [47] rfl rfl⟩

/-- The helper reads layers in front of the mode, too. It refuses the root that a directory without a name is. -/
theorem any_order_is_read :
    ¬(∀ tail, (parseConfineArgs tail).isSome ↔ WrittenTail tail) ∧
    ∃ tail, bwrapDecide (fun _ => true) (fun _ => none) ⟨.required, false, true, false⟩ [] ["true"] [] (some [47]) =
        .wrap "/usr/bin/bwrap" (bwrapArgs [[]] [] (toStringLossy [47] :: confineHelperToken :: tail) false) ∧
      parseConfineArgs tail = none := by
  refine ⟨fun h => ?_, _, rfl, by decide⟩
  obtain ⟨required, landlock, seccomp, roots, checkCmd, -, -, htail⟩ :=
    (h ["--landlock", "--mode", "auto", "--", "true"]).mp (by decide)
  simp at htail

end Nerve.Sandbox
