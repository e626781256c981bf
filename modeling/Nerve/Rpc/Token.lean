import Nerve.Library.JsonWrite
import Nerve.Library.TransitionSystem

/-!
# The bearer token on disk

How `RpcBus::new` and `rotate_token` keep the token in a file on Unix, operation by operation. A fresh token is
written into a staging file beside the token's path, which gets the mode `0600` and is then renamed; the file
system decides about the mode of a new staging file by what the call asks for and the umask, and leaves
an existing one its mode. An existing token is used as it is found, whatever the mode of its file.

Where no file with a wider mode stands at the staging path, nothing on the way gives the token
away (`guarded_always`), so that only what is in the file at the token's path before the call matters
(`token_kept`).
-/

namespace Nerve.Rpc

open Text Utf8 TransitionSystem

/-! ### Files -/

structure File where
  mode : Nat
  content : List UInt8
  deriving DecidableEq, Repr

/-- The mode grants something to the group or to others. -/
def File.Wide (f : File) : Prop := f.mode &&& 0o077 ≠ 0

instance (f : File) : Decidable f.Wide := inferInstanceAs (Decidable (_ ≠ _))

/-- What is at the token's path and at its staging path. -/
structure Files where
  token : Option File
  staging : Option File
  deriving DecidableEq, Repr

/-- Others can read the octets of the token in the file. -/
def HeldOpenly (file : Option File) (token : List Char) : Prop :=
  ∃ f ∈ file, f.Wide ∧ encode token <:+: f.content

def Files.Exposes (files : Files) (token : List Char) : Prop :=
  HeldOpenly files.token token ∨ HeldOpenly files.staging token

/-! ### Operations -/

/-- `set_permissions` is the one to the mode `0600`. -/
inductive Op where
  | ensureParentDir
  | readToString
  | openStaging
  | write (b : UInt8)
  | syncAll
  | setPermissions
  | rename
  deriving DecidableEq, Repr

/-- `open` with `O_CREAT | O_TRUNC` and the mode `0600`. -/
def openTruncated (umask : Nat) : Option File → File
  | some f => { f with content := [] }
  | none => ⟨0o600 &&& (0o777 ^^^ umask), []⟩

def Op.apply (umask : Nat) (files : Files) : Op → Files
  | .openStaging => { files with staging := some (openTruncated umask files.staging) }
  | .write b => { files with staging := files.staging.map fun f => { f with content := f.content ++ [b] } }
  | .setPermissions => { files with staging := files.staging.map fun f => { f with mode := 0o600 } }
  | .rename =>
    match files.staging with
    | some f => ⟨some f, none⟩
    | none => files
  | _ => files

section apply

variable (umask : Nat) (files : Files)

theorem apply_openStaging :
    Op.apply umask files .openStaging = { files with staging := some (openTruncated umask files.staging) } := rfl

theorem apply_write (b : UInt8) :
    Op.apply umask files (.write b) =
      { files with staging := files.staging.map fun f => { f with content := f.content ++ [b] } } := rfl

theorem apply_rename :
    Op.apply umask files .rename =
      match files.staging with
      | some f => ⟨some f, none⟩
      | none => files := rfl

end apply

/-- An operation that succeeds. -/
def step (umask : Nat) (files : Files) (op : Op) : Option Files := some (op.apply umask files)

/-! ### The calls -/

inductive RpcError where
  | tokenIo
  | invalidConfig (message : String)
  deriving DecidableEq, Repr

structure RpcConfig where
  perConsumerQueue : Nat
  payloadCapKib : Nat
  tokenSizeBytes : Nat

/-- `RpcConfig::validate`, with the error's text. -/
def RpcConfig.validate (config : RpcConfig) : Except String Unit := do
  if config.perConsumerQueue = 0 then throw "daemon.rpc.per_consumer_queue must be greater than 0"
  if config.payloadCapKib = 0 then throw "daemon.rpc.payload_cap_kib must be greater than 0"
  if config.tokenSizeBytes = 0 then throw "daemon.rpc.token_size_bytes must be greater than 0"

/-- What a call meets: the umask, what `fill_bytes` draws, and the operation the system refuses, if any. -/
structure World where
  umask : Nat
  random : Nat → UInt8
  refused : Option Nat

/-- The operations that a call has done, and what it returns. -/
structure Outcome where
  ops : List Op
  result : Except RpcError (List Char)

/-- `hex_encode`. -/
def hexEncode (bytes : List UInt8) : List Char :=
  bytes.flatMap fun b => [Json.hexOf (b.toNat / 16), Json.hexOf (b.toNat % 16)]

/-- `generate_token_hex`. -/
def generateTokenHex (world : World) (sizeBytes : Nat) : Except RpcError (List Char) :=
  if sizeBytes = 0 then .error (.invalidConfig "token_size_bytes must be greater than zero")
  else .ok (hexEncode ((List.range sizeBytes).map world.random))

/-- `atomic_write_token` on Unix. -/
def atomicWriteToken (token : List Char) : List Op :=
  [.openStaging] ++ (encode token).map .write ++ [.syncAll, .setPermissions, .rename]

/-- The operations one after the other, up to the one that is refused. -/
def perform (world : World) (ops : List Op) (token : List Char) : Outcome :=
  match world.refused with
  | some k => if k < ops.length then ⟨ops.take k, .error .tokenIo⟩ else ⟨ops, .ok token⟩
  | none => ⟨ops, .ok token⟩

/-- A fresh token, written after the operations before. -/
def writeFresh (world : World) (sizeBytes : Nat) (before : List Op) : Outcome :=
  match generateTokenHex world sizeBytes with
  | .error e => ⟨before, .error e⟩
  | .ok token => perform world (before ++ atomicWriteToken token) token

/-- `existing_token_is_trusted` on Unix. -/
def existingTokenIsTrusted (_path : Option File) : Bool := true

/-- What `read_to_string` reads, where the octets are UTF-8. -/
def readToString (content : List UInt8) : Option (List Char) :=
  if encode (decode content) = content then some (decode content) else none

/-- `read_or_create_token`. -/
def readOrCreateToken (world : World) (files : Files) (sizeBytes : Nat) : Outcome :=
  let before := [.ensureParentDir, .readToString]
  match files.token with
  | none => writeFresh world sizeBytes before
  | some file =>
    match readToString file.content with
    | none => ⟨before, .error .tokenIo⟩
    | some existing =>
      let trimmed := trim existing
      if trimmed.isEmpty || !existingTokenIsTrusted files.token then writeFresh world sizeBytes before
      else perform world before trimmed

inductive Call where
  | new (config : RpcConfig)
  | rotateToken (config : RpcConfig) (bearerToken : List Char)

/-- `RpcBus::new` and `RpcBus::rotate_token`, as far as the token goes. -/
def Call.outcome (world : World) (files : Files) : Call → Outcome
  | .new config =>
    match config.validate with
    | .error message => ⟨[], .error (.invalidConfig message)⟩
    | .ok () => readOrCreateToken world files config.tokenSizeBytes
  | .rotateToken config _ => writeFresh world config.tokenSizeBytes [.ensureParentDir]

/-- The token that `new` finds and uses. -/
def reusedToken (files : Files) : Option (List Char) := do
  let file ← files.token
  let existing ← readToString file.content
  if (trim existing).isEmpty then none else some (trim existing)

/-- The call uses a token that it has not written. -/
def Call.Reuses (files : Files) : Call → Prop
  | .new _ => (reusedToken files).isSome
  | .rotateToken _ _ => False

/-- The token that is in use before the call. -/
def Call.inUse : Call → Option (List Char)
  | .new _ => none
  | .rotateToken _ bearerToken => some bearerToken

/-- In every state on the way no file gives the token away. -/
def Kept (world : World) (files : Files) (call : Call) (token : List Char) : Prop :=
  Always (step world.umask) (fun files => ¬files.Exposes token) files (call.outcome world files).ops

/-- The files after the call. -/
def Leaves (world : World) (files : Files) (call : Call) (after : Files) : Prop :=
  run (step world.umask) files (call.outcome world files).ops = some after

/-! ### What every operation keeps -/

/-- The staging file is narrow, and the file at the token's path is, or it is the one of the beginning. -/
structure Guarded (old : Option File) (files : Files) : Prop where
  staging : ∀ f ∈ files.staging, ¬f.Wide
  token : files.token = old ∨ ∀ f ∈ files.token, ¬f.Wide

section guarded

variable {old : Option File} {files : Files} {umask : Nat} {token : List Char}

theorem not_wide_openTruncated {staging : Option File} (h : ∀ f ∈ staging, ¬f.Wide) :
    ¬(openTruncated umask staging).Wide := by
  cases staging with
  | some f => exact h f rfl
  | none =>
    rw [openTruncated, File.Wide, not_not, Nat.and_comm 0o600, Nat.and_assoc]
    exact Nat.and_zero _

theorem Guarded.apply (h : Guarded old files) (op : Op) : Guarded old (op.apply umask files) := by
  cases op with
  | ensureParentDir => exact h
  | readToString => exact h
  | syncAll => exact h
  | openStaging =>
    refine ⟨fun f hf => ?_, h.token⟩
    rw [← Option.some.inj hf]
    exact not_wide_openTruncated h.staging
  | write b =>
    refine ⟨fun f hf => ?_, h.token⟩
    obtain ⟨g, hg, rfl⟩ := Option.map_eq_some_iff.mp hf
    exact h.staging g hg
  | setPermissions =>
    refine ⟨fun f hf => ?_, h.token⟩
    obtain ⟨g, -, rfl⟩ := Option.map_eq_some_iff.mp hf
    exact fun hwide => absurd (by decide : 0o600 &&& 0o077 = 0) hwide
  | rename =>
    rw [apply_rename]
    split
    · rename_i f hf
      refine ⟨fun g hg => (nomatch hg), .inr fun g hg => ?_⟩
      rw [← Option.some.inj hg]
      exact h.staging f hf
    · exact h

theorem guarded_always (h : Guarded old files) (ops : List Op) : Always (step umask) (Guarded old) files ops :=
  always_of_meets (C := fun _ _ => True)
    (fun _ op _ hs _ ht => Option.some.inj ht ▸ hs.apply op) h (meets_of_forall (fun _ _ => trivial) _ _)

theorem Guarded.not_exposes (h : Guarded old files) (hold : ¬HeldOpenly old token) : ¬files.Exposes token := by
  rintro (⟨f, hf, hwide, hin⟩ | ⟨f, hf, hwide, -⟩)
  · obtain heq | hnarrow := h.token
    · exact hold ⟨f, heq ▸ hf, hwide, hin⟩
    · exact hnarrow f hf hwide
  · exact h.staging f hf hwide

theorem guarded_of_narrow (h : ∀ f ∈ files.staging, ¬f.Wide) : Guarded files.token files := ⟨h, .inl rfl⟩

/-- Of what is kept on the way, only the file at the token's path matters. -/
theorem always_not_exposes_iff (h : ∀ f ∈ files.staging, ¬f.Wide) (ops : List Op) :
    Always (step umask) (fun files => ¬files.Exposes token) files ops ↔ ¬HeldOpenly files.token token := by
  constructor
  · exact fun halways hheld => halways.head (.inl hheld)
  · intro hold
    exact (guarded_always (guarded_of_narrow h) ops).mono fun _ hs => hs.not_exposes hold

end guarded

/-! ### What is written -/

theorem run_write {umask : Nat} {files : Files} {f : File} (hf : files.staging = some f) (bs : List UInt8) :
    run (step umask) files (bs.map .write) =
      some { files with staging := some { f with content := f.content ++ bs } } := by
  induction bs generalizing files f with
  | nil =>
    rw [List.append_nil, ← hf]
    rfl
  | cons b bs ih =>
    have hnext : (Op.apply umask files (.write b)).staging = some { f with content := f.content ++ [b] } := by
      rw [apply_write, hf]
      rfl
    rw [List.map_cons, run, step, Option.bind_some, ih hnext]
    simp only [apply_write, List.append_assoc, List.singleton_append]

theorem run_atomicWriteToken {umask : Nat} (files : Files) (token : List Char) :
    run (step umask) files (atomicWriteToken token) = some ⟨some ⟨0o600, encode token⟩, none⟩ := by
  have hopened : ({ files with staging := some (openTruncated umask files.staging) } : Files).staging = _ := rfl
  have hwrite := @run_write umask _ _ hopened (encode token)
  have hempty : (openTruncated umask files.staging).content = [] := by
    cases files.staging <;> rfl
  rw [atomicWriteToken, List.append_assoc, List.singleton_append, run, step, Option.bind_some, run_append,
    apply_openStaging,
    hwrite, hempty]
  rfl

/-! ### What the calls do -/

section calls

variable {world : World} {files : Files} {token t : List Char}

theorem perform_ok {ops : List Op} (h : (perform world ops token).result = .ok t) :
    (perform world ops token).ops = ops ∧ token = t := by
  rw [perform] at h ⊢
  split at h
  · split_ifs at h ⊢ with hk
    exact ⟨rfl, Except.ok.inj h⟩
  · exact ⟨rfl, Except.ok.inj h⟩

/-- The token is one that was drawn for the call, of a byte at least. -/
def Drawn (world : World) (token : List Char) : Prop :=
  ∃ sizeBytes, sizeBytes ≠ 0 ∧ token = hexEncode ((List.range sizeBytes).map world.random)

theorem writeFresh_ok {sizeBytes : Nat} {before : List Op} (h : (writeFresh world sizeBytes before).result = .ok t) :
    (writeFresh world sizeBytes before).ops = before ++ atomicWriteToken t ∧ Drawn world t := by
  rw [writeFresh, generateTokenHex] at h ⊢
  by_cases hsize : sizeBytes = 0
  · rw [if_pos hsize] at h
    cases h
  · rw [if_neg hsize] at h ⊢
    obtain ⟨hops, rfl⟩ := perform_ok h
    exact ⟨hops, sizeBytes, hsize, rfl⟩

theorem readToString_eq_some {content : List UInt8} {existing : List Char} (h : readToString content = some existing) :
    content = encode existing := by
  rw [readToString] at h
  split_ifs at h with hvalid
  rw [← Option.some.inj h, hvalid]

/-- There is no file, or nothing but white space in it. -/
def NoToken (file : Option File) : Prop :=
  ∀ f ∈ file, ∃ existing, f.content = encode existing ∧ ∀ c ∈ existing, isWhitespace c = true

theorem readOrCreateToken_ok {sizeBytes : Nat} (h : (readOrCreateToken world files sizeBytes).result = .ok t) :
    reusedToken files = some t ∧ (readOrCreateToken world files sizeBytes).ops = [.ensureParentDir, .readToString] ∨
    reusedToken files = none ∧ NoToken files.token ∧ Drawn world t ∧
      (readOrCreateToken world files sizeBytes).ops = [.ensureParentDir, .readToString] ++ atomicWriteToken t := by
  simp only [readOrCreateToken, reusedToken] at h ⊢
  cases hfile : files.token with
  | none =>
    rw [hfile] at h
    obtain ⟨hops, hdrawn⟩ := writeFresh_ok h
    exact .inr ⟨rfl, fun f hf => (nomatch hf), hdrawn, hops⟩
  | some file =>
    rw [hfile] at h
    cases hread : readToString file.content with
    | none =>
      simp only [hread] at h
      cases h
    | some existing =>
      simp only [hread, existingTokenIsTrusted, Bool.not_true, Bool.or_false] at h ⊢
      split_ifs at h ⊢ with hblank
      · obtain ⟨hops, hdrawn⟩ := writeFresh_ok h
        refine .inr ⟨by simpa [hread] using hblank, fun f hf => ?_, hdrawn, hops⟩
        rw [← Option.some.inj hf]
        exact ⟨existing, readToString_eq_some hread, blank_of_trim (List.isEmpty_iff.mp hblank)⟩
      · obtain ⟨hops, rfl⟩ := perform_ok h
        exact .inl ⟨by simpa [hread] using hblank, hops⟩

/-- A call that returns a token has found it, or has written it. -/
theorem outcome_ok {call : Call} (h : (call.outcome world files).result = .ok t) :
    call.Reuses files ∧ reusedToken files = some t ∧ (call.outcome world files).ops = [.ensureParentDir, .readToString] ∨
    ¬call.Reuses files ∧ Drawn world t ∧ (call.inUse = none → NoToken files.token) ∧
      ∃ before, run (step world.umask) files before = some files ∧
        (call.outcome world files).ops = before ++ atomicWriteToken t := by
  cases call with
  | rotateToken config bearerToken =>
    obtain ⟨hops, hdrawn⟩ := writeFresh_ok h
    exact .inr ⟨not_false, hdrawn, fun hnone => (nomatch hnone), [.ensureParentDir], rfl, hops⟩
  | new config =>
    cases hvalid : config.validate with
    | error message =>
      simp only [Call.outcome, hvalid] at h
      cases h
    | ok valid =>
      simp only [Call.outcome, hvalid] at h ⊢
      obtain ⟨hfound, hops⟩ | ⟨hnone, hblank, hdrawn, hops⟩ := readOrCreateToken_ok h
      · exact .inl ⟨by rw [Call.Reuses, hfound]; rfl, hfound, hops⟩
      · refine .inr ⟨?_, hdrawn, fun _ => hblank, _, rfl, hops⟩
        rw [Call.Reuses, hnone]
        exact Bool.false_ne_true

theorem encode_infix {u v : List Char} (h : u <:+: v) : encode u <:+: encode v := by
  obtain ⟨before, after, rfl⟩ := h
  rw [encode_append, encode_append]
  exact ⟨_, _, rfl⟩

theorem trim_infix_self (u : List Char) : trim u <:+: u := by
  have hend : trimEnd (trimStart u) <+: trimStart u := by
    rw [trimEnd, ← List.reverse_suffix, List.reverse_reverse]
    exact List.dropWhile_suffix _
  exact hend.isInfix.trans (List.dropWhile_suffix _).isInfix

/-- A token that is found is in the file. -/
theorem heldOpenly_reused (h : reusedToken files = some t) : HeldOpenly files.token t ↔ ∃ f ∈ files.token, f.Wide := by
  obtain ⟨file, hfile, h⟩ := Option.bind_eq_some_iff.mp h
  obtain ⟨existing, hread, h⟩ := Option.bind_eq_some_iff.mp h
  split_ifs at h
  refine ⟨fun ⟨f, hf, hwide, _⟩ => ⟨f, hf, hwide⟩, fun ⟨f, hf, hwide⟩ => ⟨f, hf, hwide, ?_⟩⟩
  have heq : f = file := Option.some.inj (hf.symm.trans hfile)
  rw [heq, readToString_eq_some hread, ← Option.some.inj h]
  exact encode_infix (trim_infix_self existing)

theorem encode_hexOf : ∀ n < 16,
    let b := UInt8.ofNat (Json.hexOf n).toNat
    String.utf8EncodeChar (Json.hexOf n) = [b] ∧ b.toNat < 0x80 ∧ isWhitespace (Char.ofNat b.toNat) = false := by
  decide

/-- A drawn token is not where there is none. -/
theorem not_heldOpenly_drawn (h : NoToken files.token) (hdrawn : Drawn world t) : ¬HeldOpenly files.token t := by
  rintro ⟨f, hf, -, hin⟩
  obtain ⟨existing, hcontent, hblank⟩ := h f hf
  obtain ⟨sizeBytes, hsize, rfl⟩ := hdrawn
  obtain ⟨size, rfl⟩ := Nat.exists_eq_succ_of_ne_zero hsize
  have hdigit : (world.random 0).toNat / 16 < 16 := by
    have := (world.random 0).toNat_lt
    omega
  obtain ⟨hb, hascii, hspace⟩ := encode_hexOf _ hdigit
  have hmem : UInt8.ofNat (Json.hexOf ((world.random 0).toNat / 16)).toNat ∈ encode existing := by
    refine hcontent ▸ hin.subset ?_
    rw [List.range_succ_eq_map, List.map_cons, hexEncode, List.flatMap_cons, List.cons_append, encode_cons, hb]
    exact List.mem_cons_self
  obtain ⟨c, hc, hb⟩ := List.mem_flatMap.mp hmem
  obtain rfl | hlarge := le_of_mem_encodeChar hb
  · exact absurd (hblank _ hc) (by rw [hspace]; exact Bool.false_ne_true)
  · omega

end calls

/-- Where no wider file is at the staging path. A call that uses the token it finds changes no file, and what it
finds is open to others if the file is. A call that writes a token leaves it in a file with the mode `0600`, and
on the way no other file has it; `new` writes one only where there is none. -/
theorem token_kept {world : World} {files : Files} {call : Call} {token : List Char}
    (hstaging : ∀ f ∈ files.staging, ¬f.Wide) (hok : (call.outcome world files).result = .ok token) :
    (call.Reuses files → Leaves world files call files ∧
      (Kept world files call token ↔ ∀ f ∈ files.token, ¬f.Wide)) ∧
    (¬call.Reuses files → Leaves world files call ⟨some ⟨0o600, encode token⟩, none⟩ ∧
      (call.inUse = none → Kept world files call token) ∧
      ∀ u, u = token ∨ call.inUse = some u → (Kept world files call u ↔ ¬HeldOpenly files.token u)) := by
  obtain ⟨hreuses, hfound, hops⟩ | ⟨hfresh, hdrawn, hnone, before, hbefore, hops⟩ := outcome_ok hok
  · refine ⟨fun _ => ⟨?_, ?_⟩, absurd hreuses⟩
    · rw [Leaves, hops]
      rfl
    · rw [Kept, always_not_exposes_iff hstaging, heldOpenly_reused hfound]
      simp only [not_exists, not_and]
  · refine ⟨fun h => absurd h hfresh, fun _ => ⟨?_, fun hnew => ?_, fun u _ => always_not_exposes_iff hstaging _⟩⟩
    · rw [Leaves, hops, run_append, hbefore]
      exact run_atomicWriteToken files token
    · exact (always_not_exposes_iff hstaging _).mpr (not_heldOpenly_drawn (hnone hnew) hdrawn)

section runs

/-- The default configuration. -/
def defaultConfig : RpcConfig := ⟨1024, 64, 32⟩

/-- The usual umask, and a generator that draws zeros. -/
def usualWorld : World := ⟨0o022, fun _ => 0, none⟩

/-- A token in a file that everyone can read. -/
def readableToken : Files := ⟨some ⟨0o644, encode ['a', 'b']⟩, none⟩

theorem token_kept_new :
    (∀ f ∈ (⟨none, none⟩ : Files).staging, ¬f.Wide) ∧
    ((Call.new defaultConfig).outcome usualWorld ⟨none, none⟩).result = .ok (List.replicate 64 '0') ∧
    Kept usualWorld ⟨none, none⟩ (.new defaultConfig) (List.replicate 64 '0') := by
  have hstaging : ∀ f ∈ (⟨none, none⟩ : Files).staging, ¬f.Wide := fun f hf => nomatch hf
  have hok : ((Call.new defaultConfig).outcome usualWorld ⟨none, none⟩).result = .ok (List.replicate 64 '0') := rfl
  exact ⟨hstaging, hok, ((token_kept hstaging hok).2 Bool.false_ne_true).2.1 rfl⟩

/-- `new` uses the token, and everyone has it. -/
theorem readable_token_is_reused :
    ¬ ∀ (world : World) (files : Files) (call : Call) (token : List Char),
      (call.outcome world files).result = .ok token → Kept world files call token := by
  intro h
  have hok : ((Call.new defaultConfig).outcome usualWorld readableToken).result = .ok ['a', 'b'] := rfl
  exact (h usualWorld readableToken (.new defaultConfig) ['a', 'b'] hok).head
    (.inl ⟨_, rfl, by decide, List.infix_refl _⟩)

end runs

end Nerve.Rpc
