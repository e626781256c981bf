import Nerve.Library.FileTree
import Mathlib.Data.List.Basic

/-!
# Patches and the tree they change

The patch model of `nerve-patch`: a patch is a list of file entries, each of which
modifies, creates, deletes or renames a file, and carries the text it expects and
the text it leaves, with their hashes. `apply` validates every entry against the
tree as it stands, takes a snapshot of every path named, does the entries in order, and on
a failure puts the snapshots back in reverse; `rollback` validates the other way
round and undoes the entries, in the same order.

The working directory is the root of the tree, and the tree has no links. The
temporary file a write goes through is a fresh sibling of its target and is gone
when the write ends either way, so a write is the rename at its end. A path that
ends in a separator or in `.` asks for a directory, and the system finds no file under it
(`fsRead`, `fsRename`, `fsRemoveFile`, the system being Linux). What it refuses, it refuses for
what stands in the tree: names are such as it takes, and space and permissions are there. SHA-256
is a parameter, `sha256Hex`.
-/

namespace Nerve.Patch

open Nerve.FileTree

/-- The working directory: files hold bytes. -/
abbrev FsTree := Tree String ByteArray

/-! ### Paths -/

/-- `std::path::Component` on Unix. -/
inductive Component where
  | rootDir
  | curDir
  | parentDir
  | normal (name : String)
  deriving DecidableEq, Repr

/-- A path, as its text. -/
structure PathBuf where
  text : String
  deriving DecidableEq, Repr

/-- A piece between separators, after the first: empty pieces and `.` are skipped. -/
def component : List Char → Option Component
  | [] => none
  | ['.'] => none
  | ['.', '.'] => some .parentDir
  | name => some (.normal (String.ofList name))

/-- `Path::components`: a leading separator is the root, a leading `.` is kept. -/
def PathBuf.components (p : PathBuf) : List Component :=
  match p.text.toList.splitOn '/' with
  | [] | [[]] => []
  | [] :: rest => .rootDir :: rest.filterMap component
  | ['.'] :: rest => .curDir :: rest.filterMap component
  | pieces => pieces.filterMap component

/-- The location a relative path names in the tree. -/
def PathBuf.loc (p : PathBuf) : Loc String :=
  p.components.filterMap fun
    | .normal name => some name
    | _ => none

/-- The text ends in a separator or in `.`, which asks for a directory. -/
def PathBuf.endsInDir (p : PathBuf) : Bool :=
  match (p.text.toList.splitOn '/').getLast? with
  | some piece => (component piece).isNone
  | none => false

/-- The last piece with text in it is `.`, as in `a/.` and `a/./`. -/
def PathBuf.endsInDot (p : PathBuf) : Bool :=
  ((p.text.toList.splitOn '/').reverse.dropWhile List.isEmpty).head? == some ['.']

/-- `==` of paths: that of their components. -/
def PathBuf.same (p q : PathBuf) : Bool := p.components == q.components

/-- `Path::parent`, up to spelling. -/
def PathBuf.parent (p : PathBuf) : PathBuf := ⟨"/".intercalate p.loc.dropLast⟩

/-! ### Errors -/

/-- The operating system's words for a failure. -/
def ioErrorText : IoErrorKind → String
  | .notFound => "No such file or directory (os error 2)"
  | .notADirectory => "Not a directory (os error 20)"
  | .isADirectory => "Is a directory (os error 21)"
  | .alreadyExists => "File exists (os error 17)"
  | .resourceBusy => "Device or resource busy (os error 16)"

inductive PatchError where
  | hashMismatch (path : PathBuf) (expected actual : String)
  | io (path : PathBuf) (source : IoErrorKind)
  | invalidUnifiedDiff (message : String)
  | unsafePath (path : PathBuf) (reason : String)
  | forbiddenPath (path : PathBuf) (under : String)
  | unsupported (message : String)
  | invalidOperationState (path : PathBuf) (message : String)
  | rollbackFailed (applyError rollbackError : String)
  deriving DecidableEq, Repr

/-- The message of an error. -/
def PatchError.toText : PatchError → String
  | .hashMismatch path expected actual =>
    s!"patch target `{path.text}` changed: expected {expected}, got {actual}"
  | .io path source => s!"io error for `{path.text}`: {ioErrorText source}"
  | .invalidUnifiedDiff message => s!"invalid unified diff: {message}"
  | .unsafePath path reason => s!"unsafe patch path `{path.text}`: {reason}"
  | .forbiddenPath path under =>
    s!"forbidden patch path `{path.text}`: writes into `{under}` are not allowed"
  | .unsupported message => s!"unsupported patch operation: {message}"
  | .invalidOperationState path message => s!"invalid patch state for `{path.text}`: {message}"
  | .rollbackFailed applyError rollbackError =>
    s!"patch apply failed and automatic rollback failed: apply error: {applyError}; rollback error: {rollbackError}"

/-! ### Patches -/

inductive FileOperation where
  | modify
  | create
  | delete
  | rename (origin : PathBuf)
  deriving DecidableEq, Repr

structure FilePatch where
  path : PathBuf
  operation : FileOperation
  original : String
  modified : String
  originalSha256 : String
  modifiedSha256 : String
  deriving DecidableEq, Repr

def FileOperation.same : FileOperation → FileOperation → Bool
  | .rename origin, .rename origin' => origin.same origin'
  | o, o' => o == o'

/-- `==` of entries. -/
def FilePatch.same (f g : FilePatch) : Bool :=
  f.path.same g.path && f.operation.same g.operation && f.original == g.original && f.modified == g.modified &&
    f.originalSha256 == g.originalSha256 && f.modifiedSha256 == g.modifiedSha256

structure NvPatch where
  id : String
  baseCommit : Option String
  files : List FilePatch
  deriving DecidableEq, Repr

structure ApplyReport where
  patchId : String
  changedFiles : List PathBuf
  dryRun : Bool
  deriving DecidableEq, Repr

/-- SHA-256 as far as the examples below go: the digests of the empty text and of one line, and every
other text under a mark. -/
def sampleSha256Hex (text : String) : String :=
  if text = "" then "e3b0c44298fc1c149afbf4c8996fb92427ae41e4649b934ca495991b7852b855"
  else if text = "text\n" then "b9e68e1bea3e5b19ca6b2f98b73a54b73daafaa250484902e09982e07a12e733"
  else "#" ++ text

theorem sampleSha256Hex_injective : Function.Injective sampleSha256Hex := by
  have hmark (digest text : String) (h : digest.toList.head? ≠ some '#') : "#" ++ text ≠ digest := by
    rintro rfl
    exact h (by simp)
  intro a b h
  unfold sampleSha256Hex at h
  split_ifs at h with ha hb hb' ha' hb hb' ha hb
  all_goals first
    | rw [ha, hb]
    | rw [ha', hb']
    | exact absurd h (by decide)
    | exact absurd h.symm (hmark _ _ (by decide))
    | exact absurd h (hmark _ _ (by decide))
    | exact String.toList_inj.mp (by simpa using congrArg String.toList h)

section Constructors

variable (sha256Hex : String → String)

def FilePatch.withOperation (path : PathBuf) (operation : FileOperation) (original modified : String) :
    FilePatch where
  path := path
  operation := operation
  original := original
  modified := modified
  originalSha256 := sha256Hex original
  modifiedSha256 := sha256Hex modified

def FilePatch.new (path : PathBuf) (original modified : String) : FilePatch :=
  withOperation sha256Hex path .modify original modified

def FilePatch.create (path : PathBuf) (modified : String) : FilePatch :=
  withOperation sha256Hex path .create "" modified

def FilePatch.delete (path : PathBuf) (original : String) : FilePatch :=
  withOperation sha256Hex path .delete original ""

def FilePatch.rename (origin target : PathBuf) (original modified : String) : FilePatch :=
  withOperation sha256Hex target (.rename origin) original modified

/-- An entry that came out of `new`, `create`, `delete` or `rename`. -/
inductive FilePatch.Built : FilePatch → Prop where
  | new (path : PathBuf) (original modified : String) : Built (FilePatch.new sha256Hex path original modified)
  | create (path : PathBuf) (modified : String) : Built (FilePatch.create sha256Hex path modified)
  | delete (path : PathBuf) (original : String) : Built (FilePatch.delete sha256Hex path original)
  | rename (origin target : PathBuf) (original modified : String) :
      Built (FilePatch.rename sha256Hex origin target original modified)

end Constructors

/-! ### Files -/

/-- What an operation gives, and the tree it leaves. -/
abbrev Outcome (α : Type) := Except PatchError α × FsTree

/-- `r?` and then `k`. -/
def Outcome.andThen (r : Outcome Unit) (k : FsTree → Outcome Unit) : Outcome Unit :=
  match r with
  | (.ok (), t) => k t
  | (.error e, t) => (.error e, t)

/-- `for x in xs { step(x)?; }`. -/
def forEach {α : Type} (step : α → FsTree → Outcome Unit) : List α → FsTree → Outcome Unit
  | [], t => (.ok (), t)
  | x :: xs, t => (step x t).andThen (forEach step xs)

/-- `fs::read`. -/
def fsRead (t : FsTree) (path : PathBuf) : Except IoErrorKind ByteArray :=
  match t.read path.loc with
  | .ok bytes => if path.endsInDir then .error .notADirectory else .ok bytes
  | .error kind => .error kind

/-- `fs::rename` of a finished temporary file, a sibling of the path, over the path. -/
def fsRename (value : ByteArray) (path : PathBuf) (t : FsTree) : Except IoErrorKind FsTree :=
  if !path.endsInDir then t.replace path.loc value
  else if !path.endsInDot then .error .notADirectory
  else
    -- the entry renamed over would be the `.` of what is at the path
    match t.read path.loc with
    | .ok _ => .error .notADirectory
    | .error .isADirectory => .error .resourceBusy
    | .error kind => .error kind

/-- `fs::remove_file`. -/
def fsRemoveFile (path : PathBuf) (t : FsTree) : Except IoErrorKind FsTree :=
  match t.unlink path.loc with
  | .ok t' => if path.endsInDir then .error .notADirectory else .ok t'
  | .error kind => .error kind

/-- A missing file reads as the empty text. -/
def readToString (t : FsTree) (relative : PathBuf) : Except PatchError String :=
  match fsRead t relative with
  | .ok bytes =>
    match String.fromUTF8? bytes with
    | some value => .ok value
    | none => .error (.unsupported
        s!"`{relative.text}` is not valid UTF-8 text; binary files and binary diffs are not supported")
  | .error .notFound => .ok ""
  | .error kind => .error (.io relative kind)

def readBytes (t : FsTree) (relative : PathBuf) : Except PatchError ByteArray :=
  match fsRead t relative with
  | .ok bytes => .ok bytes
  | .error .notFound => .ok ByteArray.empty
  | .error kind => .error (.io relative kind)

def writeBytes (relative : PathBuf) (value : ByteArray) (t : FsTree) : Outcome Unit :=
  match t.createDirAll relative.loc.dropLast with
  | .error kind => (.error (.io relative.parent kind), t)
  | .ok t₁ =>
    match fsRename value relative t₁ with
    | .error kind => (.error (.io relative kind), t₁)
    | .ok t₂ => (.ok (), t₂)

def writeString (relative : PathBuf) (value : String) (t : FsTree) : Outcome Unit :=
  writeBytes relative value.toByteArray t

/-- What is not there, or is below a file, counts as removed. -/
def removeFile (relative : PathBuf) (t : FsTree) : Outcome Unit :=
  match fsRemoveFile relative t with
  | .ok t' => (.ok (), t')
  | .error .notFound | .error .notADirectory => (.ok (), t)
  | .error kind => (.error (.io relative kind), t)

def targetExists (t : FsTree) (relative : PathBuf) : Bool :=
  if relative.endsInDir then t.isDir relative.loc else t.exists? relative.loc

/-- The lexical checks on a path. What follows them in the source, that the nearest
existing ancestor is still below the working directory once its links are
resolved, always holds in a tree without links. -/
def ensureSafeRelativePath (relative : PathBuf) : Except PatchError Unit :=
  if relative.text.isEmpty then .error (.unsafePath relative "empty path")
  else
    match relative.components.find? (fun c => c = .parentDir ∨ c = .rootDir) with
    | some .parentDir => .error (.unsafePath relative "parent directory components are not allowed")
    | some _ => .error (.unsafePath relative "absolute paths are not allowed")
    | none =>
      match relative.loc with
      | ".git" :: _ => .error (.forbiddenPath relative ".git/")
      | ".nerve" :: _ => .error (.forbiddenPath relative ".nerve/")
      | _ => .ok ()

/-! ### One entry -/

namespace FilePatch

def validationPath (f : FilePatch) (rollback : Bool) : PathBuf :=
  match f.operation, rollback with
  | .rename origin, false => origin
  | _, _ => f.path

def changedPaths (f : FilePatch) : List PathBuf :=
  match f.operation with
  | .rename origin => [origin, f.path]
  | _ => [f.path]

/-- The entry changes nothing: identical content and not a rename. -/
def isNoop (f : FilePatch) : Bool :=
  f.original == f.modified &&
    match f.operation with
    | .rename _ => false
    | _ => true

def validateOperationState (f : FilePatch) (t : FsTree) (rollback : Bool) : Except PatchError Unit :=
  match f.operation, rollback with
  | .create, false =>
    if targetExists t f.path then .error (.invalidOperationState f.path "create target already exists")
    else .ok ()
  | .delete, false =>
    if !targetExists t f.path then .error (.invalidOperationState f.path "delete target does not exist")
    else .ok ()
  | .rename origin, false =>
    if !targetExists t origin then .error (.invalidOperationState origin "rename source does not exist")
    else if targetExists t f.path then
      .error (.invalidOperationState f.path "rename target already exists")
    else .ok ()
  | .rename origin, true =>
    if targetExists t origin then
      .error (.invalidOperationState origin "rename rollback source already exists")
    else .ok ()
  | _, _ => .ok ()

/-- The paths of the entry are safe ones: its own, and the source of a rename. -/
def ensureSafe (f : FilePatch) : Except PatchError Unit :=
  match ensureSafeRelativePath f.path with
  | .error e => .error e
  | .ok () =>
    match f.operation with
    | .rename origin => ensureSafeRelativePath origin
    | _ => .ok ()

def validate (sha256Hex : String → String) (f : FilePatch) (t : FsTree) (rollback : Bool) :
    Except PatchError Unit :=
  match f.ensureSafe with
  | .error e => .error e
  | .ok () =>
    match f.validateOperationState t rollback with
    | .error e => .error e
    | .ok () =>
      let expected := if rollback then f.modifiedSha256 else f.originalSha256
      match readToString t (f.validationPath rollback) with
      | .error e => .error e
      | .ok current =>
        let actual := sha256Hex current
        if actual ≠ expected then .error (.hashMismatch (f.validationPath rollback) expected actual)
        else .ok ()

def apply (f : FilePatch) (t : FsTree) : Outcome Unit :=
  match f.operation with
  | .delete => removeFile f.path t
  | .rename origin => (writeString f.path f.modified t).andThen (removeFile origin)
  | .modify | .create => writeString f.path f.modified t

def rollback (f : FilePatch) (t : FsTree) : Outcome Unit :=
  match f.operation with
  | .create => removeFile f.path t
  | .rename origin => (writeString origin f.original t).andThen (removeFile f.path)
  | .modify | .delete => writeString f.path f.original t

end FilePatch

/-! ### Snapshots -/

inductive FileState where
  | present (value : ByteArray)
  | missing

structure FileSnapshot where
  path : PathBuf
  state : FileState

def FileSnapshot.capture (t : FsTree) (path : PathBuf) : Except PatchError FileSnapshot :=
  match ensureSafeRelativePath path with
  | .error e => .error e
  | .ok () =>
    if targetExists t path then
      match readBytes t path with
      | .error e => .error e
      | .ok value => .ok ⟨path, .present value⟩
    else .ok ⟨path, .missing⟩

def FileSnapshot.restore (s : FileSnapshot) (t : FsTree) : Outcome Unit :=
  match s.state with
  | .present value => writeBytes s.path value t
  | .missing => removeFile s.path t

def restoreSnapshots (snapshots : List FileSnapshot) (t : FsTree) : Outcome Unit :=
  forEach FileSnapshot.restore snapshots.reverse t

/-! ### The patch -/

namespace NvPatch

/-- No entry changes anything. -/
def isEmpty (p : NvPatch) : Bool := p.files.all FilePatch.isNoop

def changedFiles (p : NvPatch) : List PathBuf := p.files.flatMap FilePatch.changedPaths

def captureSnapshots (p : NvPatch) (t : FsTree) : Except PatchError (List FileSnapshot) :=
  p.changedFiles.mapM (FileSnapshot.capture t)

def validate (sha256Hex : String → String) (p : NvPatch) (t : FsTree) (rollback : Bool) :
    Except PatchError Unit :=
  p.files.forM fun f => f.validate sha256Hex t rollback

/-- `NvPatch::apply`, with the working directory as it is found and as it is left. -/
def apply (sha256Hex : String → String) (p : NvPatch) (dryRun : Bool) (t : FsTree) : Outcome ApplyReport :=
  match p.validate sha256Hex t false with
  | .error e => (.error e, t)
  | .ok () =>
    if dryRun then (.ok ⟨p.id, p.changedFiles, dryRun⟩, t)
    else
      match p.captureSnapshots t with
      | .error e => (.error e, t)
      | .ok snapshots =>
        match forEach FilePatch.apply p.files t with
        | (.ok (), t') => (.ok ⟨p.id, p.changedFiles, dryRun⟩, t')
        | (.error applyError, t') =>
          match restoreSnapshots snapshots t' with
          | (.ok (), t'') => (.error applyError, t'')
          | (.error rollbackError, t'') =>
            (.error (.rollbackFailed applyError.toText rollbackError.toText), t'')

def rollback (sha256Hex : String → String) (p : NvPatch) (dryRun : Bool) (t : FsTree) : Outcome ApplyReport :=
  match p.validate sha256Hex t true with
  | .error e => (.error e, t)
  | .ok () =>
    if dryRun then (.ok ⟨p.id, p.changedFiles, dryRun⟩, t)
    else
      match forEach FilePatch.rollback p.files t with
      | (.ok (), t') => (.ok ⟨p.id, p.changedFiles, dryRun⟩, t')
      | (.error e, t') => (.error e, t')

end NvPatch

end Nerve.Patch
