import Mathlib.Data.List.AList
import Nerve.Run.ApplyGate

/-!
# The worktree isolator

`apply_final_patch` with a worktree: the steps of `worktree.rs` that make a checkout of `HEAD` below
`.nerve/`, apply the patch there, stage and commit what is there, and bring the main tree forward to
the commit.

Git is not in the repository, so it is a parameter: what each command answers in this call (`Git`), and what
its documentation says of the answers (`Git.Documented`). The main tree is the working directory without `.git`
and `.nerve`, as patches see it; the checkout, the bundle and the lock are below `.nerve`. Nobody else touches
them. The tree has no links. Clean-up is best effort and has no effect on the main tree.
-/

namespace Nerve.Worktree

open Nerve.FileTree Nerve.Patch Nerve.Run

/-! ### Errors -/

inductive WorktreeError where
  | dirtyTree
  | gitMissing
  | diskFull (availableMib thresholdMib : Nat)
  | symlinkEscape (path : PathBuf)
  | mergeFailed (stderr : String)
  | resetFailed (stderr : String)
  | mainMoved (expected actual : String)
  | lock (source : String)
  | bundle (stderr : String)
  | git (cmd stderr : String)
  | io (message : String)
  deriving DecidableEq, Repr

def WorktreeError.toText : WorktreeError → String
  | dirtyTree => "main worktree is dirty; commit or stash before /apply --worktree"
  | gitMissing => "`git` executable not found on PATH"
  | diskFull availableMib thresholdMib =>
    s!"insufficient disk space under .nerve/: {availableMib} MiB available, threshold {thresholdMib} MiB"
  | symlinkEscape path => s!"symlink or path escapes main repository: `{path.text}`"
  | mergeFailed stderr => s!"git merge failed: {stderr}"
  | resetFailed stderr => s!"git reset failed even after --merge fallback: {stderr}"
  | mainMoved expected actual => s!"main HEAD moved during isolated round: expected `{expected}`, found `{actual}`"
  | lock source => s!"failed to acquire worktree lock: {source}"
  | bundle stderr => s!"git bundle create failed: {stderr}"
  | git cmd stderr => s!"git command `{cmd}` failed: {stderr}"
  | io message => message

abbrev WorktreeResult (α : Type) := Except WorktreeError α

/-! ### Git -/

/-- The blobs of a commit, under their paths. -/
abbrev Commit := AList fun _ : Loc String => ByteArray

/-- What is found before a round is prepared, and again before it is merged. -/
structure Guards where
  lock : WorktreeResult Unit
  availableMib : WorktreeResult Nat
  /-- The lines of `git status --porcelain`. -/
  status : WorktreeResult (List String)
  headOid : WorktreeResult String

/-- The repository, and what git and the disk answer in one call. -/
structure Git where
  /-- The commit that `HEAD` names. -/
  head : Commit
  /-- The paths that `git add -A` leaves alone unless they are tracked: `.gitignore` files are read
  from the tree. -/
  leavesOut : (Loc String → Option ByteArray) → Loc String → Bool
  /-- The blob that a file becomes, by the attributes in the tree. -/
  checkin : (Loc String → Option ByteArray) → Loc String → ByteArray → ByteArray
  /-- The file that a blob becomes, by the attributes in its commit. -/
  checkout : (Loc String → Option ByteArray) → Loc String → ByteArray → ByteArray
  /-- `git --version`, and the directories of the isolator. -/
  setup : WorktreeResult Unit
  prepare : Guards
  merge : Guards
  bundle : WorktreeResult Unit
  worktreeAdd : WorktreeResult FsTree
  /-- `git add -A` and `git commit` in the checkout. By its time stamps git knows which paths were written. -/
  commit : List (Loc String) → FsTree → Except RunError Commit
  /-- `git diff --name-only`, from `HEAD` to the commit. -/
  diff : Commit → WorktreeResult (List PathBuf)
  /-- What `lstat` and `canonicalize` find at a path that changed. -/
  inspect : PathBuf → WorktreeResult Unit
  revParse : WorktreeResult Unit
  /-- `git merge --ff-only` in the main tree, with what it says if it fails. -/
  fastForward : Commit → FsTree → WorktreeResult (Except String FsTree)
  /-- `git reset --hard`, or else `--merge`, to where `HEAD` was. -/
  rewind : WorktreeResult Unit

/-- The blob that is staged at a path: none if there is no file, or if it is left out and not tracked. -/
def Git.staged (git : Git) (files : Loc String → Option ByteArray) (q : Loc String) : Option ByteArray :=
  (files q).bind fun b =>
    if (git.head.lookup q).isSome || !git.leavesOut files q then some (git.checkin files q b) else none

/-- Git as it is documented. -/
structure Git.Documented (git : Git) : Prop where
  /-- A checkout has the files of `HEAD`. -/
  checkedOut : ∀ wt, git.worktreeAdd = .ok wt →
    ∀ q, wt.file q = (git.head.lookup q).map (git.checkout git.head.lookup q)
  /-- What was written is staged, and the rest is as in `HEAD`. -/
  committed : ∀ written wt tip, git.commit written wt = .ok tip →
    ∀ q, tip.lookup q = if q ∈ written then git.staged wt.file q else git.head.lookup q
  /-- A fast-forward changes the files that differ between the commits, and what is in the way of
  those it writes. -/
  forwarded : ∀ tip main main', git.fastForward tip main = .ok (.ok main') →
    (∀ q, tip.lookup q ≠ git.head.lookup q → main'.file q = (tip.lookup q).map (git.checkout tip.lookup q)) ∧
      ∀ q, tip.lookup q = git.head.lookup q →
        (∀ u, tip.lookup u ≠ git.head.lookup u → (tip.lookup u).isSome → ¬ Above u q ∧ ¬ Above q u) →
          main'.file q = main.file q

/-- The main tree has the files that are tracked, as they are committed. -/
def Git.Clean (git : Git) (main : FsTree) : Prop :=
  ∀ q blob, git.head.lookup q = some blob → ∃ b, main.file q = some b ∧ git.checkin main.file q b = blob

/-! ### The round -/

def statvfsThresholdMib : Nat := 100

def checkDiskSpace (guards : Guards) : WorktreeResult Unit := do
  let available ← guards.availableMib
  if available < statvfsThresholdMib then throw (.diskFull available statvfsThresholdMib)

/-- What is after the first bytes, if they end between two characters. -/
def dropBytes : Nat → List Char → Option (List Char)
  | 0, cs => some cs
  | _ + 1, [] => none
  | n + 1, c :: cs => if c.utf8Size ≤ n + 1 then dropBytes (n + 1 - c.utf8Size) cs else none

/-- A line of the status that is about a path outside `.nerve/`. -/
def isDirtyLine (line : String) : Bool :=
  let trimmed := (dropBytes 3 line.toList).getD []
  !".nerve/".toList.isPrefixOf trimmed && !trimmed.isEmpty

def ensureCleanMain (guards : Guards) : WorktreeResult Unit := do
  let lines ← guards.status
  if lines.any isDirtyLine then throw .dirtyTree

/-- The file in which the commit of `HEAD` is noted, in the checkout. -/
def mainPreRef : PathBuf := ⟨"main-pre.ref"⟩

/-- A round that is prepared: the checkout, what was written to it, and its commit. -/
structure IsolatedRound where
  mainPreRef : String
  files : FsTree
  written : List (Loc String)
  tip : Option Commit

/-- The main tree, and the round if one is prepared. -/
structure Site where
  main : FsTree
  round : Option IsolatedRound

section Steps

variable (git : Git) (sha256Hex : String → String)

def prepareRound : WorktreeResult IsolatedRound := do
  git.prepare.lock
  checkDiskSpace git.prepare
  ensureCleanMain git.prepare
  let headRef ← git.prepare.headOid
  git.bundle
  let wt ← git.worktreeAdd
  match writeBytes mainPreRef headRef.toByteArray wt with
  | (.error e, _) => throw (.io e.toText)
  | (.ok (), wt) => return ⟨headRef, wt, [mainPreRef.loc], none⟩

def applyPatchInWorktree (patch : NvPatch) (round : IsolatedRound) : WorktreeResult IsolatedRound :=
  match patch.apply sha256Hex false round.files with
  | (.error e, _) => .error (.io e.toText)
  | (.ok _, files) => .ok { round with files := files, written := round.written ++ patch.changedFiles.map PathBuf.loc }

def commitWorktreeRound (round : IsolatedRound) : Except RunError IsolatedRound := do
  let tip ← git.commit round.written round.files
  return { round with tip := some tip }

def verifyNoEscape (rel : PathBuf) : WorktreeResult Unit :=
  if rel.components.any fun c => c == .rootDir || c == .parentDir then .error (.symlinkEscape rel)
  else git.inspect rel

def ensureMainHeadUnchanged (round : IsolatedRound) : WorktreeResult Unit := do
  let current ← git.merge.headOid
  if current ≠ round.mainPreRef then throw (.mainMoved round.mainPreRef current)

/-- The main tree after the round. If the merge fails, the main tree is reset to where it was. -/
def mergeRound (round : IsolatedRound) (tip : Commit) (main : FsTree) : WorktreeResult FsTree := do
  git.merge.lock
  checkDiskSpace git.merge
  ensureCleanMain git.merge
  ensureMainHeadUnchanged git round
  let changed ← git.diff tip
  changed.forM (verifyNoEscape git)
  git.revParse
  match ← git.fastForward tip main with
  | .error stderr => do
    git.rewind
    throw (.mergeFailed stderr)
  | .ok main => return main

end Steps

/-! ### The answers -/

section Answers

variable (git : Git) (sha256Hex : String → String) (rest : (q : Question) → q.Answer)

/-- As a run sees an error of the isolator. -/
def toRunError {α : Type} (r : WorktreeResult α) : Except RunError α := r.mapError fun e => [e.toText]

/-- A step on the round, if there is one. -/
def onRound (site : Site) (step : IsolatedRound → Except RunError IsolatedRound) : Except RunError Unit × Site :=
  match site.round with
  | none => (.error [], site)
  | some round =>
    match step round with
    | .error e => (.error e, site)
    | .ok round => (.ok (), { site with round := some round })

/-- What a run is answered when it applies a patch; the other questions do not concern the trees. -/
def answer (site : Site) : (q : Question) → q.Answer × Site
  | .applyInPlace patch =>
    match patch.apply sha256Hex false site.main with
    | (.error e, main) => (.error [e.toText], { site with main := main })
    | (.ok _, main) => (.ok (), { site with main := main })
  | .worktreeIsolator => (toRunError git.setup, site)
  | .prepareRound =>
    match prepareRound git with
    | .error e => (.error [e.toText], site)
    | .ok round => (.ok (), { site with round := some round })
  | .applyInWorktree patch => onRound site fun round => toRunError (applyPatchInWorktree sha256Hex patch round)
  | .commitWorktreeRound => onRound site (commitWorktreeRound git)
  | .mergeRound =>
    match site.round with
    | some ⟨mainPreRef, files, written, some tip⟩ =>
      match mergeRound git ⟨mainPreRef, files, written, some tip⟩ tip site.main with
      | .error e => (.error [e.toText], site)
      | .ok main => (.ok (), ⟨main, none⟩)
    | _ => (.error [], site)
  | .discardRound => ((), { site with round := none })
  | q => (rest q, site)

/-- `apply_final_patch` on the main tree. -/
def applyFinalPatchTo (patch : Option NvPatch) (shouldApply useWorktree : Bool) (main : FsTree) :
    Except RunError Bool × Site :=
  (applyFinalPatch patch shouldApply useWorktree).serve (answer git sha256Hex rest) ⟨main, none⟩

end Answers

end Nerve.Worktree
