import Nerve.Worktree.Agreement

/-!
# When an isolated apply fails

After the round is prepared its apply can fail at every command, and all the while the user can commit and
edit in the main repository. A failure should leave that as the user has it, and take the round away: its
checkout and branch are to be removed, or the checkout put into quarantine.

Here the round's steps have their effects on the repository: the fast-forward and the resets on
`HEAD` and the working tree, the clean-up on the checkout and the branch. Between the commands the user does
anything to `HEAD` and the tree. The ghost `userMain` starts afresh with each step and has the user's
changes only. `failure_left_alone_iff` says after which failures all is as it should be.
-/

namespace Nerve.Worktree.Failure

open Nerve.FileTree Nerve.Patch Nerve.Run

/-! ### The repository -/

/-- Where `HEAD` is, and the working tree. -/
structure Main where
  head : String
  tree : FsTree

/-- What has become of the round's checkout. -/
inductive Checkout where
  | absent
  | inPlace
  | quarantined
  deriving DecidableEq, Repr

structure Repository where
  main : Main
  /-- What main would be had only the user touched it since the current step began. -/
  userMain : Main
  /-- How many commands have been run. -/
  commands : Nat
  round : Option IsolatedRound
  checkout : Checkout
  branch : Bool

/-- What git and the disk answer, and what the user does to main before each command. -/
structure Surroundings where
  git : Git
  user : Nat → Main → Main
  /-- Where `HEAD` is after the fast-forward. -/
  tipOid : String
  resetHard : Main → WorktreeResult (Except String Main)
  resetMerge : Main → WorktreeResult (Except String Main)
  bundlePath : String
  utf8Path : Bool
  /-- `git worktree remove`, and the same with `--force`. -/
  removes : Bool
  removesForced : Bool
  /-- `git branch -D`. -/
  deletesBranch : Bool
  /-- The checkout can be moved to the orphans, and an entry made in their manifest. -/
  relocates : Bool
  records : Bool

/-- A computation on the repository that can fail and leaves its changes all the same. -/
abbrev RepoM (ε α : Type) := ExceptT ε (StateM Repository) α

section Steps

variable (S : Surroundings)

/-- A step begins: until the next, only the user is to change main. -/
def beginStep {ε : Type} : RepoM ε Unit := modify fun r => { r with userMain := r.main }

/-- The user has had the time to change main. -/
def command {ε : Type} : RepoM ε Unit := modify fun r =>
  { r with main := S.user r.commands r.main, userMain := S.user r.commands r.userMain, commands := r.commands + 1 }

/-- A command that leaves main alone. -/
def run {ε α : Type} (answer : Except ε α) : RepoM ε α := do
  command S
  liftExcept answer

/-- A command that may change main, or say why not. -/
def runOnMain (change : Main → WorktreeResult (Except String Main)) : RepoM WorktreeError (Except String Unit) := do
  command S
  match ← liftExcept (change (← get).main) with
  | .error stderr => return .error stderr
  | .ok main =>
    modify fun r => { r with main := main }
    return .ok ()

/-! ### Clean-up -/

/-- Errors are logged only. -/
def quarantine : RepoM WorktreeError Unit :=
  modify fun r => if S.relocates || S.records then { r with checkout := .quarantined } else r

def removed : RepoM WorktreeError Unit := do
  modify fun r => { r with checkout := .absent }
  command S
  if S.deletesBranch then modify fun r => { r with branch := false }

def cleanupWorktree : RepoM WorktreeError Unit := do
  if !S.utf8Path then quarantine S
  else
    command S
    if S.removes then removed S
    else
      command S
      if S.removesForced then removed S
      else quarantine S

/-! ### The end of a round -/

def ensureMainHeadUnchanged (round : IsolatedRound) : RepoM WorktreeError Unit := do
  let current ← run S S.git.merge.headOid
  if current ≠ round.mainPreRef then
    cleanupWorktree S
    throw (.mainMoved round.mainPreRef current)

def verifyNoEscape (rel : PathBuf) : RepoM WorktreeError Unit := do
  command S
  match Worktree.verifyNoEscape S.git rel with
  | .ok () => return ()
  | .error (.symlinkEscape path) =>
    quarantine S
    throw (.symlinkEscape path)
  | .error e => throw e

def rewindMain : RepoM WorktreeError Unit := do
  match ← runOnMain S S.resetHard with
  | .ok () => return ()
  | .error hardErr =>
    match ← runOnMain S S.resetMerge with
    | .ok () => return ()
    | .error mergeErr =>
      let hard := String.ofList (Text.trim hardErr.toList)
      let merge := String.ofList (Text.trim mergeErr.toList)
      throw (.resetFailed s!"hard: {hard} | merge: {merge} | bundle backup at {S.bundlePath}")

def fastForward (tip : Commit) (main : Main) : WorktreeResult (Except String Main) :=
  (S.git.fastForward tip main.tree).map fun merged => merged.map fun tree => ⟨S.tipOid, tree⟩

def attemptMerge (tip : Commit) : RepoM WorktreeError Unit := do
  match ← runOnMain S (fastForward S tip) with
  | .error stderr =>
    rewindMain S
    throw (.mergeFailed stderr)
  | .ok () => cleanupWorktree S

/-- `merge_round`, from the look at the paths on. -/
def mergeChanged (tip : Commit) (changed : List PathBuf) : RepoM WorktreeError Unit := do
  changed.forM fun rel => do
    beginStep
    verifyNoEscape S rel
  beginStep
  run S S.git.revParse
  beginStep
  attemptMerge S tip

def mergeRound (round : IsolatedRound) (tip : Commit) : RepoM WorktreeError Unit := do
  beginStep
  run S S.git.merge.lock
  beginStep
  run S (checkDiskSpace S.git.merge)
  beginStep
  run S (ensureCleanMain S.git.merge)
  beginStep
  ensureMainHeadUnchanged S round
  beginStep
  let changed ← run S (S.git.diff tip)
  mergeChanged S tip changed

def discardRound (round : IsolatedRound) : RepoM WorktreeError Unit := do
  run S S.git.merge.lock
  ensureMainHeadUnchanged S round
  cleanupWorktree S

end Steps

/-! ### The answers -/

section Answers

variable (S : Surroundings) (sha256Hex : String → String) (rest : (q : Question) → q.Answer)

/-- A step of the round that leaves it changed. -/
def onRound (r : Repository) (step : IsolatedRound → Except RunError IsolatedRound) : Except RunError Unit × Repository :=
  match r.round with
  | none => (.error [], r)
  | some round =>
    match (do beginStep; run S (step round) : RepoM RunError IsolatedRound) r with
    | (.error e, r) => (.error e, r)
    | (.ok round, r) => (.ok (), { r with round := some round })

/-- What a run is answered when it applies a patch. -/
def answer (r : Repository) : (q : Question) → q.Answer × Repository
  | .worktreeIsolator => (toRunError S.git.setup, r)
  | .prepareRound =>
    match prepareRound S.git with
    | .error e => (.error [e.toText], r)
    | .ok round => (.ok (), { r with round := some round, checkout := .inPlace, branch := true })
  | .applyInWorktree patch => onRound S r fun round => toRunError (applyPatchInWorktree sha256Hex patch round)
  | .commitWorktreeRound => onRound S r (commitWorktreeRound S.git)
  | .mergeRound =>
    match r.round with
    | some ⟨mainPreRef, files, written, some tip⟩ =>
      let (merged, r) := mergeRound S ⟨mainPreRef, files, written, some tip⟩ tip r
      (toRunError merged, r)
    | _ => (.error [], r)
  | .discardRound =>
    match r.round with
    | some round => ((), (discardRound S round r).2)
    | none => ((), r)
  | q => (rest q, r)

/-- `apply_final_patch` with a worktree. -/
def applyIsolated (patch : NvPatch) (r : Repository) : Except RunError Bool × Repository :=
  (applyFinalPatch (some patch) true true).serve (answer S sha256Hex rest) r

end Answers

/-! ### What is to be left -/

/-- The round's checkout and branch are gone, or it is in quarantine. -/
def Disposed (r : Repository) : Prop := r.checkout = .quarantined ∨ r.checkout = .absent ∧ r.branch = false

/-- The call fails, main is as the user has it, and the round is taken away. -/
structure LeftAlone (end_ : Except RunError Bool × Repository) : Prop where
  failed : ∃ e, end_.1 = .error e
  main : end_.2.main = end_.2.userMain
  disposed : Disposed end_.2

section Handled

variable (S : Surroundings)

/-- Of the two things that put a checkout into quarantine one can be done. -/
def quarantines : Bool := S.relocates || S.records

/-- The clean-up gets through, with git or without. -/
def cleansUp : Bool := if S.utf8Path && (S.removes || S.removesForced) then S.deletesBranch else quarantines S

/-- A discard gets as far as the clean-up, and that gets through. -/
structure DiscardHandled : Prop where
  lock : S.git.merge.lock = .ok ()
  head : ∃ head, S.git.merge.headOid = .ok head
  cleansUp : cleansUp S = true

/-- The path is a link or leads out of the repository. -/
def escapes (rel : PathBuf) : Bool :=
  match Worktree.verifyNoEscape S.git rel with
  | .error (.symlinkEscape _) => true
  | _ => false

def refuses (rel : PathBuf) : Bool :=
  match Worktree.verifyNoEscape S.git rel with
  | .ok () => false
  | .error _ => true

/-- The merge gets past its first guards and finds that `HEAD` has moved, or that the first path it refuses
escapes; and what it does then gets through. -/
structure MergeHandled (mainPreRef : String) (tip : Commit) : Prop where
  lock : S.git.merge.lock = .ok ()
  disk : checkDiskSpace S.git.merge = .ok ()
  clean : ensureCleanMain S.git.merge = .ok ()
  caught : ∃ head, S.git.merge.headOid = .ok head ∧
    if head = mainPreRef then
      ∃ changed rel, S.git.diff tip = .ok changed ∧ changed.find? (refuses S) = some rel ∧ escapes S rel = true ∧
        quarantines S = true
    else cleansUp S = true

/-- The failure is of the patch or of the commit, and the discard gets through; or it is a merge's, and is handled. -/
def Handled (sha256Hex : String → String) (patch : NvPatch) (round : IsolatedRound) : Prop :=
  match applyPatchInWorktree sha256Hex patch round with
  | .error _ => DiscardHandled S
  | .ok patched =>
    match S.git.commit patched.written patched.files with
    | .error _ => DiscardHandled S
    | .ok tip => MergeHandled S patched.mainPreRef tip

end Handled

/-! ### The steps, one by one -/

section Proofs

variable {S : Surroundings} {r : Repository} {ε α β : Type}

theorem bind_eq (x : RepoM ε α) (f : α → RepoM ε β) (r : Repository) :
    (x >>= f) r = match (x r).1 with
      | .ok a => f a (x r).2
      | .error e => (.error e, (x r).2) := by
  change ExceptT.bindCont f (x r).1 (x r).2 = _
  cases (x r).1 <;> rfl

theorem bind_ok {x : RepoM ε α} {f : α → RepoM ε β} {a : α} {r' : Repository} (h : x r = (.ok a, r')) :
    (x >>= f) r = f a r' := by
  rw [bind_eq, h]

theorem bind_error {x : RepoM ε α} {f : α → RepoM ε β} {e : ε} {r' : Repository} (h : x r = (.error e, r')) :
    (x >>= f) r = (.error e, r') := by
  rw [bind_eq, h]

/-- The repository after a command that leaves it alone. -/
def commanded (S : Surroundings) (r : Repository) : Repository :=
  { r with main := S.user r.commands r.main, userMain := S.user r.commands r.userMain, commands := r.commands + 1 }

/-- The repository at the beginning of a step. -/
def begun (r : Repository) : Repository := { r with userMain := r.main }

theorem beginStep_bind {f : Unit → RepoM ε β} : (beginStep >>= f) r = f () (begun r) := rfl

theorem command_bind {f : Unit → RepoM ε β} : (command S >>= f) r = f () (commanded S r) := rfl

theorem run_bind {x : Except ε α} {f : α → RepoM ε β} :
    (run S x >>= f) r = match x with
      | .ok a => f a (commanded S r)
      | .error e => (.error e, commanded S r) := by
  cases x <;> rfl

/-- Only the user has changed main. -/
def Users (r : Repository) : Prop := r.main = r.userMain

theorem users_begun (r : Repository) : Users (begun r) := rfl

theorem Users.commanded (h : Users r) : Users (commanded S r) := congrArg (S.user r.commands) h

theorem not_disposed (h : r.checkout = .inPlace) : ¬Disposed r := by
  rintro (hdisposed | ⟨hdisposed, -⟩) <;> rw [h] at hdisposed <;> cases hdisposed

/-! ### The clean-up -/

theorem quarantine_eq (S : Surroundings) (r : Repository) :
    quarantine S r = (.ok (), if quarantines S then { r with checkout := .quarantined } else r) := rfl

theorem disposed_quarantine (hr : r.checkout = .inPlace) :
    Disposed (if quarantines S then { r with checkout := .quarantined } else r) ↔ quarantines S = true := by
  split_ifs with hquarantines
  · exact iff_of_true (Or.inl rfl) hquarantines
  · exact iff_of_false (not_disposed hr) hquarantines

/-- A step of the clean-up, or of a discard: it does not fail, leaves main alone, and takes the round away if so. -/
def Disposes (x : RepoM WorktreeError Unit) (gone : Bool) : Prop :=
  ∀ r : Repository, r.checkout = .inPlace → r.branch = true → Users r →
    ∃ r', x r = (.ok (), r') ∧ Users r' ∧ (Disposed r' ↔ gone = true)

theorem quarantine_disposes (S : Surroundings) : Disposes (quarantine S) (quarantines S) := by
  intro r hr _ husers
  refine ⟨_, quarantine_eq S r, ?_, disposed_quarantine hr⟩
  split_ifs
  · exact husers
  · exact husers

theorem removed_disposes (S : Surroundings) : Disposes (removed S) S.deletesBranch := by
  intro r _ hbranch husers
  have hremoved : removed S r = (.ok (), if S.deletesBranch then
      { commanded S { r with checkout := .absent } with branch := false } else commanded S { r with checkout := .absent }) := by
    unfold removed
    cases S.deletesBranch <;> rfl
  refine ⟨_, hremoved, ?_, ?_⟩
  · split_ifs
    · exact husers.commanded
    · exact husers.commanded
  · split_ifs with hdeletes
    · exact iff_of_true (Or.inr ⟨rfl, rfl⟩) hdeletes
    · refine iff_of_false (fun hdisposed => ?_) hdeletes
      rcases hdisposed with hquarantined | ⟨-, hgone⟩
      · cases hquarantined
      · exact Bool.false_ne_true (hgone.symm.trans hbranch)

theorem Disposes.command {x : RepoM WorktreeError Unit} {gone : Bool} (h : Disposes x gone) :
    Disposes (do command S; x) gone := fun r hr hbranch husers =>
  h (commanded S r) hr hbranch husers.commanded

theorem cleanupWorktree_disposes (S : Surroundings) : Disposes (cleanupWorktree S) (cleansUp S) := by
  unfold cleanupWorktree cleansUp
  rcases S.utf8Path with _ | _
  · exact quarantine_disposes S
  rcases S.removes with _ | _
  · refine Disposes.command ?_
    rcases S.removesForced with _ | _
    · exact (quarantine_disposes S).command
    · exact (removed_disposes S).command
  · exact (removed_disposes S).command

/-! ### The guards -/

/-- It fails, and all is as it should be if so. -/
def Ends (end_ : Except WorktreeError α × Repository) (handled : Prop) : Prop :=
  (∃ e, end_.1 = .error e) ∧ (Users end_.2 ∧ Disposed end_.2 ↔ handled)

theorem ends_inPlace {e : WorktreeError} (hr : r.checkout = .inPlace) :
    Ends ((.error e, r) : Except WorktreeError α × Repository) False :=
  ⟨⟨e, rfl⟩, iff_of_false (fun h => not_disposed hr h.2) id⟩

theorem Disposes.ends {x : RepoM WorktreeError Unit} {gone : Bool} (h : Disposes x gone) {e : WorktreeError}
    (hr : r.checkout = .inPlace) (hbranch : r.branch = true) (husers : Users r) :
    Ends ((do x; throw e : RepoM WorktreeError α) r) (gone = true) := by
  obtain ⟨r', hx, husers', hdisposed⟩ := h r hr hbranch husers
  rw [bind_ok hx]
  exact ⟨⟨e, rfl⟩, (and_iff_right husers').trans hdisposed⟩

theorem Ends.bind {x : RepoM WorktreeError α} {f : α → RepoM WorktreeError β} {handled : Prop} (h : Ends (x r) handled) :
    Ends ((x >>= f) r) handled := by
  obtain ⟨⟨e, he⟩, hends⟩ := h
  rw [bind_error (Prod.ext he rfl)]
  exact ⟨⟨e, rfl⟩, hends⟩

theorem ensureMainHeadUnchanged_error {e : WorktreeError} (round : IsolatedRound) (hhead : S.git.merge.headOid = .error e) :
    ensureMainHeadUnchanged S round r = (.error e, commanded S r) := by
  rw [ensureMainHeadUnchanged, run_bind, hhead]

theorem ensureMainHeadUnchanged_same {round : IsolatedRound} (hhead : S.git.merge.headOid = .ok round.mainPreRef) :
    ensureMainHeadUnchanged S round r = (.ok (), commanded S r) := by
  rw [ensureMainHeadUnchanged, run_bind, hhead]
  simp only [ne_eq, not_true_eq_false, if_false]
  rfl

theorem ensureMainHeadUnchanged_moved {round : IsolatedRound} {head : String} (hhead : S.git.merge.headOid = .ok head)
    (hmoved : head ≠ round.mainPreRef) (hr : r.checkout = .inPlace) (hbranch : r.branch = true) (husers : Users r) :
    Ends (ensureMainHeadUnchanged S round r) (cleansUp S = true) := by
  rw [ensureMainHeadUnchanged, run_bind, hhead]
  simp only [ne_eq, hmoved, not_false_eq_true, if_true]
  exact (cleanupWorktree_disposes S).ends (r := commanded S r) hr hbranch husers.commanded

theorem verifyNoEscape_ok {rel : PathBuf} (h : refuses S rel = false) : verifyNoEscape S rel r = (.ok (), commanded S r) := by
  unfold refuses at h
  rw [verifyNoEscape, command_bind]
  rcases hverify : Worktree.verifyNoEscape S.git rel with e | _ <;> rw [hverify] at h
  · cases h
  · rfl

theorem verifyNoEscape_refused {rel : PathBuf} (h : refuses S rel = true) (hr : r.checkout = .inPlace)
    (hbranch : r.branch = true) (husers : Users r) :
    Ends (verifyNoEscape S rel r) (escapes S rel = true ∧ quarantines S = true) := by
  unfold refuses at h
  rw [verifyNoEscape, command_bind, escapes]
  rcases hverify : Worktree.verifyNoEscape S.git rel with e | _ <;> rw [hverify] at h
  · cases e with
    | symlinkEscape path =>
      simp only [true_and]
      exact (quarantine_disposes S).ends (r := commanded S r) hr hbranch husers.commanded
    | _ =>
      simp only [Bool.false_eq_true, false_and]
      exact ends_inPlace (r := commanded S r) hr
  · cases h

/-- The paths are looked at one by one, up to the first that is refused. -/
theorem verifyAll_spec (changed : List PathBuf) (hr : r.checkout = .inPlace) (hbranch : r.branch = true) (husers : Users r) :
    let verified := (changed.forM fun rel => do beginStep; verifyNoEscape S rel : RepoM WorktreeError Unit) r
    match changed.find? (refuses S) with
    | none => ∃ r', verified = (.ok (), r') ∧ r'.checkout = .inPlace ∧ r'.branch = true ∧ Users r'
    | some rel => Ends verified (escapes S rel = true ∧ quarantines S = true) := by
  induction changed generalizing r with
  | nil => exact ⟨r, rfl, hr, hbranch, husers⟩
  | cons rel changed ih =>
    rw [List.forM_eq_forM, List.forM_cons, List.find?_cons]
    rcases hrefuses : refuses S rel with _ | _
    · have hverified : (do beginStep; verifyNoEscape S rel : RepoM WorktreeError Unit) r = (.ok (), commanded S (begun r)) := by
        rw [beginStep_bind, verifyNoEscape_ok hrefuses]
      rw [bind_ok hverified]
      exact ih hr hbranch (users_begun r).commanded
    · exact Ends.bind (verifyNoEscape_refused (r := begun r) hrefuses hr hbranch (users_begun r))

/-! ### The merge -/

theorem runOnMain_eq (change : Main → WorktreeResult (Except String Main)) (r : Repository) :
    runOnMain S change r = match change (commanded S r).main with
      | .error e => (.error e, commanded S r)
      | .ok (.error stderr) => (.ok (.error stderr), commanded S r)
      | .ok (.ok main) => (.ok (.ok ()), { commanded S r with main := main }) := by
  rw [runOnMain, command_bind]
  change (liftExcept (change (commanded S r).main) >>= _ : RepoM WorktreeError (Except String Unit)) (commanded S r) = _
  rcases change (commanded S r).main with e | stderr | main
  · rfl
  · rfl
  · rfl

/-- The checkout is not concerned. -/
def KeepsCheckout (x : RepoM ε α) : Prop := ∀ r, (x r).2.checkout = r.checkout

theorem KeepsCheckout.bind {x : RepoM ε α} {f : α → RepoM ε β} (hx : KeepsCheckout x) (hf : ∀ a, KeepsCheckout (f a)) :
    KeepsCheckout (x >>= f) := by
  intro r
  rw [bind_eq]
  rcases (x r).1 with e | a
  · exact hx r
  · exact (hf a _).trans (hx r)

theorem keepsCheckout_throw (e : ε) : KeepsCheckout (throw e : RepoM ε α) := fun _ => rfl

theorem runOnMain_keepsCheckout (change : Main → WorktreeResult (Except String Main)) :
    KeepsCheckout (runOnMain S change) := by
  intro r
  rw [runOnMain_eq]
  rcases change (commanded S r).main with e | stderr | main <;> rfl

theorem rewindMain_keepsCheckout : KeepsCheckout (rewindMain S) := by
  refine (runOnMain_keepsCheckout _).bind fun hard => ?_
  rcases hard with hardErr | _
  · refine (runOnMain_keepsCheckout _).bind fun merge => ?_
    rcases merge with mergeErr | _
    · exact keepsCheckout_throw _
    · exact fun _ => rfl
  · exact fun _ => rfl

/-- What fails with the checkout in its place is not as it should be. -/
theorem KeepsCheckout.ends {x : RepoM WorktreeError Unit} (hx : KeepsCheckout x) {e : WorktreeError}
    (hr : r.checkout = .inPlace) : Ends ((do x; throw e : RepoM WorktreeError α) r) False := by
  have hkept : ((do x; throw e : RepoM WorktreeError α) r).2.checkout = .inPlace :=
    ((hx.bind fun _ => keepsCheckout_throw e) r).trans hr
  refine ⟨?_, iff_of_false (fun h => not_disposed hkept h.2) id⟩
  rw [bind_eq]
  rcases (x r).1 with e' | _
  · exact ⟨e', rfl⟩
  · exact ⟨e, rfl⟩

theorem cleanupWorktree_ok (r : Repository) : (cleanupWorktree S r).1 = .ok () := by
  have hremoved (r : Repository) : (removed S r).1 = .ok () := by
    unfold removed
    cases S.deletesBranch <;> rfl
  unfold cleanupWorktree
  rcases S.utf8Path with _ | _
  · rfl
  rcases S.removes with _ | _
  · rcases S.removesForced with _ | _
    · rfl
    · exact hremoved _
  · exact hremoved _

/-- With `git reset --hard` as it is documented: it leaves `HEAD` at the commit and no change to a tracked file, and does
nothing where that is so. Then a reset that succeeds leaves main as the user has it exactly if that is so. -/
theorem users_rewindMain_iff {mainPreRef : String} {unchanged : Main → Prop} {main : Main} (husers : Users r)
    (hdone : ∀ m m', S.resetHard m = .ok (.ok m') → m'.head = mainPreRef ∧ unchanged m')
    (hidle : ∀ m m', S.resetHard m = .ok (.ok m') → m.head = mainPreRef → unchanged m → m' = m)
    (hreset : S.resetHard (commanded S r).main = .ok (.ok main)) :
    Users (rewindMain S r).2 ↔ (commanded S r).main.head = mainPreRef ∧ unchanged (commanded S r).main := by
  have hresult : runOnMain S S.resetHard r = (.ok (.ok ()), { commanded S r with main := main }) := by
    rw [runOnMain_eq, hreset]
  rw [rewindMain, bind_ok hresult]
  change main = (commanded S r).userMain ↔ _
  rw [← husers.commanded]
  constructor
  · rintro rfl
    exact hdone _ _ hreset
  · rintro ⟨hhead, hunchanged⟩
    exact hidle _ _ hreset hhead hunchanged

/-- Once the guards are passed the merge succeeds, or leaves the round where it is. -/
theorem attemptMerge_ends {tip : Commit} (hr : r.checkout = .inPlace) :
    (attemptMerge S tip r).1 = .ok () ∨ Ends (attemptMerge S tip r) False := by
  have hkept := runOnMain_keepsCheckout (S := S) (fastForward S tip) r
  unfold attemptMerge
  rcases hresult : runOnMain S (fastForward S tip) r with ⟨e | stderr | _, r'⟩ <;> rw [hresult] at hkept
  · rw [bind_error hresult]
    exact Or.inr (ends_inPlace (hkept.trans hr))
  · rw [bind_ok hresult]
    exact Or.inr (rewindMain_keepsCheckout.ends (hkept.trans hr))
  · rw [bind_ok hresult]
    exact Or.inl (cleanupWorktree_ok r')

theorem Ends.congr {end_ : Except WorktreeError α × Repository} {handled handled' : Prop} (h : Ends end_ handled)
    (hiff : handled ↔ handled') : Ends end_ handled' := ⟨h.1, h.2.trans hiff⟩

theorem ends_unhandled {p : Prop} {e : WorktreeError} (hr : r.checkout = .inPlace) (hp : ¬p) :
    Ends ((.error e, r) : Except WorktreeError α × Repository) p := (ends_inPlace hr).congr (iff_of_false id hp)

theorem mergeChanged_ends (tip : Commit) (changed : List PathBuf) (hr : r.checkout = .inPlace) (hbranch : r.branch = true)
    (husers : Users r) :
    (mergeChanged S tip changed r).1 = .ok () ∨ Ends (mergeChanged S tip changed r)
      (∃ rel, changed.find? (refuses S) = some rel ∧ escapes S rel = true ∧ quarantines S = true) := by
  unfold mergeChanged
  have hverified := verifyAll_spec (S := S) changed hr hbranch husers
  rcases hfind : changed.find? (refuses S) with _ | rel <;> simp only [hfind] at hverified
  · obtain ⟨r', hall, hr', -, -⟩ := hverified
    have hnone : ¬∃ rel, (none : Option PathBuf) = some rel ∧ escapes S rel = true ∧ quarantines S = true := by
      rintro ⟨rel, hrel, -⟩
      cases hrel
    rw [bind_ok hall, beginStep_bind, run_bind]
    rcases S.git.revParse with e | _
    · exact Or.inr (ends_unhandled hr' hnone)
    · dsimp only
      rw [beginStep_bind]
      exact (attemptMerge_ends (r := begun (commanded S (begun r'))) hr').imp_right fun hends =>
        hends.congr (iff_of_false id hnone)
  · refine Or.inr ((Ends.bind hverified).congr ⟨fun h => ⟨rel, rfl, h⟩, ?_⟩)
    rintro ⟨_, ⟨⟩, h⟩
    exact h

/-- Past the first guards, and with `HEAD` found. -/
theorem mergeHandled_iff {mainPreRef head : String} {tip : Commit} (hlock : S.git.merge.lock = .ok ())
    (hdisk : checkDiskSpace S.git.merge = .ok ()) (hclean : ensureCleanMain S.git.merge = .ok ())
    (hhead : S.git.merge.headOid = .ok head) :
    MergeHandled S mainPreRef tip ↔
      if head = mainPreRef then
        ∃ changed rel, S.git.diff tip = .ok changed ∧ changed.find? (refuses S) = some rel ∧ escapes S rel = true ∧
          quarantines S = true
      else cleansUp S = true := by
  refine ⟨fun h => ?_, fun h => ⟨hlock, hdisk, hclean, head, hhead, h⟩⟩
  obtain ⟨head', hfound, hcaught⟩ := h.caught
  cases hhead.symm.trans hfound
  exact hcaught

theorem mergeRound_ends (round : IsolatedRound) (tip : Commit) (hr : r.checkout = .inPlace) (hbranch : r.branch = true) :
    (mergeRound S round tip r).1 = .ok () ∨ Ends (mergeRound S round tip r) (MergeHandled S round.mainPreRef tip) := by
  unfold mergeRound
  rw [beginStep_bind, run_bind]
  rcases hlock : S.git.merge.lock with e | _
  · exact Or.inr (ends_unhandled hr fun h => by cases hlock.symm.trans h.lock)
  dsimp only
  rw [beginStep_bind, run_bind]
  rcases hdisk : checkDiskSpace S.git.merge with e | _
  · exact Or.inr (ends_unhandled hr fun h => by cases hdisk.symm.trans h.disk)
  dsimp only
  rw [beginStep_bind, run_bind]
  rcases hclean : ensureCleanMain S.git.merge with e | _
  · exact Or.inr (ends_unhandled hr fun h => by cases hclean.symm.trans h.clean)
  dsimp only
  rw [beginStep_bind]
  rcases hhead : S.git.merge.headOid with e | head
  · rw [bind_error (ensureMainHeadUnchanged_error round hhead)]
    refine Or.inr (ends_unhandled hr fun h => ?_)
    obtain ⟨head, hfound, -⟩ := h.caught
    cases hhead.symm.trans hfound
  rw [mergeHandled_iff hlock hdisk hclean hhead]
  by_cases hsame : head = round.mainPreRef
  · rw [if_pos hsame]
    subst hsame
    rw [bind_ok (ensureMainHeadUnchanged_same hhead), beginStep_bind, run_bind]
    rcases hdiff : S.git.diff tip with e | changed
    · refine Or.inr (ends_unhandled hr fun h => ?_)
      obtain ⟨changed, rel, hchanged, -⟩ := h
      cases hchanged
    · refine (mergeChanged_ends tip changed ?_ ?_ ?_).imp_right fun hends => Ends.congr hends ?_
      · exact hr
      · exact hbranch
      · exact (users_begun _).commanded
      refine ⟨fun ⟨rel, h⟩ => ⟨changed, rel, rfl, h⟩, ?_⟩
      rintro ⟨_, rel, ⟨⟩, h⟩
      exact ⟨rel, h⟩
  · rw [if_neg hsame]
    exact Or.inr (Ends.bind (ensureMainHeadUnchanged_moved hhead hsame hr hbranch (users_begun _)))

/-! ### Nobody else at work -/

section Alone

variable (halone : ∀ n m, S.user n m = m)
include halone

theorem main_commanded : (commanded S r).main = r.main := halone _ _

/-- Where the user does nothing, the paths are looked at as if there were no repository. -/
theorem verifyAll_result (changed : List PathBuf) :
    let verified := (changed.forM fun rel => do beginStep; verifyNoEscape S rel : RepoM WorktreeError Unit) r
    verified.1 = changed.forM (Worktree.verifyNoEscape S.git) ∧ (verified.1 = .ok () → verified.2.main = r.main) := by
  induction changed generalizing r with
  | nil => exact ⟨rfl, fun _ => rfl⟩
  | cons rel changed ih =>
    rw [List.forM_eq_forM, List.forM_cons, List.forM_eq_forM, List.forM_cons]
    have hverify : (do beginStep; verifyNoEscape S rel : RepoM WorktreeError Unit) r = verifyNoEscape S rel (begun r) := rfl
    rcases hrel : Worktree.verifyNoEscape S.git rel with e | _
    · have herror : (verifyNoEscape S rel (begun r)).1 = .error e := by
        rw [verifyNoEscape, command_bind, hrel]
        cases e <;> rfl
      rw [bind_error (hverify.trans (Prod.ext herror rfl))]
      exact ⟨rfl, fun hok => by cases hok⟩
    · have hok : verifyNoEscape S rel (begun r) = (.ok (), commanded S (begun r)) :=
        verifyNoEscape_ok (by rw [refuses, hrel])
      rw [bind_ok (hverify.trans hok)]
      obtain ⟨hresult, hmain⟩ := ih (r := commanded S (begun r))
      exact ⟨hresult, fun hok => (hmain hok).trans (main_commanded halone)⟩

variable (hrewind : ∀ r, (rewindMain S r).1 = S.git.rewind)
include hrewind

theorem attemptMerge_result (tip : Commit) :
    (attemptMerge S tip r).1 = match S.git.fastForward tip r.main.tree with
      | .error e => .error e
      | .ok (.error stderr) => (do S.git.rewind; throw (.mergeFailed stderr) : WorktreeResult Unit)
      | .ok (.ok _) => .ok () := by
  rw [attemptMerge, bind_eq, runOnMain_eq, main_commanded halone, fastForward]
  rcases S.git.fastForward tip r.main.tree with e | stderr | tree
  · rfl
  · dsimp only [Except.map]
    rw [bind_eq, ← hrewind (commanded S r)]
    rcases (rewindMain S (commanded S r)).1 with e | _ <;> rfl
  · exact cleanupWorktree_ok _

theorem mergeChanged_result (tip : Commit) (changed : List PathBuf) :
    let plain : WorktreeResult FsTree := do
      changed.forM (Worktree.verifyNoEscape S.git)
      S.git.revParse
      match ← S.git.fastForward tip r.main.tree with
      | .error stderr => do
        S.git.rewind
        throw (.mergeFailed stderr)
      | .ok main => return main
    (mergeChanged S tip changed r).1 = plain.map fun _ => () := by
  intro plain
  rcases hverified : (changed.forM fun rel => do beginStep; verifyNoEscape S rel : RepoM WorktreeError Unit) r with
    ⟨result, r'⟩
  have hall := verifyAll_result halone changed (r := r)
  rw [hverified] at hall
  obtain ⟨hresult, hmain⟩ := hall
  change _ = Except.map _ (changed.forM (Worktree.verifyNoEscape S.git) >>= _)
  unfold mergeChanged
  rw [← hresult]
  rcases result with e | _
  · rw [bind_error hverified]
    rfl
  rw [bind_ok hverified, beginStep_bind, run_bind]
  change _ = Except.map _ (S.git.revParse >>= _)
  rcases S.git.revParse with e | _
  · rfl
  dsimp only
  rw [beginStep_bind]
  have hmain : r'.main = r.main := hmain rfl
  refine (attemptMerge_result halone hrewind tip).trans ?_
  simp only [main_commanded halone, begun, hmain]
  change _ = Except.map _ (S.git.fastForward tip r.main.tree >>= _)
  rcases S.git.fastForward tip r.main.tree with e | stderr | tree
  · rfl
  · change (S.git.rewind >>= _) = Except.map _ (S.git.rewind >>= _)
    rcases S.git.rewind with e | _ <;> rfl
  · rfl

/-- There the merge comes to what it comes to in the main tree alone. -/
theorem mergeRound_result (round : IsolatedRound) (tip : Commit) :
    (mergeRound S round tip r).1 = (Worktree.mergeRound S.git round tip r.main.tree).map fun _ => () := by
  unfold mergeRound Worktree.mergeRound
  rw [beginStep_bind, run_bind]
  rcases S.git.merge.lock with e | _
  · rfl
  dsimp only
  rw [beginStep_bind, run_bind]
  rcases checkDiskSpace S.git.merge with e | _
  · rfl
  dsimp only
  rw [beginStep_bind, run_bind]
  rcases ensureCleanMain S.git.merge with e | _
  · rfl
  dsimp only
  rw [beginStep_bind]
  rcases hhead : S.git.merge.headOid with e | head
  · have hplain : Worktree.ensureMainHeadUnchanged S.git round = .error e := by
      rw [Worktree.ensureMainHeadUnchanged, hhead]
      rfl
    rw [bind_error (ensureMainHeadUnchanged_error round hhead), hplain]
    rfl
  by_cases hsame : head = round.mainPreRef
  · subst hsame
    have hplain : Worktree.ensureMainHeadUnchanged S.git round = .ok () := by
      rw [Worktree.ensureMainHeadUnchanged, hhead]
      exact if_neg (not_not.mpr rfl)
    rw [bind_ok (ensureMainHeadUnchanged_same hhead), beginStep_bind, run_bind, hplain]
    rcases S.git.diff tip with e | changed
    · rfl
    · refine (mergeChanged_result halone hrewind tip changed).trans ?_
      simp only [main_commanded halone, begun]
      rfl
  · have hplain : Worktree.ensureMainHeadUnchanged S.git round = .error (.mainMoved round.mainPreRef head) := by
      rw [Worktree.ensureMainHeadUnchanged, hhead]
      exact if_pos hsame
    rw [hplain, bind_eq, ensureMainHeadUnchanged, run_bind, hhead]
    simp only [ne_eq, hsame, not_false_eq_true, if_true]
    rw [bind_eq, cleanupWorktree_ok]
    rfl

end Alone

/-- What a discard leaves. -/
theorem discardRound_spec (round : IsolatedRound) (hr : r.checkout = .inPlace) (hbranch : r.branch = true) (husers : Users r) :
    Users (discardRound S round r).2 ∧ Disposed (discardRound S round r).2 ↔ DiscardHandled S := by
  unfold discardRound
  rw [run_bind]
  rcases hlock : S.git.merge.lock with e | _
  · exact iff_of_false (fun h => not_disposed hr h.2) fun h => by cases hlock.symm.trans h.lock
  dsimp only
  rcases hhead : S.git.merge.headOid with e | head
  · rw [bind_error (ensureMainHeadUnchanged_error round hhead)]
    refine iff_of_false (fun h => not_disposed hr h.2) fun h => ?_
    obtain ⟨head, hfound⟩ := h.head
    cases hhead.symm.trans hfound
  have hhandled : cleansUp S = true ↔ DiscardHandled S :=
    ⟨fun h => ⟨hlock, ⟨head, hhead⟩, h⟩, fun h => h.cleansUp⟩
  by_cases hsame : head = round.mainPreRef
  · subst hsame
    rw [bind_ok (ensureMainHeadUnchanged_same hhead)]
    obtain ⟨r', hclean, husers', hdisposed⟩ := cleanupWorktree_disposes S (commanded S (commanded S r)) hr hbranch
      husers.commanded.commanded
    rw [hclean]
    exact ((and_iff_right husers').trans hdisposed).trans hhandled
  · have hmoved := ensureMainHeadUnchanged_moved (r := commanded S r) hhead hsame hr hbranch husers.commanded
    exact ((Ends.bind hmoved).congr hhandled).2

end Proofs

/-! ### The call -/

section Call

variable {S : Surroundings} {sha256Hex : String → String} {rest : (q : Question) → q.Answer} {patch : NvPatch}
  {r : Repository} {round : IsolatedRound}

/-- The repository with its round prepared. -/
def prepared (r : Repository) (round : IsolatedRound) : Repository :=
  { r with round := some round, checkout := .inPlace, branch := true }

theorem onRound_eq {step : IsolatedRound → Except RunError IsolatedRound} (hround : r.round = some round) :
    onRound S r step = match step round with
      | .error e => (.error e, commanded S (begun r))
      | .ok round => (.ok (), { commanded S (begun r) with round := some round }) := by
  rw [onRound, hround]
  dsimp only
  rw [beginStep_bind]
  rcases hstep : step round with e | round'
  · rfl
  · rfl

/-- What the call makes of the merge. -/
def afterMerge (merged : Except RunError Unit × Repository) : Except RunError Bool × Repository :=
  match merged with
  | (.error e, r) => (.error ("worktree merge failed" :: e), r)
  | (.ok (), r) => (.ok true, r)

theorem applyIsolated_eq (hsetup : S.git.setup = .ok ()) (hprepare : prepareRound S.git = .ok round) :
    applyIsolated S sha256Hex rest patch r =
      match onRound S (prepared r round) fun round => toRunError (applyPatchInWorktree sha256Hex patch round) with
      | (.error e, r) => (.error ("worktree patch apply failed" :: e), (answer S sha256Hex rest r .discardRound).2)
      | (.ok (), r) =>
        match onRound S r (commitWorktreeRound S.git) with
        | (.error e, r) => (.error ("worktree commit failed" :: e), (answer S sha256Hex rest r .discardRound).2)
        | (.ok (), r) => afterMerge (answer S sha256Hex rest r .mergeRound) := by
  have hisolator : answer S sha256Hex rest r .worktreeIsolator = (.ok (), r) := by
    rw [answer, hsetup]
    rfl
  have hround : answer S sha256Hex rest r .prepareRound = (.ok (), prepared r round) := by
    rw [answer, hprepare]
    rfl
  unfold applyIsolated applyFinalPatch
  simp only [Bool.not_true, Bool.false_eq_true, if_false]
  unfold applyWithWorktree withContext
  have hask {r : Repository} {q : Question} : (Run.ask q).serve (answer S sha256Hex rest) r =
      (.ok (answer S sha256Hex rest r q).1, (answer S sha256Hex rest r q).2) := rfl
  rw [Dialogue.serve_bind, Dialogue.serve_mapError, Dialogue.serve_bind, hask, hisolator]
  dsimp only [orFail, Dialogue.ofExcept, Dialogue.serve, Except.mapError]
  rw [Dialogue.serve_bind, Dialogue.serve_mapError, Dialogue.serve_bind, hask, hround]
  dsimp only [orFail, Dialogue.ofExcept, Dialogue.serve, Except.mapError]
  rw [Dialogue.serve_bind, hask]
  have hpatch : answer S sha256Hex rest (prepared r round) (.applyInWorktree patch) =
    onRound S (prepared r round) fun round => toRunError (applyPatchInWorktree sha256Hex patch round) := rfl
  rw [hpatch]
  rcases onRound S (prepared r round) _ with ⟨e | _, r₁⟩
  · rfl
  dsimp only
  have hcommit : answer S sha256Hex rest r₁ .commitWorktreeRound = onRound S r₁ (commitWorktreeRound S.git) := rfl
  rw [Dialogue.serve_bind, hask, hcommit]
  rcases onRound S r₁ _ with ⟨e | _, r₂⟩
  · rfl
  dsimp only
  rw [Dialogue.serve_bind, Dialogue.serve_mapError, Dialogue.serve_bind, hask]
  rcases answer S sha256Hex rest r₂ .mergeRound with ⟨e | _, r₃⟩
  · rfl
  · rfl

theorem leftAlone_iff {e : RunError} : LeftAlone (.error e, r) ↔ Users r ∧ Disposed r :=
  ⟨fun h => ⟨h.main, h.disposed⟩, fun h => ⟨⟨e, rfl⟩, h.1, h.2⟩⟩

theorem leftAlone_discard_iff {e : RunError} (hround : r.round = some round) (hr : r.checkout = .inPlace)
    (hbranch : r.branch = true) (husers : Users r) :
    LeftAlone (.error e, (answer S sha256Hex rest r .discardRound).2) ↔ DiscardHandled S := by
  rw [leftAlone_iff, answer, hround]
  exact discardRound_spec round hr hbranch husers

theorem leftAlone_merge_iff {tip : Commit} (hround : r.round = some { round with tip := some tip })
    (hr : r.checkout = .inPlace) (hbranch : r.branch = true)
    (hfails : (afterMerge (answer S sha256Hex rest r .mergeRound)).1 ≠ .ok true) :
    LeftAlone (afterMerge (answer S sha256Hex rest r .mergeRound)) ↔ MergeHandled S round.mainPreRef tip := by
  have hmerge : answer S sha256Hex rest r .mergeRound = (toRunError (mergeRound S { round with tip := some tip } tip r).1,
      (mergeRound S { round with tip := some tip } tip r).2) := by
    rw [answer, hround]
    rfl
  rw [hmerge] at hfails ⊢
  rcases mergeRound_ends (S := S) { round with tip := some tip } tip hr hbranch with hok | ⟨⟨e, he⟩, hends⟩
  · rw [hok] at hfails
    exact absurd rfl hfails
  · rw [he]
    exact leftAlone_iff.trans hends

/-- **A failed apply leaves main alone and takes its round away** exactly if it fails at the patch or the commit and
the discard gets through, or in the merge because `HEAD` has moved or a path escapes and what is
done about it gets through. -/
theorem failure_left_alone_iff (hsetup : S.git.setup = .ok ()) (hprepare : prepareRound S.git = .ok round)
    (hfails : (applyIsolated S sha256Hex rest patch r).1 ≠ .ok true) :
    LeftAlone (applyIsolated S sha256Hex rest patch r) ↔ Handled S sha256Hex patch round := by
  rw [applyIsolated_eq hsetup hprepare, onRound_eq rfl] at hfails ⊢
  unfold Handled
  rcases hpatch : applyPatchInWorktree sha256Hex patch round with e | patched <;>
    simp only [hpatch, toRunError, Except.mapError] at hfails ⊢
  · exact leftAlone_discard_iff rfl rfl rfl (users_begun _).commanded
  rcases hcommit : S.git.commit patched.written patched.files with e | tip
  · have hcommitted : commitWorktreeRound S.git patched = .error e := by
      rw [commitWorktreeRound, hcommit]
      rfl
    rw [onRound_eq rfl, hcommitted]
    exact leftAlone_discard_iff rfl rfl rfl (users_begun _).commanded
  have hcommitted : commitWorktreeRound S.git patched = .ok { patched with tip := some tip } := by
    rw [commitWorktreeRound, hcommit]
    rfl
  rw [onRound_eq rfl, hcommitted] at hfails ⊢
  exact leftAlone_merge_iff rfl rfl rfl hfails

end Call

/-! ### A user at work -/

/-- An empty repository in which the round's clean-up would get through, a reset finds its commit, and the user commits a
file before the command of this number. -/
def userAtWork (git : Git) (moment : Nat) : Surroundings where
  git := git
  user n main := if n = moment then ⟨"5eed", (writeBytes ⟨"notes"⟩ "mine\n".toByteArray main.tree).2⟩ else main
  tipOid := "71b0"
  resetHard _ := .ok (.ok ⟨"8c5b", .empty⟩)
  resetMerge _ := .ok (.error "")
  bundlePath := ".nerve/scratch/main-recovery/round.bundle"
  utf8Path := true
  removes := false
  removesForced := true
  deletesBranch := true
  relocates := true
  records := true

def untouched : Repository := ⟨⟨"8c5b", .empty⟩, ⟨"8c5b", .empty⟩, 0, none, .absent, false⟩

/-- A repository as `emptyRepository`, that refuses the fast-forward. -/
def refusing : Git := { emptyRepository [] with fastForward := fun _ _ => .ok (.error "fatal: Not possible to fast-forward") }

/-- The same with a full disk when the round is to be merged. -/
def fullDisk : Git := { emptyRepository [] with merge := { soundGuards with availableMib := .ok 1 } }

def isolatedIn (S : Surroundings) : Except RunError Bool × Repository :=
  applyIsolated S sampleSha256Hex (sampleWorld sampleOutput (.lgtm "codex" "LGTM") .pass []) createText untouched

/-- **The user's commit is lost** if it comes before the fast-forward, and the checkout stays; and a full disk leaves the
checkout too. -/
theorem merge_failures_mishandled : ¬LeftAlone (isolatedIn (userAtWork refusing 8)) ∧
    ¬LeftAlone (isolatedIn (userAtWork fullDisk 0)) := by
  constructor
  · intro h
    have hhead : (isolatedIn (userAtWork refusing 8)).2.main.head = "8c5b" := rfl
    have huser : (isolatedIn (userAtWork refusing 8)).2.userMain.head = "5eed" := rfl
    rw [h.main, huser] at hhead
    exact absurd hhead (by decide)
  · intro h
    have hcheckout : (isolatedIn (userAtWork fullDisk 0)).2.checkout = .inPlace := rfl
    exact not_disposed hcheckout h.disposed

/-- The same where `HEAD` is found to have moved. -/
def moved : Git := { emptyRepository [] with merge := { soundGuards with headOid := .ok "5eed" } }

theorem moved_left_alone : LeftAlone (isolatedIn (userAtWork moved 3)) := by
  refine (failure_left_alone_iff rfl rfl fun h => by cases h).mpr ?_
  exact (⟨rfl, rfl, rfl, "5eed", rfl, rfl⟩ : MergeHandled (userAtWork moved 3) "8c5b" _)

end Nerve.Worktree.Failure
