import Nerve.Patch.Effects

/-!
# When a failed apply leaves the files alone

`apply` restores its snapshots in reverse order when an entry fails, and stops
at the first one it cannot restore. A snapshot cannot be restored where the run has turned its
path into a directory, by creating directories on the way to a path below it:
`apply_atomic_iff` says exactly when that loses something. Every file that the run changed before
the request that failed must be named, in the order of the snapshots, after the last path that the
run has made a directory; `Recoverable` says so of the patch and the tree it is applied to, and a
patch no path of which is above another is always so. The patch that creates `a/b` and then `a` is
not: the created `a/b` stays (`create_below_create_stays`). Nor is one that renames `a` to `z` and
then `y` to `a/b/`: the directory `a` is made, what is to be put at a path that asks for a directory
is refused, and `a` cannot be put back.
-/

namespace Nerve.Patch

open Nerve.FileTree

variable {sha256Hex : String → String}

/-! ### Snapshots -/

/-- The snapshot of a path that is no directory. -/
def FileSnapshot.of (t : FsTree) (path : PathBuf) : FileSnapshot where
  path := path
  state := match t.file path.loc with
    | some value => if path.endsInDir then .missing else .present value
    | none => .missing

theorem FileSnapshot.capture_eq {t : FsTree} {p : PathBuf} (hs : ensureSafeRelativePath p = .ok ())
    (hd : t.isDir p.loc = false) : capture t p = .ok (of t p) := by
  unfold capture of readBytes fsRead targetExists Tree.exists? Tree.file Tree.read
  unfold Tree.isDir at hd ⊢
  rw [hs]
  rcases hdir : p.endsInDir <;> rcases hn : t.node p.loc with _ | b | _ <;> rw [hn] at hd <;>
    first | rfl | cases hd

theorem FileSnapshot.restore_refines (t₀ t : FsTree) (p : PathBuf) :
    Refines ((of t₀ p).restore t) (t.serve [p.name.putBack t₀.file]) := by
  have hremove := removeFile_refines p t
  have hwrite (b : ByteArray) := writeBytes_refines p b t
  unfold restore of Name.putBack
  unfold Name.clear at hremove
  unfold Name.write at hwrite
  simp only [PathBuf.name_asksDir, PathBuf.name_loc] at hremove hwrite ⊢
  by_cases hdir : p.endsInDir = true <;> simp only [hdir, Bool.false_eq_true, if_false, if_true] at hremove hwrite ⊢
  · rcases t₀.file p.loc with _ | b
    · exact hremove
    · exact hremove
  · rcases t₀.file p.loc with _ | b
    · exact hremove
    · exact hwrite b

namespace NvPatch

/-- A patch that validates has all its snapshots taken. -/
theorem captureSnapshots_eq {p : NvPatch} {t : FsTree} (h : p.validate sha256Hex t false = .ok ()) :
    p.captureSnapshots t = .ok (p.changedFiles.map (FileSnapshot.of t)) := by
  have hcap : ∀ q ∈ p.changedFiles, FileSnapshot.capture t q = .ok (FileSnapshot.of t q) := by
    intro q hq
    have hd := not_isDir_of_validate h q.loc (List.mem_map_of_mem hq)
    obtain ⟨f, hf, hq⟩ := List.mem_flatMap.mp hq
    have hsafe := (FilePatch.validate_eq_ok.mp (validate_eq_ok.mp h f hf)).1
    exact FileSnapshot.capture_eq (FilePatch.ensureSafe_eq_ok.mp hsafe q hq) hd
  unfold captureSnapshots
  generalize p.changedFiles = qs at hcap
  induction qs with
  | nil => rfl
  | cons q qs ih =>
    rw [List.mapM_cons, hcap q (List.mem_cons_self ..), ih fun r hr => hcap r (List.mem_cons_of_mem _ hr)]
    rfl

/-- A patch that validates and whose requests are all served is applied. -/
theorem apply_of_serve {p : NvPatch} {t t' : FsTree} (hv : p.validate sha256Hex t false = .ok ())
    (hserve : t.serve p.requests = (.ok (), t')) :
    p.apply sha256Hex false t = (.ok ⟨p.id, p.changedFiles, false⟩, t') := by
  have happly := forEach_refines FilePatch.apply_refines p.files t
  rw [show p.files.flatMap FilePatch.requests = p.requests from rfl, hserve] at happly
  simp only [apply, hv, captureSnapshots_eq hv, Bool.false_eq_true, if_false,
    show forEach FilePatch.apply p.files t = _ from happly]

/-- Restoring the snapshots is putting the named locations back, last first. -/
theorem restoreSnapshots_refines (p : NvPatch) (t₀ t : FsTree) :
    Refines (restoreSnapshots (p.changedFiles.map (FileSnapshot.of t₀)) t)
      (t.serve (p.names.reverse.map (Name.putBack t₀.file))) := by
  have hr := @forEach_refines _ (fun q t => (FileSnapshot.of t₀ q).restore t) _
    (fun q t => FileSnapshot.restore_refines t₀ t q) p.changedFiles.reverse t
  have hloop : ∀ (qs : List PathBuf) (t : FsTree), forEach FileSnapshot.restore (qs.map (FileSnapshot.of t₀)) t =
      forEach (fun q t => (FileSnapshot.of t₀ q).restore t) qs t := by
    intro qs
    induction qs with
    | nil => exact fun _ => rfl
    | cons q qs ih =>
      intro t
      rw [List.map_cons, forEach, forEach, show forEach _ _ = forEach _ qs from funext ih]
  rw [restoreSnapshots, ← List.map_reverse, hloop, names, ← List.map_reverse, List.map_map,
    ← List.flatMap_pure_eq_map]
  exact hr

/-! ### The result -/

/-- The locations put back when the patch fails after `done`. -/
def restored (p : NvPatch) (done : List (Request String ByteArray)) : List (Loc String) :=
  FileTree.restored done p.names.reverse

/-- Whatever the run changed before the first request that something bars is put back. -/
def Recoverable (p : NvPatch) (t : FsTree) : Prop :=
  ∀ done r rest, p.requests = done ++ r :: rest → t.Serves done → t.BarsAfter done r →
    ∀ q, overlay t.file (changes done) q ≠ t.file q → q ∈ p.restored done

/-- What a failed apply of a patch that validates leaves. -/
theorem file_of_apply_error {p : NvPatch} {t t' t'' : FsTree} {done : List (Request String ByteArray)}
    {r : Except PatchError ApplyReport} {k : IoErrorKind} (hv : p.validate sha256Hex t false = .ok ())
    (hdone : t.serve done = (.ok (), t')) (hserve : t.serve p.requests = (.error k, t'))
    (h : p.apply sha256Hex false t = (r, t'')) :
    (∃ e, r = .error e) ∧ t''.file = fun q =>
      if q ∈ p.restored done then t.file q else overlay t.file (changes done) q := by
  have happly := forEach_refines FilePatch.apply_refines p.files t
  rw [show p.files.flatMap FilePatch.requests = p.requests from rfl, hserve] at happly
  obtain ⟨e, he⟩ := happly
  have hrestore := restoreSnapshots_refines p t t'
  have hnames : ∀ n ∈ p.names.reverse, t.isDir n.loc = false := by
    intro n hn
    obtain ⟨path, hpath, rfl⟩ := List.mem_map.mp (List.mem_reverse.mp hn)
    exact not_isDir_of_validate hv path.loc (List.mem_map_of_mem hpath)
  have hput := Tree.file_serve_putBack hnames hdone
  rw [(Tree.serve_ok hdone).1] at hput
  simp only [apply, hv, captureSnapshots_eq hv, he, Bool.false_eq_true, if_false] at h
  rcases hx : t'.serve (p.names.reverse.map (Name.putBack t.file)) with ⟨k' | ⟨⟩, t₂⟩
  · rw [hx] at hrestore hput
    obtain ⟨e', he'⟩ := hrestore
    rw [he'] at h
    cases h
    exact ⟨⟨_, rfl⟩, hput⟩
  · rw [hx] at hrestore hput
    rw [show restoreSnapshots _ t' = _ from hrestore] at h
    cases h
    exact ⟨⟨_, rfl⟩, hput⟩

end NvPatch

/-- **Atomicity**: a failed apply leaves every file as it was, exactly when the
patch does not validate or is recoverable. -/
theorem apply_atomic_iff (sha256Hex : String → String) (p : NvPatch) (t : FsTree) :
    (∀ e t', p.apply sha256Hex false t = (.error e, t') → t'.file = t.file) ↔
      (p.validate sha256Hex t false = .ok () → p.Recoverable t) := by
  constructor
  · intro h hv done r rest hsplit hserves hbars q hq
    obtain ⟨t', ht'⟩ := Tree.exists_serve_iff.mpr hserves
    obtain ⟨k, hk⟩ := Tree.serve_stop rest ht' ((Tree.bars_iff_after ht' r).mpr hbars)
    rw [← hsplit] at hk
    rcases ha : p.apply sha256Hex false t with ⟨result, t''⟩
    obtain ⟨⟨e, rfl⟩, hfile⟩ := NvPatch.file_of_apply_error hv ht' hk ha
    rw [h e t'' ha] at hfile
    by_contra hmem
    have := congrFun hfile q
    rw [if_neg hmem] at this
    exact hq this.symm
  · intro h e t'' ha
    by_cases hv : p.validate sha256Hex t false = .ok ()
    · rcases hserve : t.serve p.requests with ⟨k | ⟨⟩, t'⟩
      · obtain ⟨done, r, rest, hsplit, hdone, hbars⟩ := Tree.serve_error hserve
        obtain ⟨-, hfile⟩ := NvPatch.file_of_apply_error hv hdone hserve ha
        have hrec := h hv done r rest hsplit (Tree.exists_serve_iff.mp ⟨t', hdone⟩) hbars
        rw [hfile]
        funext q
        split_ifs with hq
        · rfl
        · by_contra hne
          exact hq (hrec q hne)
      · rw [NvPatch.apply_of_serve hv hserve] at ha
        cases ha
    · rcases hx : p.validate sha256Hex t false with e' | ⟨⟨⟩⟩
      · simp only [NvPatch.apply, hx] at ha
        cases ha
        rfl
      · exact absurd hx hv

theorem NvPatch.asks_of_mem_requests {p : NvPatch} {r : Request String ByteArray} (h : r ∈ p.requests) :
    ∃ path ∈ p.changedFiles, path.name.Asks r := by
  obtain ⟨f, hf, hr⟩ := List.mem_flatMap.mp h
  obtain ⟨path, hpath, hasks⟩ := FilePatch.asks_of_mem_requests hr
  exact ⟨path, List.mem_flatMap.mpr ⟨f, hf, hpath⟩, hasks⟩

/-- A patch no path of which is above another is recoverable. -/
theorem NvPatch.recoverable_of_unrelated {p : NvPatch} {t : FsTree}
    (h : ∀ u ∈ p.locs, ∀ q ∈ p.locs, ¬ Above u q) : p.Recoverable t := by
  intro done r rest hsplit _ _ q hq
  have hmem : ∀ r' ∈ done, r' ∈ p.requests := fun r' hr' => hsplit ▸ List.mem_append_left _ hr'
  -- no path is made a directory, so that every file that is named is put back
  have hall : (p.names.reverse.takeWhile fun n => ¬ Makes done n.loc) = p.names.reverse := by
    refine List.takeWhile_eq_self_iff.mpr fun n hn => ?_
    obtain ⟨path, hpath, rfl⟩ := List.mem_map.mp (List.mem_reverse.mp hn)
    simp only [decide_eq_true_eq]
    rintro ⟨r', hr', hmakes⟩
    obtain ⟨path', hpath', hasks⟩ := asks_of_mem_requests (hmem r' hr')
    exact h _ (List.mem_map_of_mem hpath) _ (List.mem_map_of_mem hpath') (hasks.above hmakes)
  by_contra hq'
  refine hq (overlay_of_forall_ne fun c hc hloc => hq' ?_)
  obtain ⟨r', hr', hc⟩ := List.mem_filterMap.mp hc
  obtain ⟨path, hpath, hasks⟩ := asks_of_mem_requests (hmem r' hr')
  obtain ⟨hplain, hpathLoc⟩ := hasks.change hc
  rw [NvPatch.restored, FileTree.restored, hall]
  refine List.mem_map.mpr ⟨path.name, List.mem_filter.mpr ⟨?_, by rw [hplain]; rfl⟩, hpathLoc.symm.trans hloc⟩
  exact List.mem_reverse.mpr (List.mem_map_of_mem hpath)

/-! ### Patches that are not recoverable -/

/-- Create `a/b`, then create `a`. -/
def createBelowCreate : NvPatch where
  id := "patch"
  baseCommit := none
  files := [.create sampleSha256Hex ⟨"a/b"⟩ "text\n", .create sampleSha256Hex ⟨"a"⟩ "text\n"]

/-- The second entry fails, its snapshot cannot be restored, and `a/b` stays. -/
theorem create_below_create_stays :
    ¬ ∀ (sha256Hex : String → String) (p : NvPatch) (t : FsTree) (e : PatchError) (t' : FsTree),
      p.apply sha256Hex false t = (.error e, t') → t'.file = t.file := by
  intro h
  have hv : createBelowCreate.validate sampleSha256Hex Tree.empty false = .ok () := by decide
  rcases ha : createBelowCreate.apply sampleSha256Hex false Tree.empty with ⟨r, t'⟩
  have hr : (createBelowCreate.apply sampleSha256Hex false Tree.empty).1.isOk = false := by decide
  have hf : ((createBelowCreate.apply sampleSha256Hex false Tree.empty).2.file ["a", "b"]).isSome := by decide
  rcases r with e | r
  · rw [ha, h sampleSha256Hex createBelowCreate Tree.empty e t' ha] at hf
    exact absurd hf (by decide)
  · rw [ha] at hr
    cases hr

/-- Rename `a` to `z`, then `y` to `a/b/`. -/
def renameBelowRename : NvPatch where
  id := "patch"
  baseCommit := none
  files := [.rename sampleSha256Hex ⟨"a"⟩ ⟨"z"⟩ "text\n" "text\n",
    .rename sampleSha256Hex ⟨"y"⟩ ⟨"a/b/"⟩ "line\n" "line\n"]

/-- The file `a` is lost. -/
example :
    let t := (writeString ⟨"y"⟩ "line\n" (writeString ⟨"a"⟩ "text\n" Tree.empty).2).2
    renameBelowRename.validate sampleSha256Hex t false = .ok () ∧
      (renameBelowRename.apply sampleSha256Hex false t).1 = .error (.rollbackFailed
        "io error for `a/b/`: Not a directory (os error 20)" "io error for `a`: Is a directory (os error 21)") ∧
      (renameBelowRename.apply sampleSha256Hex false t).2.file ["a"] = none := by
  decide +kernel

end Nerve.Patch
