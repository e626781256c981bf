import Nerve.Library.LinkedTree
import Nerve.Patch.Model

/-!
# Where a checked path leads in a tree with links

`ensure_safe_relative_path` refuses what a path may not say, and then resolves the links of the
nearest part of the path that exists and refuses what comes out of the working
directory. `write_bytes` and `remove_file` go by the path again, and every link on the way but the
last component is followed once more.

`affected` collects the locations the two change: the directories created, the directory
the temporary file is made in, and the entry that is renamed over or unlinked. `mem_affected_iff` says
which these are. The check keeps them in the working directory unless the path leads to something
that exists, from a directory that is outside (`inside_of_check`); and it looks for `.git` and
`.nerve` in the first component only, so that a link to either leads in. `affected_confined_iff` is the
condition under which neither happens.

With no link on the path the check is the one of its text (`ensureSafeIn_of_plain`), which is the check
of a tree without links, and what is changed is confined (`landsInside_of_plain`).

A case-sensitive file system, with nothing else at work in it.
-/

namespace Nerve.Patch

open Nerve.FileTree Nerve.LinkedTree

/-- Directories, files and links. -/
abbrev LinkedFs := Linked String ByteArray

/-! ### Paths as the operating system reads them -/

namespace PathBuf

/-- The components the operating system follows. -/
def steps (p : PathBuf) : List (Step String) :=
  p.components.filterMap fun
    | .parentDir => some .up
    | .normal name => some (.name name)
    | _ => none

def isAbsolute (p : PathBuf) : Bool := p.components.head? = some .rootDir

/-- The path as it is spelled. -/
def spelled (p : PathBuf) : Path String :=
  ⟨p.isAbsolute, p.steps ++ if p.endsInDir then [.stay] else []⟩

/-- `Path::join`, with a relative path. -/
def join (cwd relative : PathBuf) : Path String :=
  ⟨cwd.isAbsolute, cwd.steps ++ relative.spelled.steps⟩

/-- `Path::parent` of the joined path. A path without components has no parent, and
the empty path stands in for it. -/
def joinParent (cwd relative : PathBuf) : Path String :=
  match cwd.steps ++ relative.steps with
  | [] => ⟨false, []⟩
  | s :: rest => ⟨cwd.isAbsolute, (s :: rest).dropLast⟩

end PathBuf

/-! ### The check -/

inductive LinkedError where
  | refused (e : PatchError)
  | io (path : Path String) (source : Failure)
  deriving DecidableEq, Repr

section Operations

variable (limit : ℕ) (t : LinkedFs) (here : Loc String)

/-- `Path::canonicalize`. The empty path is not found. -/
def canonicalize (p : PathBuf) : Except Failure (Loc String) :=
  if p.text.isEmpty then .error (.io .notFound) else resolve t limit here p.spelled

/-- `Path::exists`, of a path from the root: links are followed. -/
def pathExists (steps : List (Step String)) : Bool :=
  match walk t limit [] steps with
  | .ok _ => true
  | .error _ => false

/-- The nearest part of a path that exists, both with the last component first. -/
def existingAncestorRev : List (Step String) → List (Step String)
  | [] => []
  | s :: above => if pathExists limit t (above.reverse ++ [s]) then s :: above else existingAncestorRev above

def existingAncestor (steps : List (Step String)) : List (Step String) :=
  (existingAncestorRev limit t steps.reverse).reverse

/-- `cwd.join(relative)`, with the working directory canonical. -/
def target (cwd : Loc String) (relative : PathBuf) : List (Step String) :=
  cwd.map .name ++ relative.spelled.steps

def ensureSafeRelativePathIn (cwd relative : PathBuf) : Except LinkedError Unit :=
  match ensureSafeRelativePath relative with
  | .error e => .error (.refused e)
  | .ok () =>
    match canonicalize limit t here cwd with
    | .error source => .error (.io cwd.spelled source)
    | .ok c =>
      let ancestor :=
        if pathExists limit t (target c relative) then target c relative
        else existingAncestor limit t (c.map Step.name ++ relative.steps).dropLast
      match walk t limit [] ancestor with
      | .error source => .error (.io ⟨true, ancestor⟩ source)
      | .ok a =>
        if c.isPrefixOf a then .ok ()
        else .error (.refused (.unsafePath relative "target resolves outside cwd"))

/-! ### What follows it -/

/-- An error at the temporary file, whose name is fresh, names its directory. -/
def writeBytesIn (cwd relative : PathBuf) (value : ByteArray) (disk : Disk String ByteArray) :
    Except LinkedError Unit × Disk String ByteArray :=
  let path := cwd.join relative
  let parent := cwd.joinParent relative
  match createDirAll limit (parent.start here) parent.steps disk with
  | (.error source, disk₁) => (.error (.io parent source), disk₁)
  | (.ok (), disk₁) =>
    match stage limit (parent.start here) parent.steps disk₁ with
    | .error source => (.error (.io parent source), disk₁)
    | .ok disk₂ =>
      match place limit (path.start here) path.steps value disk₂ with
      | .error source => (.error (.io relative.spelled source), disk₂)
      | .ok disk₃ => (.ok (), disk₃)

def removeFileIn (cwd relative : PathBuf) (disk : Disk String ByteArray) :
    Except LinkedError Unit × Disk String ByteArray :=
  let path := cwd.join relative
  match unlink limit (path.start here) path.steps disk with
  | .ok disk₁ => (.ok (), disk₁)
  | .error (.io .notFound) | .error (.io .notADirectory) => (.ok (), disk)
  | .error source => (.error (.io relative.spelled source), disk)

/-- The locations that a write or a removal at the path changes. -/
def affected (cwd relative : PathBuf) (value : ByteArray) : List (Loc String) :=
  (writeBytesIn limit here cwd relative value ⟨t, []⟩).2.noted ++
    (removeFileIn limit here cwd relative ⟨t, []⟩).2.noted

/-! ### Confinement -/

/-- At or below `.git` or `.nerve` of the working directory, or what these are links to. -/
def Reserved (c p : Loc String) : Prop :=
  ∃ name ∈ [".git", ".nerve"], c ++ [name] <+: p ∨
    ∃ r, walk t limit [] ((c ++ [name]).map .name) = .ok r ∧ r <+: p

/-- In the working directory `c`, and not reserved. -/
def Confined (c p : Loc String) : Prop := c <+: p ∧ ¬ Reserved limit t c p

/-- The directory the last component of the path goes into is at `a`, or is `missing` there. -/
def Enters (cwd relative : PathBuf) (a : Loc String) (missing : List String) : Prop :=
  Landing t limit ((cwd.joinParent relative).start here) (cwd.joinParent relative).steps a missing

/-- The entry of the directory `d` that the path replaces or removes. A directory never is. -/
def Replaces (relative : PathBuf) (d p : Loc String) : Prop :=
  ∃ name, relative.spelled.steps.getLast? = some (.name name) ∧ p = d ++ [name] ∧ t.isDir p = false

/-- The path leads into the working directory `c`, and not to what is reserved there. -/
structure LandsInside (cwd relative : PathBuf) (c : Loc String) : Prop where
  /-- What exists is reached from a directory in `c`. -/
  inside : ∀ a missing, Enters limit t here cwd relative a missing →
    pathExists limit t (target c relative) = true → c <+: a
  directory : ∀ a missing, Enters limit t here cwd relative a missing → ¬ Reserved limit t c (a ++ missing)
  entry : ∀ a missing p, Enters limit t here cwd relative a missing → Replaces t relative (a ++ missing) p →
    ¬ Reserved limit t c p

end Operations

/-! ### The spelling of a path -/

/-- What the last piece of a path says is among its components. -/
theorem component_mem {p : PathBuf} {piece : List Char} {c : Component}
    (hp : (p.text.toList.splitOn '/').getLast? = some piece) (hc : component piece = some c) : c ∈ p.components := by
  have hmem {pieces : List (List Char)} (h : piece ∈ pieces) : c ∈ pieces.filterMap component :=
    List.mem_filterMap.mpr ⟨piece, h, hc⟩
  unfold PathBuf.components
  split
  · next h => rw [h] at hp; cases hp
  · next h =>
    rw [h] at hp
    cases hp
    cases hc
  · next rest _ h =>
    rw [h] at hp
    rcases List.mem_cons.mp (List.mem_of_getLast? hp) with rfl | hm
    · cases hc
    · exact List.mem_cons_of_mem _ (hmem hm)
  · next rest h =>
    rw [h] at hp
    rcases List.mem_cons.mp (List.mem_of_getLast? hp) with rfl | hm
    · cases hc
    · exact List.mem_cons_of_mem _ (hmem hm)
  · exact hmem (List.mem_of_getLast? hp)

/-- What the lexical checks let pass has only names in it. -/
theorem components_of_safe {relative : PathBuf} (h : ensureSafeRelativePath relative = .ok ()) :
    ∀ c ∈ relative.components, c ≠ .parentDir ∧ c ≠ .rootDir := by
  intro c hc
  unfold ensureSafeRelativePath at h
  split_ifs at h with hempty
  split at h
  · cases h
  · cases h
  · next hnone => simpa [not_or] using List.find?_eq_none.mp hnone c hc

theorem steps_of_safe {relative : PathBuf} (h : ensureSafeRelativePath relative = .ok ()) :
    relative.steps = relative.loc.map .name := by
  rw [PathBuf.steps, PathBuf.loc, List.map_filterMap]
  refine List.filterMap_congr fun c hc => ?_
  obtain ⟨h₁, h₂⟩ := components_of_safe h c hc
  cases c <;> simp_all

/-- A path that names nothing ends in a directory. -/
theorem endsInDir_of_safe {relative : PathBuf} (h : ensureSafeRelativePath relative = .ok ())
    (hnil : relative.loc = []) : relative.endsInDir = true := by
  unfold PathBuf.endsInDir
  split
  · next piece hp =>
    rw [Option.isNone_iff_eq_none]
    by_contra hne
    obtain ⟨c, hc⟩ := Option.ne_none_iff_exists'.mp hne
    have hmem := component_mem hp hc
    obtain ⟨h₁, h₂⟩ := components_of_safe h c hmem
    cases c with
    | rootDir => exact h₂ rfl
    | parentDir => exact h₁ rfl
    | curDir =>
      unfold component at hc
      split at hc <;> simp at hc
    | normal name =>
      have hin : name ∈ relative.loc := List.mem_filterMap.mpr ⟨_, hmem, rfl⟩
      rw [hnil] at hin
      cases hin
  · next hp =>
    rw [List.getLast?_eq_none_iff] at hp
    exact absurd hp (List.splitOn_ne_nil _ _)

/-- A checked path ends in a name, or asks for a directory. -/
theorem spelled_of_safe {relative : PathBuf} (h : ensureSafeRelativePath relative = .ok ()) :
    (∃ names name, relative.loc = names ++ [name] ∧
      relative.spelled.steps = names.map Step.name ++ [Step.name name]) ∨
    ∃ steps, relative.spelled.steps = steps ++ [Step.stay] := by
  by_cases hdir : relative.endsInDir = true
  · exact Or.inr ⟨relative.steps, by simp [PathBuf.spelled, hdir]⟩
  · rcases List.eq_nil_or_concat relative.loc with hnil | ⟨names, name, hloc⟩
    · exact absurd (endsInDir_of_safe h hnil) hdir
    · rw [List.concat_eq_append] at hloc
      exact Or.inl ⟨names, name, hloc, by simp [PathBuf.spelled, hdir, steps_of_safe h, hloc]⟩

/-! ### Where the path enters -/

section Enters

variable {limit : ℕ} {t : LinkedFs} {here : Directory t} {cwd relative : PathBuf} {c : Loc String}

/-- A path leads where its components lead. -/
theorem walk_of_spelled (pre : List (Step String)) {p : PathBuf} {l a : Loc String}
    (h : walk t limit l (pre ++ p.spelled.steps) = .ok a) : walk t limit l (pre ++ p.steps) = .ok a := by
  by_cases hdir : p.endsInDir = true
  · rw [PathBuf.spelled, if_pos hdir, ← List.append_assoc] at h
    exact walk_of_stay h
  · rwa [PathBuf.spelled, if_neg hdir, List.append_nil] at h

/-- The components of the working directory lead to it, and it is no link. -/
theorem walk_of_canonicalize (hc : canonicalize limit t here.1 cwd = .ok c) :
    walk t limit (cwd.spelled.start here.1) cwd.steps = .ok c ∧ Direct t c := by
  unfold canonicalize at hc
  split_ifs at hc
  have hdirect : Direct t c := walk_direct (fun _ => by rw [cwd.spelled.start_isDir here.2]; simp) hc
  exact ⟨by simpa using walk_of_spelled [] hc, hdirect⟩

/-- The path is entered by names from somewhere. -/
theorem joinParent_split (hs : ensureSafeRelativePath relative = .ok ())
    (hc : canonicalize limit t here.1 cwd = .ok c) :
    ∃ found, ∃ names : List String, ∃ m, (cwd.joinParent relative).steps = found ++ names.map Step.name ∧
      walk t limit ((cwd.joinParent relative).start here.1) found = .ok m := by
  obtain ⟨hwalk, -⟩ := walk_of_canonicalize hc
  rw [PathBuf.joinParent, steps_of_safe hs]
  split
  · exact ⟨[], [], here.1, rfl, by simp [Path.start, walk_nil, Tree.exists?, here.2]⟩
  · next s rest hsteps =>
    rcases List.eq_nil_or_concat relative.loc with hnil | ⟨names, name, hloc⟩
    · rw [hnil, List.map_nil, List.append_nil] at hsteps
      rw [hsteps, ← List.dropLast_append_getLast (List.cons_ne_nil s rest)] at hwalk
      obtain ⟨m, hm⟩ := walk_left hwalk
      exact ⟨(s :: rest).dropLast, [], m, by simp, hm⟩
    · rw [hloc, List.concat_eq_append, List.map_append, ← List.append_assoc] at hsteps
      refine ⟨cwd.steps, names, c, ?_, hwalk⟩
      rw [← hsteps]
      simp

/-- The parent of a path that ends in a name. -/
theorem joinParent_eq (cwd : PathBuf) (hs : ensureSafeRelativePath relative = .ok ()) {names : List String} {name : String}
    (hloc : relative.loc = names ++ [name]) :
    cwd.joinParent relative = ⟨cwd.isAbsolute, cwd.steps ++ names.map Step.name⟩ := by
  have hsteps : cwd.steps ++ relative.steps = cwd.steps ++ names.map Step.name ++ [Step.name name] := by
    rw [steps_of_safe hs, hloc]
    simp
  unfold PathBuf.joinParent
  split
  · next h => rw [hsteps] at h; simp at h
  · next s rest h => rw [← h, hsteps, List.dropLast_concat]

/-- With a name at the end the path goes on from where it is entered. -/
theorem join_eq (here : Directory t) (cwd : PathBuf) (hs : ensureSafeRelativePath relative = .ok ())
    {names : List String} {name : String}
    (hloc : relative.loc = names ++ [name])
    (hspelled : relative.spelled.steps = names.map Step.name ++ [Step.name name]) :
    (cwd.join relative).start here.1 = (cwd.joinParent relative).start here.1 ∧
      (cwd.join relative).steps = (cwd.joinParent relative).steps ++ [Step.name name] ∧
      (cwd.joinParent relative).steps = cwd.steps ++ names.map Step.name ∧
      (cwd.joinParent relative).start here.1 = cwd.spelled.start here.1 := by
  have hparent := joinParent_eq cwd hs hloc
  refine ⟨by rw [hparent]; rfl, ?_, by rw [hparent], by rw [hparent]; rfl⟩
  rw [hparent, PathBuf.join, hspelled, List.append_assoc]

/-- From the working directory names lead to where the path is entered, with links left to follow. -/
theorem Enters.reached (hs : ensureSafeRelativePath relative = .ok ())
    (hc : canonicalize limit t here.1 cwd = .ok c) {names : List String} {name : String}
    (hloc : relative.loc = names ++ [name]) {a : Loc String} {missing : List String}
    (h : Enters limit t here.1 cwd relative a missing) :
    ∃ reached, names = reached ++ missing ∧ ∃ j ≤ limit, walk t j c (reached.map Step.name) = .ok a := by
  obtain ⟨hwalk, -⟩ := walk_of_canonicalize hc
  unfold Enters at h
  rw [joinParent_eq cwd hs hloc] at h
  obtain ⟨reached, rfl, hreached⟩ := Landing.of_walk h hwalk
  obtain ⟨j, hj, hmore⟩ := walk_append hwalk
  exact ⟨reached, rfl, j, hj, (hmore _).symm.trans hreached⟩

theorem existingAncestor_concat (steps : List (Step String)) (s : Step String) :
    existingAncestor limit t (steps ++ [s]) =
      if pathExists limit t (steps ++ [s]) then steps ++ [s] else existingAncestor limit t steps := by
  simp only [existingAncestor, List.reverse_append, List.reverse_singleton, List.singleton_append,
    existingAncestorRev, List.reverse_reverse]
  split_ifs <;> simp

/-- The path is entered where the check finds its nearest part that exists, unless the whole of it
exists. -/
theorem existingAncestor_landing {steps : List (Step String)} {a : Loc String} {missing : List String}
    (h : Landing t limit [] steps a missing) : walk t limit [] (existingAncestor limit t steps) = .ok a := by
  induction missing using List.reverseRecOn generalizing steps with
  | nil =>
    have hwalk := h.walk_of_nil
    rcases List.eq_nil_or_concat steps with rfl | ⟨init, s, rfl⟩
    · exact hwalk
    · rw [List.concat_eq_append] at hwalk ⊢
      rwa [existingAncestor_concat, if_pos (by simp [pathExists, hwalk])]
  | append_singleton missing n ih =>
    have hwalk := h.walk_of_ne_nil (by simp)
    have hland := h
    obtain ⟨found, rfl, -⟩ := h
    rw [List.map_append, List.map_singleton, ← List.append_assoc] at hwalk hland ⊢
    rw [existingAncestor_concat, if_neg (by rw [pathExists, hwalk]; simp)]
    rcases landing_concat.mp hland with ⟨h, -⟩ | ⟨names, hnames, hland', -⟩
    · simp at h
    · obtain ⟨rfl, -⟩ := List.append_inj' hnames rfl
      exact ih hland'

/-! ### What is changed -/

/-- Where the path is entered the write makes what is missing, works in the directory, and replaces
the entry. -/
theorem mem_noted_write (hs : ensureSafeRelativePath relative = .ok ())
    (hc : canonicalize limit t here.1 cwd = .ok c) {a : Loc String} {missing : List String}
    (h : Enters limit t here.1 cwd relative a missing) (value : ByteArray) (p : Loc String) :
    p ∈ (writeBytesIn limit here.1 cwd relative value ⟨t, []⟩).2.noted ↔
      p ∈ nested a missing ∨ p = a ++ missing ∨ Replaces t relative (a ++ missing) p := by
  obtain ⟨found, names, m, hsteps, hfound⟩ := joinParent_split hs hc
  have hstart := (cwd.joinParent relative).start_isDir here.2
  unfold Enters at h
  rw [hsteps] at h
  obtain ⟨disk₁, hmk, hmade⟩ := createDirAll_landing ⟨t, []⟩ hstart hfound h
  have hwalk := hmade.walk_eq h
  have hend := hmade.node_end h
  have hnoted : disk₁.noted = nested a missing := by simpa using hmade.noted
  rw [← hsteps] at hmk hwalk
  have hstage : stage limit ((cwd.joinParent relative).start here.1) (cwd.joinParent relative).steps disk₁ =
      .ok ⟨disk₁.tree, nested a missing ++ [a ++ missing]⟩ := by
    rw [stage, hwalk, ← hnoted]
    simp [Tree.isDir_iff.mpr hend]
  have hentry (name : String) :
      disk₁.tree.isDir (a ++ missing ++ [name]) = t.isDir (a ++ missing ++ [name]) := by
    rw [Tree.isDir, hmade.node_inside, Tree.isDir]
  rcases spelled_of_safe hs with ⟨names', name, hloc, hspelled⟩ | ⟨steps, hspelled⟩
  · obtain ⟨hjoin, hjoinSteps, -, -⟩ := join_eq here cwd hs hloc hspelled
    have hlast : relative.spelled.steps.getLast? = some (.name name) := by rw [hspelled]; simp
    have hreplaces : Replaces t relative (a ++ missing) p ↔
        p = a ++ missing ++ [name] ∧ t.isDir (a ++ missing ++ [name]) = false := by
      constructor
      · rintro ⟨name', hname, rfl, hdir⟩
        obtain rfl : name = name' := by simpa [hlast] using hname
        exact ⟨rfl, hdir⟩
      · rintro ⟨rfl, hdir⟩
        exact ⟨name, hlast, rfl, hdir⟩
    rw [hreplaces]
    by_cases hdir : t.isDir (a ++ missing ++ [name]) = true
    · obtain ⟨e, he⟩ := place_dir ⟨disk₁.tree, nested a missing ++ [a ++ missing]⟩ hwalk
        (by rw [hentry, hdir]) value
      simp only [writeBytesIn, hmk, hstage, hjoin, hjoinSteps, he, hdir]
      simp
    · rw [Bool.not_eq_true] at hdir
      obtain ⟨t', ht'⟩ := place_name ⟨disk₁.tree, nested a missing ++ [a ++ missing]⟩ hwalk hend
        (by rw [hentry, hdir]) value
      simp only [writeBytesIn, hmk, hstage, hjoin, hjoinSteps, ht', hdir]
      simp
  · have hreplaces : ¬ Replaces t relative (a ++ missing) p := by
      rintro ⟨name, hname, -⟩
      simp [hspelled] at hname
    have hjoin : (cwd.join relative).steps = cwd.steps ++ steps ++ [Step.stay] := by
      rw [PathBuf.join, hspelled, List.append_assoc]
    obtain ⟨e, he⟩ := place_stay (k := limit) (l := (cwd.join relative).start here.1)
      ⟨disk₁.tree, nested a missing ++ [a ++ missing]⟩ (cwd.steps ++ steps) value
    simp only [writeBytesIn, hmk, hstage, hjoin, he]
    simp [hreplaces]

/-- Where the path cannot be entered the write changes nothing. -/
theorem noted_write_eq_nil (hs : ensureSafeRelativePath relative = .ok ())
    (hc : canonicalize limit t here.1 cwd = .ok c)
    (h : ∀ a missing, ¬ Enters limit t here.1 cwd relative a missing) (value : ByteArray) :
    (writeBytesIn limit here.1 cwd relative value ⟨t, []⟩).2.noted = [] := by
  obtain ⟨found, names, m, hsteps, hfound⟩ := joinParent_split hs hc
  have hstart := (cwd.joinParent relative).start_isDir here.2
  unfold Enters at h
  rw [hsteps] at h
  rcases createDirAll_cases ⟨t, []⟩ hstart hfound names with ⟨a, missing, -, hland, -⟩ | ⟨-, e, he⟩
  · exact absurd hland (h a missing)
  · rw [← hsteps] at he
    simp only [writeBytesIn, he]

/-- What is removed is what a write would replace. -/
theorem removed_replaces (hs : ensureSafeRelativePath relative = .ok ()) {p : Loc String}
    (hp : p ∈ (removeFileIn limit here.1 cwd relative ⟨t, []⟩).2.noted) :
    ∃ a, Enters limit t here.1 cwd relative a [] ∧ Replaces t relative a p := by
  have hunlink : ∃ disk', unlink limit ((cwd.join relative).start here.1) (cwd.join relative).steps ⟨t, []⟩ =
      .ok disk' ∧ p ∈ disk'.noted := by
    unfold removeFileIn at hp
    dsimp only at hp
    split at hp
    · next disk' h => exact ⟨disk', h, hp⟩
    all_goals cases hp
  obtain ⟨disk', hok, hp⟩ := hunlink
  rcases spelled_of_safe hs with ⟨names, name, hloc, hspelled⟩ | ⟨steps, hspelled⟩
  · obtain ⟨hjoin, hjoinSteps, -, -⟩ := join_eq here cwd hs hloc hspelled
    rw [hjoin, hjoinSteps] at hok
    obtain ⟨name', d, hname, hwalk, hdir, hnot, hnoted⟩ := unlink_ok hok
    obtain rfl : name = name' := by simpa using hname
    obtain rfl : p = d ++ [name] := by simpa [hnoted] using hp
    exact ⟨d, ⟨_, by simp, hwalk, hdir, by simp⟩, name, by rw [hspelled]; simp, rfl, hnot⟩
  · rw [PathBuf.join, hspelled, ← List.append_assoc] at hok
    obtain ⟨name, d, hname, -⟩ := unlink_ok hok
    cases hname

theorem mem_affected_iff (hs : ensureSafeRelativePath relative = .ok ())
    (hc : canonicalize limit t here.1 cwd = .ok c) (value : ByteArray) (p : Loc String) :
    p ∈ affected limit t here.1 cwd relative value ↔ ∃ a missing, Enters limit t here.1 cwd relative a missing ∧
      (p ∈ nested a missing ∨ p = a ++ missing ∨ Replaces t relative (a ++ missing) p) := by
  rw [affected, List.mem_append]
  constructor
  · rintro (hp | hp)
    · by_cases h : ∃ a missing, Enters limit t here.1 cwd relative a missing
      · obtain ⟨a, missing, h⟩ := h
        exact ⟨a, missing, h, (mem_noted_write hs hc h value p).mp hp⟩
      · simp only [not_exists] at h
        rw [noted_write_eq_nil hs hc h] at hp
        cases hp
    · obtain ⟨a, h, hr⟩ := removed_replaces hs hp
      exact ⟨a, [], h, Or.inr (Or.inr (by simpa using hr))⟩
  · rintro ⟨a, missing, h, hp⟩
    exact Or.inl ((mem_noted_write hs hc h value p).mpr hp)

/-! ### Inside the working directory -/

theorem Reserved.mono {p q : Loc String} (h : Reserved limit t c p) (hpq : p <+: q) : Reserved limit t c q := by
  obtain ⟨name, hname, hp | ⟨r, hr, hp⟩⟩ := h
  · exact ⟨name, hname, Or.inl (hp.trans hpq)⟩
  · exact ⟨name, hname, Or.inr ⟨r, hr, hp.trans hpq⟩⟩

/-- The check, in terms of where it looks. -/
theorem ensureSafeIn_ok (hs : ensureSafeRelativePathIn limit t here.1 cwd relative = .ok ()) :
    ensureSafeRelativePath relative = .ok () ∧ ∀ c, canonicalize limit t here.1 cwd = .ok c →
      (∀ a, walk t limit [] (target c relative) = .ok a → c <+: a) ∧
      (pathExists limit t (target c relative) = false →
        ∀ a, walk t limit [] (existingAncestor limit t (c.map Step.name ++ relative.steps).dropLast) = .ok a →
          c <+: a) := by
  unfold ensureSafeRelativePathIn at hs
  split at hs
  · cases hs
  · next hlex =>
    refine ⟨hlex, fun c hc => ?_⟩
    rw [hc] at hs
    dsimp only at hs
    constructor
    · intro a ha
      have hx : pathExists limit t (target c relative) = true := by rw [pathExists, ha]
      rw [if_pos hx, ha] at hs
      dsimp only at hs
      split_ifs at hs with hpre
      exact List.isPrefixOf_iff_prefix.mp hpre
    · intro hx a ha
      rw [if_neg (by simp [hx]), ha] at hs
      dsimp only at hs
      split_ifs at hs with hpre
      exact List.isPrefixOf_iff_prefix.mp hpre

/-- A path that names nothing leads to the working directory. -/
theorem pathExists_of_nil (hs : ensureSafeRelativePath relative = .ok ()) (hnil : relative.loc = [])
    (hdir : t.node c = some .dir) : pathExists limit t (target c relative) = true := by
  have hstay : relative.spelled.steps = [.stay] := by
    rw [PathBuf.spelled, steps_of_safe hs, hnil, endsInDir_of_safe hs hnil]
    rfl
  rw [pathExists, target, hstay, walk_canonical (Or.inl hdir), walk_hop hdir rfl, walk_nil,
    if_pos (by simp [Tree.exists?, hdir])]

/-- A path to what is not there yet is entered in the working directory. -/
theorem inside_of_check (hs : ensureSafeRelativePathIn limit t here.1 cwd relative = .ok ())
    (hc : canonicalize limit t here.1 cwd = .ok c) {a : Loc String} {missing : List String}
    (h : Enters limit t here.1 cwd relative a missing) (hx : pathExists limit t (target c relative) = false) :
    c <+: a := by
  obtain ⟨hlex, hcheck⟩ := ensureSafeIn_ok hs
  have hancestor := (hcheck c hc).2 hx
  have hdirect := (walk_of_canonicalize hc).2
  rw [steps_of_safe hlex] at hancestor
  rcases List.eq_nil_or_concat relative.loc with hnil | ⟨names, name, hloc⟩
  · -- Only `.` is left, and that is missing below a file, outside of which the check has looked.
    exfalso
    have hfile : t.node c ≠ some .dir := by
      intro hdir
      rw [pathExists_of_nil hlex hnil hdir] at hx
      cases hx
    rcases List.eq_nil_or_concat c with rfl | ⟨above, name, rfl⟩
    · exact hfile t.root
    · rw [List.concat_eq_append] at hdirect hancestor
      have hdir : t.node above = some .dir :=
        t.closed ⟨List.prefix_append _ _, by simp⟩ (Option.isSome_iff_ne_none.mp hdirect.exists?)
      have hland : Landing t limit [] (above.map Step.name) above [] := by
        refine ⟨above.map Step.name, by simp, ?_, hdir, by simp⟩
        rw [← List.append_nil (above.map Step.name), walk_canonical (Or.inl hdir), walk_nil,
          if_pos (by simp [Tree.exists?, hdir])]
      have hpre := hancestor above (by simpa [hnil] using existingAncestor_landing hland)
      have hlen := hpre.length_le
      simp only [List.length_append, List.length_singleton] at hlen
      omega
  · rw [List.concat_eq_append] at hloc
    obtain ⟨reached, rfl, j, hj, hreached⟩ := h.reached hlex hc hloc
    -- From the canonical directory there are at least as many links left to follow.
    have hfound : walk t limit [] (c.map Step.name ++ reached.map Step.name) = .ok a := by
      rw [walk_canonical hdirect]
      exact walk_mono hj hreached
    have hland : Landing t limit [] (c.map Step.name ++ (reached ++ missing).map Step.name) a missing := by
      obtain ⟨-, -, -, hdir, hnone⟩ := h
      exact ⟨_, by simp, hfound, hdir, hnone⟩
    refine hancestor a ?_
    rw [hloc, List.map_append, ← List.append_assoc, List.map_singleton, List.dropLast_concat]
    exact existingAncestor_landing hland

/-! ### Without links -/

/-- No link in the working directory `c` has a name on the path. -/
def Plain (t : LinkedFs) (relative : PathBuf) (c : Loc String) : Prop :=
  ∀ names, names <+: relative.loc → ∀ target, t.node (c ++ names) ≠ some (.file (.link target))

/-- The reserved directories are not links. -/
def PlainMeta (t : LinkedFs) (c : Loc String) : Prop :=
  ∀ name ∈ [".git", ".nerve"], ∀ target, t.node (c ++ [name]) ≠ some (.file (.link target))

/-- Entered without links, the path is where its names say. -/
theorem Enters.eq_of_plain (hs : ensureSafeRelativePath relative = .ok ())
    (hc : canonicalize limit t here.1 cwd = .ok c) (hplain : Plain t relative c) {names : List String}
    {name : String} (hloc : relative.loc = names ++ [name]) {a : Loc String} {missing : List String}
    (h : Enters limit t here.1 cwd relative a missing) : c <+: a ∧ a ++ missing = c ++ names := by
  obtain ⟨reached, rfl, j, -, hreached⟩ := h.reached hs hc hloc
  have ha : a = c ++ reached := by
    refine walk_plain (fun x hx => hplain x (hx.trans ?_)) hreached
    rw [hloc, List.append_assoc]
    exact List.prefix_append _ _
  rw [ha, List.append_assoc]
  exact ⟨List.prefix_append _ _, rfl⟩

/-- Without links the nearest part that exists is in the working directory. -/
theorem existingAncestor_of_plain (hdir : t.node c = some .dir) {names : List String}
    (hplain : ∀ x, x <+: names → ∀ target, t.node (c ++ x) ≠ some (.file (.link target))) :
    ∃ a, walk t limit [] (existingAncestor limit t (c.map Step.name ++ names.map Step.name)) = .ok a ∧ c <+: a := by
  induction names using List.reverseRecOn with
  | nil =>
    have hland : Landing t limit [] (c.map Step.name) c [] := by
      refine ⟨c.map Step.name, by simp, ?_, hdir, by simp⟩
      rw [← List.append_nil (c.map Step.name), walk_canonical (Or.inl hdir), walk_nil,
        if_pos (by simp [Tree.exists?, hdir])]
    exact ⟨c, by simpa using existingAncestor_landing hland, List.prefix_rfl⟩
  | append_singleton names n ih =>
    rw [List.map_append, List.map_singleton, ← List.append_assoc, existingAncestor_concat]
    split_ifs with hx
    · rcases hw : walk t limit [] (c.map Step.name ++ names.map Step.name ++ [Step.name n]) with e | a
      · rw [pathExists, hw] at hx
        cases hx
      · rw [List.append_assoc, walk_canonical (Or.inl hdir)] at hw
        have ha : a = c ++ (names ++ [n]) := walk_plain hplain (by simpa using hw)
        exact ⟨a, rfl, ha ▸ List.prefix_append _ _⟩
    · exact ih fun x hx => hplain x (hx.trans (List.prefix_append _ _))

/-- Without links the check is the one of the text. -/
theorem ensureSafeIn_of_plain (hc : canonicalize limit t here.1 cwd = .ok c) (hdir : t.node c = some .dir)
    (hplain : Plain t relative c) : ensureSafeRelativePathIn limit t here.1 cwd relative =
      (ensureSafeRelativePath relative).mapError .refused := by
  unfold ensureSafeRelativePathIn
  split
  · next e he => rw [he]; rfl
  · next hs =>
    have hfound : ∃ a, walk t limit [] (if pathExists limit t (target c relative) then target c relative
        else existingAncestor limit t (c.map Step.name ++ relative.steps).dropLast) = .ok a ∧ c <+: a := by
      split_ifs with hx
      · rcases hw : walk t limit [] (target c relative) with e | a
        · rw [pathExists, hw] at hx
          cases hx
        · have hw' := walk_of_spelled (c.map Step.name) hw
          rw [walk_canonical (Or.inl hdir), steps_of_safe hs] at hw'
          have ha : a = c ++ relative.loc := walk_plain hplain hw'
          exact ⟨a, rfl, ha ▸ List.prefix_append _ _⟩
      · rw [steps_of_safe hs]
        rcases List.eq_nil_or_concat relative.loc with hnil | ⟨names, name, hloc⟩
        · exact absurd (pathExists_of_nil hs hnil hdir) hx
        · rw [List.concat_eq_append] at hloc
          rw [hloc, List.map_append, ← List.append_assoc, List.map_singleton, List.dropLast_concat]
          refine existingAncestor_of_plain hdir fun x hx => hplain x (hx.trans ?_)
          rw [hloc]
          exact List.prefix_append _ _
    obtain ⟨a, ha, hpre⟩ := hfound
    simp only [hc, ha, hs, List.isPrefixOf_iff_prefix.mpr hpre]
    rfl

/-- What is reserved without links is below `.git` or `.nerve` by name. -/
theorem Reserved.by_name (hmeta : PlainMeta t c) (hdirect : Direct t c) {p : Loc String}
    (h : Reserved limit t c p) : ∃ name ∈ [".git", ".nerve"], c ++ [name] <+: p := by
  obtain ⟨name, hname, hp | ⟨r, hr, hp⟩⟩ := h
  · exact ⟨name, hname, hp⟩
  · refine ⟨name, hname, ?_⟩
    have heq : r = c ++ [name] := by
      refine walk_plain (l := []) (k := limit) (fun x hx target hlink => ?_) hr
      rw [List.nil_append] at hlink
      rcases List.prefix_concat_iff.mp hx with rfl | hx
      · exact hmeta name hname target hlink
      · by_cases hxc : x = c
        · exact not_direct_of_link hlink (hxc ▸ hdirect)
        · rw [t.closed ⟨hx, hxc⟩ (Option.isSome_iff_ne_none.mp hdirect.exists?)] at hlink
          cases hlink
    rwa [heq] at hp

/-- Without links the checks on the text of a path are enough. -/
theorem landsInside_of_plain (hs : ensureSafeRelativePath relative = .ok ())
    (hc : canonicalize limit t here.1 cwd = .ok c) (hloc : relative.loc ≠ []) (hplain : Plain t relative c)
    (hmeta : PlainMeta t c) : LandsInside limit t here.1 cwd relative c := by
  obtain ⟨names, name, hnames⟩ := List.eq_nil_or_concat relative.loc |>.resolve_left hloc
  rw [List.concat_eq_append] at hnames
  have hdirect := (walk_of_canonicalize hc).2
  have hfree (p : Loc String) (hp : p <+: c ++ relative.loc) : ¬ Reserved limit t c p := by
    intro hr
    obtain ⟨meta_, hmem, hpre⟩ := hr.by_name hmeta hdirect
    obtain ⟨first, rest, hfirst⟩ := List.exists_cons_of_ne_nil hloc
    have heq : meta_ = first := by
      have := hpre.trans hp
      rw [hfirst, List.prefix_append_right_inj] at this
      simpa using this
    unfold ensureSafeRelativePath at hs
    rw [hfirst] at hs
    simp only [List.mem_cons, List.not_mem_nil, or_false, heq] at hmem
    rcases hmem with rfl | rfl <;> split_ifs at hs <;> split at hs <;> cases hs
  have hprefix : c ++ names <+: c ++ relative.loc := by
    rw [hnames, ← List.append_assoc]
    exact List.prefix_append _ _
  constructor
  · exact fun a missing he _ => (he.eq_of_plain hs hc hplain hnames).1
  · intro a missing he
    rw [(he.eq_of_plain hs hc hplain hnames).2]
    exact hfree _ hprefix
  · intro a missing p he hp
    rw [(he.eq_of_plain hs hc hplain hnames).2] at hp
    obtain ⟨last, hlast, rfl, -⟩ := hp
    rcases spelled_of_safe hs with ⟨names', name', hloc', hspelled⟩ | ⟨steps, hspelled⟩
    · obtain ⟨rfl, heq⟩ := List.append_inj' (hnames.symm.trans hloc') rfl
      obtain rfl : name' = last := by simpa [hspelled] using hlast
      refine hfree _ ?_
      rw [hloc', List.append_assoc]
    · simp [hspelled] at hlast

/-! ### What the check confines -/

/-- A checked path confines what a write or a removal changes exactly where it leads inside. -/
theorem affected_confined_iff (hs : ensureSafeRelativePathIn limit t here.1 cwd relative = .ok ())
    (hc : canonicalize limit t here.1 cwd = .ok c) (value : ByteArray) :
    (∀ p ∈ affected limit t here.1 cwd relative value, Confined limit t c p) ↔
      LandsInside limit t here.1 cwd relative c := by
  have hlex := (ensureSafeIn_ok hs).1
  have hmem (p : Loc String) := mem_affected_iff hlex hc value p
  constructor
  · intro h
    have hdirectory {a : Loc String} {missing : List String} (he : Enters limit t here.1 cwd relative a missing) :
        Confined limit t c (a ++ missing) := h _ ((hmem _).mpr ⟨a, missing, he, Or.inr (Or.inl rfl)⟩)
    refine ⟨fun a missing he _ => ?_, fun a missing he => (hdirectory he).2, fun a missing p he hp =>
      (h p ((hmem p).mpr ⟨a, missing, he, Or.inr (Or.inr hp)⟩)).2⟩
    cases missing with
    | nil => simpa using (hdirectory he).1
    | cons n missing =>
      -- The first directory created is below `c`, and is not `c`, which is there.
      have hnew : a ++ [n] ∈ nested a (n :: missing) := List.mem_cons_self ..
      have hpre := (h _ ((hmem _).mpr ⟨a, _, he, Or.inl hnew⟩)).1
      rcases List.prefix_concat_iff.mp (by simpa using hpre) with rfl | hpre
      · have hnone : t.node (a ++ [n]) = none := Landing.node_eq_none he hnew
        have hthere := (walk_of_canonicalize hc).2.exists?
        simp [Tree.exists?, hnone] at hthere
      · exact hpre
  · intro h p hp
    obtain ⟨a, missing, he, hp⟩ := (hmem p).mp hp
    have ha : c <+: a := by
      by_cases hx : pathExists limit t (target c relative) = true
      · exact h.inside a missing he hx
      · exact inside_of_check hs hc he (by simpa using hx)
    rcases hp with hp | rfl | hp
    · obtain ⟨habove, hbelow⟩ := above_of_mem_nested hp
      exact ⟨ha.trans habove.1, fun hr => h.directory a missing he (hr.mono hbelow)⟩
    · exact ⟨ha.trans (List.prefix_append _ _), h.directory a missing he⟩
    · refine ⟨?_, h.entry a missing p he hp⟩
      obtain ⟨name, -, rfl, -⟩ := hp
      exact ha.trans ((List.prefix_append _ _).trans (List.prefix_append _ _))

end Enters

/-- A working directory `/w` with `src` in it, a link to its `.git`, and a link to the directory above. -/
def linkedTree : LinkedFs :=
  Linked.ofEntries [([], .dir), (["w"], .dir), (["w", ".git"], .dir), (["w", "src"], .dir),
    (["w", "link"], .file (.link ⟨false, [.name ".git"]⟩)), (["w", "up"], .file (.link ⟨false, [.up]⟩))]
    rfl (by decide)

/-- The root, as the directory the process is in. -/
def linkedRoot : Directory linkedTree := ⟨[], rfl⟩

/-- From `/w` the check lets pass a new file of `src`, a file behind the link and a way through the directory above. -/
theorem linkedTree_accepts :
    canonicalize 40 linkedTree linkedRoot.1 ⟨"/w"⟩ = .ok ["w"] ∧
    (∀ path ∈ ["src/new.rs", "link/config", "up/w"],
      ensureSafeRelativePathIn 40 linkedTree linkedRoot.1 ⟨"/w"⟩ ⟨path⟩ = .ok ()) ∧
    PathBuf.loc ⟨"src/new.rs"⟩ = ["src", "new.rs"] ∧
    ["w", ".git", "config"] ∈ affected 40 linkedTree linkedRoot.1 ⟨"/w"⟩ ⟨"link/config"⟩ ByteArray.empty ∧
    [] ∈ affected 40 linkedTree linkedRoot.1 ⟨"/w"⟩ ⟨"up/w"⟩ ByteArray.empty := by
  decide +kernel

theorem confined_new_file : ensureSafeRelativePathIn 40 linkedTree linkedRoot.1 ⟨"/w"⟩ ⟨"src/new.rs"⟩ = .ok () ∧
    ∀ p ∈ affected 40 linkedTree linkedRoot.1 ⟨"/w"⟩ ⟨"src/new.rs"⟩ ByteArray.empty, Confined 40 linkedTree ["w"] p := by
  obtain ⟨hc, haccepts, hloc, -⟩ := linkedTree_accepts
  have hs : ensureSafeRelativePathIn 40 linkedTree linkedRoot.1 ⟨"/w"⟩ ⟨"src/new.rs"⟩ = .ok () :=
    haccepts _ (by simp)
  have hplain : Plain linkedTree ⟨"src/new.rs"⟩ ["w"] := by
    intro names hn
    rw [hloc] at hn
    have hmem : names = [] ∨ names = ["src"] ∨ names = ["src", "new.rs"] := by
      simpa using (List.mem_inits _ _).mpr hn
    rcases hmem with rfl | rfl | rfl <;> exact fun _ => nofun
  have hmeta : PlainMeta linkedTree ["w"] := by
    intro name hname
    have hmem : name = ".git" ∨ name = ".nerve" := by simpa using hname
    rcases hmem with rfl | rfl <;> exact fun _ => nofun
  exact ⟨hs, (affected_confined_iff hs hc _).mpr
    (landsInside_of_plain (ensureSafeIn_ok hs).1 hc (by rw [hloc]; exact List.cons_ne_nil _ _) hplain hmeta)⟩

/-- Through a link the write is made in `.git`. -/
theorem link_into_git : ensureSafeRelativePathIn 40 linkedTree linkedRoot.1 ⟨"/w"⟩ ⟨"link/config"⟩ = .ok () ∧
    canonicalize 40 linkedTree linkedRoot.1 ⟨"/w"⟩ = .ok ["w"] ∧
    ["w", ".git", "config"] ∈ affected 40 linkedTree linkedRoot.1 ⟨"/w"⟩ ⟨"link/config"⟩ ByteArray.empty ∧
    ¬ Confined 40 linkedTree ["w"] ["w", ".git", "config"] := by
  obtain ⟨hc, haccepts, -, haffected, -⟩ := linkedTree_accepts
  exact ⟨haccepts _ (by simp), hc, haffected, fun h => h.2 ⟨".git", by simp, Or.inl ⟨["config"], rfl⟩⟩⟩

/-- The working directory, reached from above, is there and is inside; the temporary file is made above. -/
theorem link_above : ensureSafeRelativePathIn 40 linkedTree linkedRoot.1 ⟨"/w"⟩ ⟨"up/w"⟩ = .ok () ∧
    canonicalize 40 linkedTree linkedRoot.1 ⟨"/w"⟩ = .ok ["w"] ∧
    [] ∈ affected 40 linkedTree linkedRoot.1 ⟨"/w"⟩ ⟨"up/w"⟩ ByteArray.empty ∧
    ¬ Confined 40 linkedTree ["w"] [] := by
  obtain ⟨hc, haccepts, -, -, haffected⟩ := linkedTree_accepts
  exact ⟨haccepts _ (by simp), hc, haffected, fun h => absurd (List.prefix_nil.mp h.1) (by simp)⟩

end Nerve.Patch
