import Nerve.Patch.Placement
import Nerve.Patch.ParseSafety
import Nerve.Patch.Effects

/-!
# Deletions

A section is a deletion when its second header is `/dev/null`, whatever its hunks say. What they
make of the file is worked out beside that, and is not looked at again: the entry removes the file.
It removes no more than the diff shows just if the hunks take away all its lines (`deletions_iff`),
and only then can the removal be rolled back.
-/

namespace Nerve.Patch

open Nerve.Text Nerve.LineDiff Nerve.FileTree

/-- The hunks remove every line of the text, and no others are in them. -/
structure RemovesAll (original : String) (hunks : List ParsedHunk) : Prop where
  all : splitLinesPreservingEndings original = hunks.flatMap fun h => olds h.lines
  only : ∀ h ∈ hunks, ∀ l ∈ h.lines, (∃ line, l = .remove line) ∨ l = .add []

/-- Once it is done, the entry's rollback finds what it expects. -/
def FilePatch.Undoable (sha256Hex : String → String) (t : FsTree) (f : FilePatch) : Prop :=
  ∀ t', f.apply t = (.ok (), t') → f.validate sha256Hex t' true = .ok ()

/-! ### What the hunks leave -/

section Places

variable {H : Type} {index : H → Nat} {lines : H → List (HunkLine Line)} {i : Nat} {old new : List Line} {hunks : List H}

theorem length_olds_le_of_places (h : Places index lines i old hunks new) :
    (hunks.flatMap fun h => olds (lines h)).length ≤ old.length := by
  induction h with
  | rest => exact Nat.zero_le _
  | hunk kept hindex hrest ih =>
    simp only [List.flatMap_cons, List.length_append]
    omega

/-- Nothing is left just if the hunks have all old lines, and no text for new ones. -/
theorem flatten_eq_nil_iff_of_places (h : Places index lines i old hunks new) (hne : ∀ line ∈ old, line ≠ []) :
    new.flatten = [] ↔ old = (hunks.flatMap fun h => olds (lines h)) ∧ ∀ h ∈ hunks, (news (lines h)).flatten = [] := by
  induction h with
  | rest i kept =>
    rw [List.flatten_eq_nil_iff, List.flatMap_nil]
    constructor
    · intro hall
      refine ⟨List.eq_nil_iff_forall_not_mem.mpr fun line hline => ?_, by simp⟩
      exact hne line hline (hall line hline)
    · rintro ⟨rfl, -⟩
      simp
  | @hunk i kept h hunks old new hindex hrest ih =>
    have hlength := length_olds_le_of_places hrest
    have ih := ih fun line hline => hne line (List.mem_append_right _ (List.mem_append_right _ hline))
    simp only [List.flatten_append, List.append_eq_nil_iff, List.flatMap_cons, List.forall_mem_cons, ih]
    constructor
    · rintro ⟨hkept, hnews, hold, hall⟩
      have hnil : kept = [] := List.eq_nil_iff_forall_not_mem.mpr fun line hline =>
        hne line (List.mem_append_left _ hline) (List.flatten_eq_nil_iff.mp hkept line hline)
      rw [hnil, List.nil_append, ← hold]
      exact ⟨rfl, hnews, hall⟩
    · rintro ⟨heq, hnews, hall⟩
      have hnil : kept = [] := by
        have := congrArg List.length heq
        simp only [List.length_append] at this
        exact List.length_eq_zero_iff.mp (by omega)
      rw [hnil, List.nil_append] at heq
      rw [hnil]
      exact ⟨rfl, hnews, List.append_cancel_left heq, hall⟩

end Places

theorem ne_nil_of_mem_splitLines {original : String} : ∀ line ∈ splitLinesPreservingEndings original, line ≠ [] := by
  intro line hline
  rcases isLine_or_isOpenLine hline with ⟨l, -, rfl⟩ | ⟨-, hne⟩
  · simp
  · exact hne

/-- **Hunks that apply leave nothing just if they remove all lines.** -/
theorem applyHunks_eq_empty_iff {original modified : String} {hunks : List ParsedHunk}
    (h : applyHunks original hunks = .ok modified) : modified = "" ↔ RemovesAll original hunks := by
  obtain ⟨-, new, hplaces, rfl⟩ := applyHunks_eq_ok.mp h
  have hempty : String.ofList new.flatten = "" ↔ new.flatten = [] := by
    rw [← String.toList_eq_nil_iff, String.toList_ofList]
  rw [hempty, flatten_eq_nil_iff_of_places hplaces ne_nil_of_mem_splitLines]
  constructor
  · rintro ⟨hall, hnews⟩
    refine ⟨hall, fun g hg l hl => ?_⟩
    have hnil {line : Line} (hline : line ∈ news g.lines) : line = [] :=
      List.flatten_eq_nil_iff.mp (hnews g hg) line hline
    cases l with
    | context line =>
      -- it is one of the old lines, which are not empty
      have hold : line ∈ splitLinesPreservingEndings original := by
        rw [hall]
        exact List.mem_flatMap.mpr ⟨g, hg, List.mem_filterMap.mpr ⟨_, hl, rfl⟩⟩
      exact absurd (hnil (List.mem_filterMap.mpr ⟨_, hl, rfl⟩)) (ne_nil_of_mem_splitLines line hold)
    | add line => exact Or.inr (congrArg HunkLine.add (hnil (List.mem_filterMap.mpr ⟨_, hl, rfl⟩)))
    | remove line => exact Or.inl ⟨line, rfl⟩
  · rintro ⟨hall, honly⟩
    refine ⟨hall, fun g hg => List.flatten_eq_nil_iff.mpr fun line hline => ?_⟩
    obtain ⟨l, hl, hnew⟩ := List.mem_filterMap.mp hline
    rcases honly g hg l hl with ⟨line', rfl⟩ | rfl
    · cases hnew
    · exact (Option.some.inj hnew).symm

/-! ### Entries -/

section Entries

variable {sha256Hex : String → String} {t : FsTree}

theorem bind_eq_ok {α β : Type} {x : DiffResult α} {f : α → DiffResult β} {b : β} (h : (x >>= f) = .ok b) :
    ∃ a, x = .ok a ∧ f a = .ok b := by
  rcases x with e | a
  · cases h
  · exact ⟨a, rfl, h⟩

theorem orError_eq_ok {α : Type} {r : Except PatchError α} {a : α} (h : orError r = .ok a) : r = .ok a := by
  rcases r with e | a'
  · cases h
  · cases h
    rfl

/-- What a section's entry is made of: the section's path and operation, the text found there, and
what the hunks make of it. Only a rename does without hunks. -/
structure ParsedFileDiff.Gives (sha256Hex : String → String) (t : FsTree) (d : ParsedFileDiff) (f : FilePatch) : Prop where
  target : d.target = .ok (f.path, f.operation)
  safe : ensureSafeRelativePath f.path = .ok ()
  empty : f.operation = .create → f.original = ""
  found : f.operation ≠ .create → readToString t (f.validationPath false) = .ok f.original
  hunks : d.hunks.isEmpty = false → applyHunks f.original d.hunks = .ok f.modified
  same : d.hunks.isEmpty = true → f.modified = f.original ∧ ∃ origin, f.operation = .rename origin
  sha256 : f.modifiedSha256 = sha256Hex f.modified

/-- The entry of a section, inverted. -/
theorem gives_of_toFilePatch {d : ParsedFileDiff} {f : FilePatch} (h : d.toFilePatch sha256Hex t = .ok f) :
    d.Gives sha256Hex t f := by
  unfold ParsedFileDiff.toFilePatch at h
  obtain ⟨⟨path, operation⟩, htarget, h⟩ := bind_eq_ok h
  obtain ⟨⟨⟩, hsafe, h⟩ := bind_eq_ok h
  have hsafe := orError_eq_ok hsafe
  -- The tail of every operation: the hunks, and the entry.
  have hbuilt {original : String} (hempty : d.hunks.isEmpty = false)
      (hcreate : operation = .create → original = "")
      (hread : operation ≠ .create →
        readToString t ((FilePatch.withOperation sha256Hex path operation original "").validationPath false) = .ok original)
      (h : (applyHunks original d.hunks >>= fun modified =>
        pure (FilePatch.withOperation sha256Hex path operation original modified)) = .ok f) : d.Gives sha256Hex t f := by
    obtain ⟨modified, happly, h⟩ := bind_eq_ok h
    cases h
    exact ⟨htarget, hsafe, hcreate, hread, fun _ => happly, fun h => by simp [hempty] at h, rfl⟩
  rcases operation with _ | _ | _ | origin
  · obtain ⟨original, hread, h⟩ := bind_eq_ok h
    split_ifs at h with hempty
    · cases h
    · exact hbuilt (by simpa using hempty) nofun (fun _ => orError_eq_ok hread) h
  · obtain ⟨original, hread, h⟩ := bind_eq_ok h
    split_ifs at h with hempty
    · cases h
    · exact hbuilt (by simpa using hempty) (fun _ => (Except.ok.inj hread).symm) (fun hne => absurd rfl hne) h
  · obtain ⟨original, hread, h⟩ := bind_eq_ok h
    split_ifs at h with hempty
    · cases h
    · exact hbuilt (by simpa using hempty) nofun (fun _ => orError_eq_ok hread) h
  · obtain ⟨⟨⟩, -, h⟩ := bind_eq_ok h
    obtain ⟨original, hread, h⟩ := bind_eq_ok h
    split_ifs at h with hempty
    · cases h
      exact ⟨htarget, hsafe, nofun, fun _ => orError_eq_ok hread, fun h => by simp [hempty] at h,
        fun _ => ⟨rfl, origin, rfl⟩, rfl⟩
    · exact hbuilt (by simpa using hempty) nofun (fun _ => orError_eq_ok hread) h

/-- A removal takes the file away, if the path does not ask for a directory; no directory comes or goes. -/
theorem removeFile_ok {t' : FsTree} {path : PathBuf} (h : removeFile path t = (.ok (), t')) :
    t'.file = (if path.endsInDir then t.file else Function.update t.file path.loc none) ∧ ∀ u, t'.isDir u = t.isDir u := by
  obtain ⟨hfile, hdir⟩ := Tree.serve_ok ((removeFile_refines path t).ok h)
  constructor
  · rw [hfile, Name.clear, PathBuf.name_asksDir]
    split_ifs <;> rfl
  · intro u
    have hmakes : ¬ Makes [(path.name.clear : Request String ByteArray)] u := by
      simp only [Makes, List.mem_singleton, exists_eq_left, Name.clear]
      split_ifs
      · exact id
      · exact fun h => Bool.false_ne_true h.1
    rw [Bool.eq_iff_iff, hdir, or_iff_left hmakes]

/-- A file that was read and removed reads as empty. -/
theorem readToString_of_removeFile {t' : FsTree} {path : PathBuf} {original : String}
    (hread : readToString t path = .ok original) (hremove : removeFile path t = (.ok (), t')) :
    readToString t' path = .ok "" := by
  obtain ⟨hfile, hdir⟩ := removeFile_ok hremove
  have hkept {u : Loc String} (hu : u ≠ path.loc) : t'.file u = t.file u := by
    rw [hfile]
    split_ifs
    · rfl
    · exact Function.update_of_ne hu _ _
  have hnone : t'.file path.loc = none := by
    rw [hfile]
    rcases readToString_eq_ok.mp hread with ⟨hdir, -⟩ | ⟨-, hexists, -⟩
    · rw [hdir, if_neg Bool.false_ne_true, Function.update_self]
    · split_ifs
      · rw [Bool.eq_false_iff, ne_eq, Tree.exists?_iff, not_or, Option.not_isSome_iff_eq_none] at hexists
        exact hexists.2
      · exact Function.update_self ..
  have hblocked : t.blocked path.loc = false := by
    rcases readToString_eq_ok.mp hread with ⟨-, hfile⟩ | ⟨-, -, hblocked⟩
    · exact Tree.not_blocked fun u hu => Tree.isDir_above_file hu (by rw [hfile]; rfl)
    · exact hblocked
  refine readToString_eq_ok.mpr (Or.inr ⟨rfl, ?_, ?_⟩)
  · rw [Bool.eq_false_iff, ne_eq, Tree.exists?_iff, hdir, not_isDir_of_readToString hread, hnone]
    simp
  · rw [Bool.eq_false_iff] at hblocked ⊢
    intro h
    obtain ⟨u, hu, hsome⟩ := Tree.blocked_iff.mp h
    rw [hkept hu.ne] at hsome
    exact hblocked (Tree.blocked_iff.mpr ⟨u, hu, hsome⟩)

/-- An entry that deletes and leaves no text can be rolled back. -/
theorem FilePatch.undoable_of_modified_empty {f : FilePatch} (hdelete : f.operation = .delete)
    (hsafe : ensureSafeRelativePath f.path = .ok ()) (hread : readToString t f.path = .ok f.original)
    (hsha : f.modifiedSha256 = sha256Hex f.modified) (hmodified : f.modified = "") : f.Undoable sha256Hex t := by
  intro t' happly
  rw [FilePatch.apply, hdelete] at happly
  refine FilePatch.validate_eq_ok.mpr ⟨?_, ?_, "", ?_, ?_⟩
  · rw [FilePatch.ensureSafe_eq_ok, FilePatch.changedPaths, hdelete]
    simpa using hsafe
  · unfold FilePatch.validateOperationState
    rw [hdelete]
  · unfold FilePatch.validationPath
    rw [hdelete]
    exact readToString_of_removeFile hread happly
  · rw [if_pos rfl, hsha, hmodified]

theorem forall₂_of_mapM {ds : List ParsedFileDiff} {fs : List FilePatch}
    (h : ds.mapM (ParsedFileDiff.toFilePatch sha256Hex t) = .ok fs) :
    List.Forall₂ (fun d f => d.toFilePatch sha256Hex t = .ok f) ds fs := by
  induction ds generalizing fs with
  | nil =>
    cases h
    exact .nil
  | cons d ds ih =>
    rw [List.mapM_cons] at h
    obtain ⟨f, hf, h⟩ := bind_eq_ok h
    obtain ⟨fs', hfs, h⟩ := bind_eq_ok h
    cases h
    exact .cons hf (ih hfs)

/-- The entries of a patch are those of the sections, in their order. -/
theorem entries_of_fromUnifiedDiff {id diff : String} {ds : List ParsedFileDiff} {p : NvPatch}
    (hparse : parseFileDiffs diff = .ok ds)
    (h : NvPatch.fromUnifiedDiff sha256Hex id t diff = .ok (some p)) :
    List.Forall₂ (fun d f => d.toFilePatch sha256Hex t = .ok f) ds p.files := by
  unfold NvPatch.fromUnifiedDiff at h
  rw [hparse] at h
  obtain ⟨ds', hds, h⟩ := bind_eq_ok h
  obtain rfl := Except.ok.inj hds
  split_ifs at h
  · cases h
  · obtain ⟨fs, hfs, h⟩ := bind_eq_ok h
    obtain rfl := Option.some.inj (Except.ok.inj h)
    exact forall₂_of_mapM hfs

/-- The entry of a section is harmless just if the section, where it deletes, removes all lines. -/
theorem delete_iff {d : ParsedFileDiff} {f : FilePatch} (h : d.toFilePatch sha256Hex t = .ok f) :
    (f.operation = .delete → f.modified = "" ∧ f.Undoable sha256Hex t) ↔
      ∀ path, d.target = .ok (path, .delete) → ∃ original, readToString t path = .ok original ∧
        RemovesAll original d.hunks := by
  have hgives := gives_of_toFilePatch h
  have hdeleted (hdelete : f.operation = .delete) : readToString t f.path = .ok f.original ∧
      applyHunks f.original d.hunks = .ok f.modified := by
    have hempty : d.hunks.isEmpty = false := by
      by_contra hempty
      obtain ⟨-, origin, horigin⟩ := hgives.same (by simpa using hempty)
      simp [hdelete] at horigin
    exact ⟨by simpa [FilePatch.validationPath, hdelete] using hgives.found (by simp [hdelete]), hgives.hunks hempty⟩
  rw [hgives.target]
  constructor
  · intro hempty path heq
    obtain ⟨rfl, hdelete⟩ := Prod.mk.inj (Except.ok.inj heq)
    obtain ⟨hread, happly⟩ := hdeleted hdelete
    exact ⟨f.original, hread, (applyHunks_eq_empty_iff happly).mp (hempty hdelete).1⟩
  · intro hremoves hdelete
    obtain ⟨hread, happly⟩ := hdeleted hdelete
    obtain ⟨original, horiginal, hall⟩ := hremoves f.path (by rw [hdelete])
    obtain rfl := Except.ok.inj (hread.symm.trans horiginal)
    have hmodified := (applyHunks_eq_empty_iff happly).mpr hall
    exact ⟨hmodified, FilePatch.undoable_of_modified_empty hdelete hgives.safe hread hgives.sha256 hmodified⟩

/-- **A patch deletes what its diff shows, and can be rolled back, just if the hunks of every
deletion remove all lines of the file.** -/
theorem deletions_iff {id diff : String} {ds : List ParsedFileDiff} {p : NvPatch} (hparse : parseFileDiffs diff = .ok ds)
    (h : NvPatch.fromUnifiedDiff sha256Hex id t diff = .ok (some p)) :
    (∀ f ∈ p.files, f.operation = .delete → f.modified = "" ∧ f.Undoable sha256Hex t) ↔
      ∀ d ∈ ds, ∀ path, d.target = .ok (path, .delete) → ∃ original, readToString t path = .ok original ∧
        RemovesAll original d.hunks := by
  have hentries := entries_of_fromUnifiedDiff hparse h
  clear h hparse
  generalize p.files = fs at hentries
  induction hentries with
  | nil => simp
  | cons hentry _ ih =>
    rw [List.forall_mem_cons, List.forall_mem_cons]
    exact and_congr (delete_iff hentry) ih

end Entries

/-! ### Examples -/

/-- A tree with one file, `c`, of two lines. -/
def twoLines : FsTree := (writeString ⟨"c"⟩ "text\nline\n" Tree.empty).2

/-- A deletion that shows both lines. -/
def sampleDeletion : String := "--- a/c\n+++ /dev/null\n@@ -1,2 +0,0 @@\n-text\n-line\n"

theorem deletions_sample :
    ∃ p, NvPatch.fromUnifiedDiff sampleSha256Hex "read" twoLines sampleDeletion = .ok (some p) ∧
      ∀ f ∈ p.files, f.operation = .delete → f.modified = "" ∧ f.Undoable sampleSha256Hex twoLines := by
  have hparse : parseFileDiffs sampleDeletion = .ok [⟨some ⟨"c"⟩, none, none, none,
      [⟨1, 2, 0, [.remove "text\n".toList, .remove "line\n".toList]⟩]⟩] := by
    decide +kernel
  have hread : NvPatch.fromUnifiedDiff sampleSha256Hex "read" twoLines sampleDeletion =
      .ok (some ⟨"read", none, [.withOperation sampleSha256Hex ⟨"c"⟩ .delete "text\nline\n" ""]⟩) := by
    decide +kernel
  refine ⟨_, hread, (deletions_iff hparse hread).mpr fun d hd path htarget => ?_⟩
  obtain rfl := List.mem_singleton.mp hd
  obtain rfl : (⟨"c"⟩ : PathBuf) = path := (Prod.mk.inj (Except.ok.inj htarget)).1
  refine ⟨"text\nline\n", by decide +kernel, by decide, fun g hg l hl => ?_⟩
  obtain rfl := List.mem_singleton.mp hg
  simp only [List.mem_cons, List.not_mem_nil, or_false] at hl
  rcases hl with rfl | rfl <;> exact Or.inl ⟨_, rfl⟩

/-- A deletion that shows the first alone. -/
def samplePartialDeletion : String := "--- a/c\n+++ /dev/null\n@@ -1 +0,0 @@\n-text\n"

/-- The entry it gives. -/
def samplePartialEntry : FilePatch := .withOperation sampleSha256Hex ⟨"c"⟩ .delete "text\nline\n" "line\n"

/-- **The whole file goes, and cannot be brought back.** -/
theorem partial_deletion :
    NvPatch.fromUnifiedDiff sampleSha256Hex "read" twoLines samplePartialDeletion =
        .ok (some ⟨"read", none, [samplePartialEntry]⟩) ∧
      samplePartialEntry.operation = .delete ∧ samplePartialEntry.modified ≠ "" ∧
      targetExists (samplePartialEntry.apply twoLines).2 ⟨"c"⟩ = false ∧
      samplePartialEntry.validate sampleSha256Hex (samplePartialEntry.apply twoLines).2 true ≠ .ok () := by
  refine ⟨by decide +kernel, rfl, by decide, by decide +kernel, by decide +kernel⟩

end Nerve.Patch
