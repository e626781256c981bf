import Nerve.Patch.Rollback
import Nerve.Patch.Deletion

/-!
# Several sections for one file

Every section of a diff is worked out against the file on disk, and its entry carries the whole text
that the section makes of it. Entries are done in order, so of the sections that name one location
the last decides what is there in the end: the others' changes are in the file only as far as the
last section makes them too.

`Shows` says when the change from one text to another can be seen in a third, counting lines, as a
line that is removed may well stand elsewhere in the file. `sections_shown_iff`: after an apply that
succeeds the change of every section shows just if the last section for each location makes the
changes of the others there (`LastMakesAll`).
-/

namespace Nerve.Patch

open Nerve.Text Nerve.LineDiff Nerve.FileTree

/-! ### The change of a section -/

/-- The text of the file at a location. -/
def textAt (t : FsTree) (q : Loc String) : Option String := (t.file q).bind String.fromUTF8?

/-- How often a line is in a text; a missing file has none. -/
def countLine (line : Line) (text : Option String) : Nat := (text.elim [] splitLinesPreservingEndings).count line

/-- The change from `before` to `after` can be seen in `final`: there is a file just if the change
leaves one, of the lines the change removes there are no more than it leaves, and of those it adds
no fewer. -/
structure Shows (before after final : Option String) : Prop where
  present : final.isSome = after.isSome
  removed : ∀ line, countLine line after < countLine line before → countLine line final ≤ countLine line after
  added : ∀ line, countLine line before < countLine line after → countLine line after ≤ countLine line final

theorem Shows.refl (before after : Option String) : Shows before after after :=
  ⟨rfl, fun _ _ => Nat.le_refl _, fun _ _ => Nat.le_refl _⟩

/-- The text a section makes of the file it is about. -/
def ParsedFileDiff.newText (t : FsTree) (d : ParsedFileDiff) (path : PathBuf) (operation : FileOperation) :
    DiffResult String := do
  let original ←
    match operation with
    | .create => .ok ""
    | .rename origin => orError (readToString t origin)
    | .modify | .delete => orError (readToString t path)
  if d.hunks.isEmpty then .ok original else applyHunks original d.hunks

/-- The locations a section names. -/
def ParsedFileDiff.locs (d : ParsedFileDiff) : List (Loc String) :=
  match d.target with
  | .ok (path, .rename origin) => [origin.loc, path.loc]
  | .ok (path, _) => [path.loc]
  | .error _ => []

/-- What a section on its own makes of a location it names. -/
def ParsedFileDiff.makes (t : FsTree) (d : ParsedFileDiff) (q : Loc String) : Option String :=
  match d.target with
  | .ok (_, .delete) => none
  | .ok (path, .rename origin) => if q = origin.loc then none else (d.newText t path (.rename origin)).toOption
  | .ok (path, operation) => (d.newText t path operation).toOption
  | .error _ => none

/-- The last section to name a location makes the changes there of all that name it. -/
def LastMakesAll (t : FsTree) (ds : List ParsedFileDiff) : Prop :=
  ∀ pre d post, ds = pre ++ d :: post → ∀ q ∈ d.locs, (∀ d' ∈ post, q ∉ d'.locs) →
    ∀ d' ∈ pre, q ∈ d'.locs → Shows (textAt t q) (d'.makes t q) (d.makes t q)

/-- It does when no location is named twice. -/
theorem lastMakesAll_of_pairwise {t : FsTree} {ds : List ParsedFileDiff}
    (h : ds.Pairwise fun d d' => ∀ q ∈ d.locs, q ∉ d'.locs) : LastMakesAll t ds := by
  rintro pre d post rfl q hq - d' hd' hq'
  exact absurd hq ((List.pairwise_append.mp h).2.2 d' hd' d (List.mem_cons_self ..) q hq')

/-! ### Its entry -/

section Entry

variable {sha256Hex : String → String} {t : FsTree}

/-- The text of an entry is the one its section makes. -/
theorem newText_of_toFilePatch {d : ParsedFileDiff} {f : FilePatch} (h : d.toFilePatch sha256Hex t = .ok f) :
    d.newText t f.path f.operation = .ok f.modified := by
  have hgives := gives_of_toFilePatch h
  have htext : (if d.hunks.isEmpty then .ok f.original else applyHunks f.original d.hunks) = .ok f.modified := by
    split_ifs with hempty
    · rw [(hgives.same hempty).1]
    · exact hgives.hunks (by simpa using hempty)
  have hread := hgives.found
  unfold FilePatch.validationPath at hread
  unfold ParsedFileDiff.newText
  rcases ho : f.operation with _ | _ | _ | origin <;> simp only [ho] at hread
  · simp only [hread nofun]
    exact htext
  · rw [hgives.empty ho] at htext
    exact htext
  · simp only [hread nofun]
    exact htext
  · simp only [hread nofun]
    exact htext

theorem locs_toFilePatch {d : ParsedFileDiff} {f : FilePatch} (h : d.toFilePatch sha256Hex t = .ok f) :
    d.locs = f.locs := by
  unfold ParsedFileDiff.locs FilePatch.locs FilePatch.changedPaths
  rw [(gives_of_toFilePatch h).target]
  rcases f.operation with _ | _ | _ | origin <;> rfl

/-- An entry leaves at its locations what its section makes of them. -/
theorem makes_toFilePatch {d : ParsedFileDiff} {f : FilePatch} (h : d.toFilePatch sha256Hex t = .ok f) {q : Loc String}
    (hq : q ∈ f.locs) : d.makes t q = (f.after q).bind String.fromUTF8? := by
  have htarget := (gives_of_toFilePatch h).target
  have htext := newText_of_toFilePatch h
  have hutf8 : String.fromUTF8? f.modified.toByteArray = some f.modified := fromUTF8?_eq_some.mpr rfl
  rw [FilePatch.mem_locs_iff] at hq
  unfold ParsedFileDiff.makes FilePatch.after FilePatch.effects
  rw [htarget]
  rcases ho : f.operation with _ | _ | _ | origin <;> rw [ho] at htext hq <;>
    simp only [reduceCtorEq, false_and, exists_false, or_false, FileOperation.rename.injEq] at hq
  · subst hq
    simp [htext, hutf8, Except.toOption]
  · subst hq
    simp [htext, hutf8, Except.toOption]
  · subst hq
    simp
  · by_cases horigin : q = origin.loc
    · simp [horigin]
    · obtain rfl : q = f.path.loc := by
        refine hq.resolve_right fun hrenamed => ?_
        obtain ⟨_, rfl, hloc⟩ := hrenamed
        exact horigin hloc
      simp [horigin, htext, hutf8, Except.toOption]

end Entry

/-! ### The result -/

section Aligned

variable {α β : Type} {R : α → β → Prop}

theorem exists_of_mem_right {xs : List α} {ys : List β} (h : List.Forall₂ R xs ys) {y : β} (hy : y ∈ ys) :
    ∃ x ∈ xs, R x y := by
  induction h with
  | nil => simp at hy
  | @cons x y' xs ys hxy _ ih =>
    rcases List.mem_cons.mp hy with rfl | hy
    · exact ⟨x, List.mem_cons_self .., hxy⟩
    · obtain ⟨x', hx', hR⟩ := ih hy
      exact ⟨x', List.mem_cons_of_mem _ hx', hR⟩

theorem forall₂_split {pre post : List α} {x : α} {ys : List β} (h : List.Forall₂ R (pre ++ x :: post) ys) :
    ∃ pre' y post', ys = pre' ++ y :: post' ∧ R x y ∧ List.Forall₂ R post post' := by
  induction pre generalizing ys with
  | nil =>
    obtain ⟨y, post', hxy, hrest, rfl⟩ := List.forall₂_cons_left_iff.mp h
    exact ⟨[], y, post', rfl, hxy, hrest⟩
  | cons x' pre ih =>
    obtain ⟨y', ys, -, hrest, rfl⟩ := List.forall₂_cons_left_iff.mp h
    obtain ⟨pre', y, post', rfl, hxy, hpost⟩ := ih hrest
    exact ⟨y' :: pre', y, post', rfl, hxy, hpost⟩

end Aligned

section Applied

variable {sha256Hex : String → String} {ds : List ParsedFileDiff} {p : NvPatch} {t t' : FsTree} {r : ApplyReport}

/-- What is at a location after the apply is what the last section naming it makes of it. -/
theorem textAt_of_last (hentries : List.Forall₂ (fun d f => d.toFilePatch sha256Hex t = .ok f) ds p.files)
    (happly : p.apply sha256Hex false t = (.ok r, t')) {pre post : List ParsedFileDiff} {d : ParsedFileDiff}
    {q : Loc String} (hds : ds = pre ++ d :: post) (hq : q ∈ d.locs) (hpost : ∀ d' ∈ post, q ∉ d'.locs) :
    textAt t' q = d.makes t q := by
  obtain ⟨pre', f, post', hfiles, hf, hrest⟩ := forall₂_split (hds ▸ hentries)
  have hqf : q ∈ f.locs := locs_toFilePatch hf ▸ hq
  have hlast : ∀ f' ∈ post', q ∉ f'.locs := by
    intro f' hf' hq'
    obtain ⟨d', hd', hentry⟩ := exists_of_mem_right hrest hf'
    exact hpost d' hd' (locs_toFilePatch hentry ▸ hq')
  rw [textAt, (Tree.run_ok (NvPatch.run_of_apply_ok happly).2).1, NvPatch.overlay_effects _ hfiles hqf hlast,
    makes_toFilePatch hf hqf]

/-- **The change of every section shows just if the last section for each location makes the changes
of the others.** -/
theorem sections_shown_iff {id diff : String} (hparse : parseFileDiffs diff = .ok ds)
    (h : NvPatch.fromUnifiedDiff sha256Hex id t diff = .ok (some p))
    (happly : p.apply sha256Hex false t = (.ok r, t')) :
    (∀ d ∈ ds, ∀ q ∈ d.locs, Shows (textAt t q) (d.makes t q) (textAt t' q)) ↔ LastMakesAll t ds := by
  have hentries := entries_of_fromUnifiedDiff hparse h
  constructor
  · rintro hshown pre d post hds q hq hpost d' hd' hq'
    rw [← textAt_of_last hentries happly hds hq hpost]
    exact hshown d' (by simp [hds, hd']) q hq'
  · intro hlast d hd q hq
    obtain ⟨pre, d₁, post, hds, hq₁, hpost⟩ := exists_last (P := fun d => q ∈ d.locs) ⟨d, hd, hq⟩
    rw [textAt_of_last hentries happly hds hq₁ hpost]
    rw [hds, List.mem_append, List.mem_cons] at hd
    rcases hd with hd | rfl | hd
    · exact hlast pre d₁ post hds q hq₁ hpost d hd hq
    · exact Shows.refl _ _
    · exact absurd hq (hpost d hd)

end Applied

/-! ### Examples -/

/-- A diff with a section for each of two files. -/
def sampleTwoFiles : String :=
  "--- a/c\n+++ b/c\n@@ -1 +1 @@\n-text\n+word\n--- /dev/null\n+++ b/d\n@@ -0,0 +1 @@\n+line\n"

/-- Its sections. -/
def sampleTwoFilesSections : List ParsedFileDiff :=
  [⟨some ⟨"c"⟩, some ⟨"c"⟩, none, none, [⟨1, 1, 1, [.remove "text\n".toList, .add "word\n".toList]⟩]⟩,
    ⟨none, some ⟨"d"⟩, none, none, [⟨0, 0, 1, [.add "line\n".toList]⟩]⟩]

/-- Both changes show. -/
theorem sections_shown_two_files :
    ∃ p r, NvPatch.fromUnifiedDiff sampleSha256Hex "read" twoLines sampleTwoFiles = .ok (some p) ∧
      (p.apply sampleSha256Hex false twoLines).1 = .ok r ∧
      ∀ d ∈ sampleTwoFilesSections, ∀ q ∈ d.locs,
        Shows (textAt twoLines q) (d.makes twoLines q) (textAt (p.apply sampleSha256Hex false twoLines).2 q) := by
  have hparse : parseFileDiffs sampleTwoFiles = .ok sampleTwoFilesSections := by decide +kernel
  have hread : NvPatch.fromUnifiedDiff sampleSha256Hex "read" twoLines sampleTwoFiles =
      .ok (some ⟨"read", none, [.new sampleSha256Hex ⟨"c"⟩ "text\nline\n" "word\nline\n",
        .create sampleSha256Hex ⟨"d"⟩ "line\n"]⟩) := by
    decide +kernel
  refine ⟨_, ⟨"read", [⟨"c"⟩, ⟨"d"⟩], false⟩, hread, by decide +kernel, ?_⟩
  exact (sections_shown_iff hparse hread (Prod.ext (by decide +kernel) rfl)).mpr (lastMakesAll_of_pairwise (by decide))

/-- A diff with two sections for one file, one for each of its lines. -/
def sampleOneFileTwice : String :=
  "--- a/c\n+++ b/c\n@@ -1 +1 @@\n-text\n+word\n--- a/c\n+++ b/c\n@@ -2 +2 @@\n-line\n+row\n"

/-- **The patch is accepted and applied, and the first section is undone.** -/
theorem section_lost :
    ¬ ∀ (sha256Hex : String → String) (id diff : String) (ds : List ParsedFileDiff) (p : NvPatch) (t t' : FsTree)
      (r : ApplyReport), parseFileDiffs diff = .ok ds → NvPatch.fromUnifiedDiff sha256Hex id t diff = .ok (some p) →
      p.apply sha256Hex false t = (.ok r, t') →
      ∀ d ∈ ds, ∀ q ∈ d.locs, Shows (textAt t q) (d.makes t q) (textAt t' q) := by
  intro h
  have hparse : parseFileDiffs sampleOneFileTwice = .ok
      [⟨some ⟨"c"⟩, some ⟨"c"⟩, none, none, [⟨1, 1, 1, [.remove "text\n".toList, .add "word\n".toList]⟩]⟩,
        ⟨some ⟨"c"⟩, some ⟨"c"⟩, none, none, [⟨2, 1, 1, [.remove "line\n".toList, .add "row\n".toList]⟩]⟩] := by
    decide +kernel
  have hread : NvPatch.fromUnifiedDiff sampleSha256Hex "read" twoLines sampleOneFileTwice =
      .ok (some ⟨"read", none, [.new sampleSha256Hex ⟨"c"⟩ "text\nline\n" "word\nline\n",
        .new sampleSha256Hex ⟨"c"⟩ "text\nline\n" "text\nrow\n"]⟩) := by
    decide +kernel
  have hshows := h sampleSha256Hex "read" _ _ _ twoLines _ ⟨"read", [⟨"c"⟩, ⟨"c"⟩], false⟩ hparse hread
    (Prod.ext (by decide +kernel) rfl) _ (List.mem_cons_self ..) ["c"] (by decide)
  -- the line the first section removes is back
  have hremoved := hshows.removed "text\n".toList (by decide +kernel)
  exact absurd hremoved (by decide +kernel)

end Nerve.Patch
