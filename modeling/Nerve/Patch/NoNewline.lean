import Nerve.Patch.DiffRoundTrip
import Nerve.Patch.Placement

/-!
# Lines without a newline

A diff says of a line that it has no newline by a marker on the line after it. The reader stops at
the counts of the hunk, which the marker is no part of, so that one behind the last line is never
seen; and with the newline it takes away a carriage return. Both are all that goes wrong
(`Readable`): the lines of a hunk are read back as they are just if the hunk is `Readable`, and the
diff of two texts turns one into the other just if all its hunks are (`reads_markers_iff`).
-/

namespace Nerve.Patch

open Nerve.Text Nerve.LineDiff

/-- The diff of two texts, as it is read, turns the first into the second. -/
def Turns (textDiff : TextDiff) (p : PathBuf) (old new : String) : Prop :=
  ∃ files, parseFileDiffs (textDiff old new ("a/" ++ p.text) ("b/" ++ p.text)) = .ok files ∧
    applyHunks old (files.flatMap ParsedFileDiff.hunks) = .ok new

/-! ### One hunk -/

section Lines

variable {lines : List (HunkLine Line)}

theorem addNewline_ne (l : HunkLine Line) : addNewline l ≠ l := by
  intro h
  have hline := congrArg HunkLine.line h
  simp [line_addNewline] at hline

theorem popNewline_addNewline_iff {l : HunkLine Line} :
    HunkLine.popNewline (addNewline l) = l ↔ l.line.getLast? ≠ some '\r' := by
  constructor
  · intro h hcarriage
    have hpop : popNewline (l.line ++ ['\n']) = l.line := by
      have hline := congrArg HunkLine.line h
      cases l <;> exact hline
    rw [popNewline, if_pos List.getLast?_concat, List.dropLast_concat, if_pos hcarriage] at hpop
    have hlength := congrArg List.length hpop
    rw [List.length_dropLast] at hlength
    have hne : l.line ≠ [] := by
      rintro hnil
      rw [hnil] at hcarriage
      cases hcarriage
    have := List.length_pos_iff.mpr hne
    omega
  · exact popNewline_addNewline

/-- Nothing else is read as it is. -/
theorem readLines_eq_iff : readLines lines = lines ↔
    (∀ l, lines.getLast? = some l → Terminated l.line) ∧
      ∀ l ∈ lines, ¬ Terminated l.line → l.line.getLast? ≠ some '\r' := by
  constructor
  · intro h
    induction lines with
    | nil => simp
    | cons l lines ih =>
      rcases lines with _ | ⟨l', lines⟩
      · rw [readLines] at h
        split_ifs at h with hl
        · simp [hl]
        · exact absurd (List.cons.inj h).1 (addNewline_ne l)
      · rw [readLines] at h
        obtain ⟨hfirst, hrest⟩ := List.cons.inj h
        obtain ⟨hlast, hcarriage⟩ := ih hrest
        refine ⟨fun m hm => hlast m (by rwa [List.getLast?_cons_cons] at hm), fun m hm hopen => ?_⟩
        rcases List.mem_cons.mp hm with rfl | hm'
        · rw [if_neg hopen] at hfirst
          exact popNewline_addNewline_iff.mp hfirst
        · exact hcarriage m hm' hopen
  · rintro ⟨hlast, hcarriage⟩
    exact readLines_of_terminated hlast hcarriage

theorem readable_iff {h : Hunk Line} : Readable h ↔ readLines h.lines = h.lines :=
  ⟨fun hread => readLines_of_terminated hread.last hread.carriage, fun heq =>
    ⟨(readLines_eq_iff.mp heq).1, (readLines_eq_iff.mp heq).2⟩⟩

/-- **The lines of a hunk are read back just if it is readable.** -/
theorem parseHunkLines_eq_iff (h : Hunk Line) (rest : List Line) :
    (∃ rest', parseHunkLines (olds h.lines).length (news h.lines).length 0 0 [] (h.lines.flatMap renderLine ++ rest) =
      .ok (h.lines, rest')) ↔ Readable h := by
  rw [readable_iff, parseHunkLines_render rest (Nat.zero_add _) (Nat.zero_add _)]
  simp

end Lines

/-! ### What the reader makes of a diff -/

section Diff

variable {textDiff : TextDiff} {old new : String} {hunks : List (Hunk Line)} {p : PathBuf}

/-- A diff is read with its hunks as they can be. -/
theorem parseFileDiffs_correctDiff (hp : p.IsWord) (hdiff : CorrectDiff textDiff old new hunks)
    (hlengths : old.length < 2 ^ 63 ∧ new.length < 2 ^ 63) :
    ∃ files, parseFileDiffs (textDiff old new ("a/" ++ p.text) ("b/" ++ p.text)) = .ok files ∧
      files.flatMap ParsedFileDiff.hunks = hunks.map fun h => parsedHunk (asRead h) := by
  have hword : ∀ q ∈ some p, q.IsWord := fun q hq => Option.some.inj hq ▸ hp
  have hpath (side : Char) : (String.ofList [side, '/'] ++ p.text).toList = headerPath side (some p) := by
    simp [headerPath]
  have hlines : splitInclusive '\n' (textDiff old new ("a/" ++ p.text) ("b/" ++ p.text)).toList =
      renderDiff (headerPath 'a' (some p)) (headerPath 'b' (some p)) hunks := by
    rw [hdiff.text, show ("a/" ++ p.text).toList = headerPath 'a' (some p) from hpath 'a',
      show ("b/" ++ p.text).toList = headerPath 'b' (some p) from hpath 'b', splitInclusive_flatten]
    exact hdiff.isLine (newline_not_mem_headerPath (Or.inl rfl) hword) (newline_not_mem_headerPath (Or.inr rfl) hword)
  obtain ⟨fuel, hfuel⟩ : ∃ n, (renderDiff (headerPath 'a' (some p)) (headerPath 'b' (some p)) hunks).length = n + 1 :=
    ⟨_, rfl⟩
  have hsections := @parseSections_renderDiff hunks (some p) (some p) hword hword (hdiff.bounds hlengths) [] []
    (by simp) (by simp) fuel [] (by cases fuel <;> rfl)
  have hrenames := @parsePureRenameDiffs_skip _ [] (@not_startsBlock_renderDiff hunks (headerPath 'a' (some p))
    (headerPath 'b' (some p)))
  rw [List.append_nil] at hsections hrenames
  rw [List.append_nil] at hsections
  refine ⟨_, by rw [parseFileDiffs]; simp only [hlines, hfuel, hsections, hrenames]; rfl, ?_⟩
  split_ifs with hnil
  · rw [hnil]
    rfl
  · simp

/-- Behind its header the hunk is in its place. -/
theorem targetIndex_asRead (hdiff : CorrectDiff textDiff old new hunks) : ∀ h ∈ hunks,
    (parsedHunk (asRead h)).targetIndex = h.oldIndex := by
  intro h hh
  have hbound := (hdiff.diffs.bounds h hh).1
  have hstart : (parsedHunk (asRead h)).oldStart = printedStart h.oldIndex (olds h.lines).length := by
    rw [parsedHunk, asRead, length_readLines.1]
  rw [ParsedHunk.targetIndex, hstart, printedStart]
  split_ifs with hzero
  · have hnil := hdiff.context h hh (List.length_eq_zero_iff.mp hzero)
    rw [hnil, List.length_nil] at hbound
    omega
  · omega

/-- Where the hunks as they are read lead somewhere, they have the same old lines, and lead to the
same lines but for those that have no newline. -/
theorem places_asRead {i j : Nat} {oldLines newLines newLines' : List Line} (hdiffs : Diffs i j oldLines hunks newLines)
    (hindex : ∀ h ∈ hunks, (parsedHunk (asRead h)).targetIndex = h.oldIndex)
    (hplaces : Places ParsedHunk.targetIndex ParsedHunk.lines i oldLines (hunks.map fun h => parsedHunk (asRead h))
      newLines') :
    List.Forall₂ (fun line line' => Terminated line → line = line') newLines newLines' ∧
      (∀ h ∈ hunks, olds h.lines = olds (readLines h.lines)) ∧
      (newLines = newLines' → ∀ h ∈ hunks, news h.lines = news (readLines h.lines)) := by
  have hrefl (lines : List Line) : List.Forall₂ (fun line line' => Terminated line → line = line') lines lines :=
    List.forall₂_same.mpr fun _ _ _ => rfl
  induction hdiffs generalizing newLines' with
  | rest i j kept =>
    cases hplaces
    exact ⟨hrefl kept, by simp, by simp⟩
  | @hunk i j kept h hunks oldLines newLines hold hnew hrest ih =>
    rw [List.map_cons] at hplaces
    generalize hlines : kept ++ (olds h.lines ++ oldLines) = lines at hplaces
    cases hplaces with
    | @hunk _ kept' _ _ oldLines' newLines' hindex' hplaces =>
      rw [hindex h List.mem_cons_self] at hindex' hplaces
      obtain ⟨rfl, hcovered⟩ := List.append_inj hlines (by omega)
      obtain ⟨holds, rfl⟩ := List.append_inj hcovered length_readLines.1.symm
      have hlength : (olds (parsedHunk (asRead h)).lines).length = (olds h.lines).length := length_readLines.1
      rw [hlength] at hplaces
      obtain ⟨hrel, hallOlds, hallNews⟩ := ih (fun g hg => hindex g (List.mem_cons_of_mem h hg)) hplaces
      refine ⟨?_, List.forall_mem_cons.mpr ⟨holds, hallOlds⟩, fun heq => ?_⟩
      · exact List.rel_append (hrefl kept) (List.rel_append (forall₂_news forall₂_readLines) hrel)
      · obtain ⟨hnews, hnewLines⟩ := List.append_inj (List.append_cancel_left heq) length_readLines.2.symm
        exact List.forall_mem_cons.mpr ⟨hnews, hallNews hnewLines⟩

/-- **The diff of two texts turns the first into the second just if all its hunks are readable.** -/
theorem turns_iff (hp : p.IsWord) (hdiff : CorrectDiff textDiff old new hunks)
    (hlengths : old.length < 2 ^ 63 ∧ new.length < 2 ^ 63) :
    Turns textDiff p old new ↔ ∀ h ∈ hunks, Readable h := by
  obtain ⟨files, hfiles, hhunks⟩ := parseFileDiffs_correctDiff hp hdiff hlengths
  have hturns : Turns textDiff p old new ↔ applyHunks old (hunks.map fun h => parsedHunk (asRead h)) = .ok new := by
    rw [Turns, hfiles]
    constructor
    · rintro ⟨files', heq, happly⟩
      obtain rfl := Except.ok.inj heq
      rwa [hhunks] at happly
    · intro happly
      exact ⟨files, rfl, by rwa [hhunks]⟩
  rw [hturns]
  constructor
  · intro happly
    obtain ⟨-, newLines, hplaces, htext⟩ := applyHunks_eq_ok.mp happly
    obtain ⟨hrel, holds, hnews⟩ := places_asRead hdiff.diffs (targetIndex_asRead hdiff) hplaces
    have heq : splitLinesPreservingEndings new = newLines := by
      refine eq_of_flatten_eq hrel (fun line hline line' h => h ?_) ?_
      · obtain ⟨l, -, rfl⟩ := isLine_of_mem_dropLast hline
        exact List.getLast?_concat
      · rw [splitLinesPreservingEndings, flatten_splitInclusive, htext, String.toList_ofList]
    intro h hh
    exact readable_iff.mpr (eq_of_olds_news forall₂_readLines (holds h hh) (hnews heq h hh)).symm
  · intro hreadable
    have hsame : (hunks.map fun h => parsedHunk (asRead h)) = hunks.map parsedHunk :=
      List.map_congr_left fun h hh => by rw [(hreadable h hh).asRead]
    rw [hsame]
    exact applyHunks_parsedHunk hdiff

/-- **The markers are read as they are meant just where a hunk is readable:** in its lines, and for
a text that the diff is applied to. -/
theorem reads_markers_iff (hp : p.IsWord) (hdiff : CorrectDiff textDiff old new hunks)
    (hlengths : old.length < 2 ^ 63 ∧ new.length < 2 ^ 63) :
    (∀ (h : Hunk Line) (rest : List Line), (∃ rest', parseHunkLines (olds h.lines).length (news h.lines).length 0 0 []
        (h.lines.flatMap renderLine ++ rest) = .ok (h.lines, rest')) ↔ Readable h) ∧
      (Turns textDiff p old new ↔ ∀ h ∈ hunks, Readable h) :=
  ⟨parseHunkLines_eq_iff, turns_iff hp hdiff hlengths⟩

end Diff

theorem reads_markers_replace :
    (∀ (h : Hunk Line) (rest : List Line), (∃ rest', parseHunkLines (olds h.lines).length (news h.lines).length 0 0 []
        (h.lines.flatMap renderLine ++ rest) = .ok (h.lines, rest')) ↔ Readable h) ∧
      Turns replaceTextDiff ⟨"src/lib.rs"⟩ "a" "a\n" := by
  obtain ⟨hhunks, hturns⟩ := reads_markers_iff (p := ⟨"src/lib.rs"⟩) (Text.isWord_of_all (by decide))
    (correctDiff_replaceTextDiff "a" "a\n") (by decide)
  refine ⟨hhunks, hturns.mpr fun h hh => ?_⟩
  obtain rfl : h = _ := List.mem_singleton.mp hh
  exact readable_iff.mpr (by decide)

/-- **Without a newline at the end of the new text** the one it gets is that of the diff. -/
theorem not_turns_last :
    parseHunkLines 1 1 0 0 [] ["-a\n".toList, "+b\n".toList, "\\ No newline at end of file\n".toList] =
        .ok ([.remove "a\n".toList, .add "b\n".toList], ["\\ No newline at end of file\n".toList]) ∧
      ¬ Turns replaceTextDiff ⟨"src/lib.rs"⟩ "a\n" "b" := by
  refine ⟨by decide +kernel, fun h => ?_⟩
  have hreadable := (turns_iff (Text.isWord_of_all (by decide)) (correctDiff_replaceTextDiff "a\n" "b")
    (by decide)).mp h _ (List.mem_singleton_self _)
  exact absurd (readable_iff.mp hreadable) (by decide)

end Nerve.Patch
