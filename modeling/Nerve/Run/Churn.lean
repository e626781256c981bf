import Mathlib.Algebra.BigOperators.Group.List.Basic
import Nerve.Patch.DiffRoundTrip
import Nerve.Run.ApplyGate

/-!
# How many lines a patch changes

The classifier counts the lines of a patch's unified diff that begin with `+` or `-` and not with `+++` or
`---`, which are taken for headers. So an added line whose text begins with `++` is not counted, and no
removed one whose text begins with `--`; and a path with a newline in it breaks a header into lines that
can be counted. `linesChanged_iff` says of every patch that the count is right exactly if these two
make up for each other; where no path has a newline, exactly if no such line is changed. An undercount lets
a patch through that is over the limit (`hidden_change_applied`).
-/

namespace Nerve.Run

open Nerve.Patch LineDiff Text

/-! ### What is to be counted -/

/-- The line is added or removed. -/
def changes : HunkLine Line → Bool
  | .context _ => false
  | .add _ | .remove _ => true

/-- It looks like a header when it is written. -/
def hidden : HunkLine Line → Bool
  | .context _ => false
  | .add line => ['+', '+'].isPrefixOf line
  | .remove line => ['-', '-'].isPrefixOf line

/-- The headers of a diff alone. -/
def headersOnly : TextDiff := fun _ _ oldPath newPath =>
  "--- " ++ oldPath ++ "\n+++ " ++ newPath ++ "\n"

/-- The lines of the headers, or of a rename's section, that count as changed. -/
def forgedLines (f : FilePatch) : Nat := (Review.lines (f.toUnifiedDiff headersOnly).toList).countP countsAsChanged

section Churn

variable (hunks : (old new : String) → List (Hunk Line))

/-- The lines of the entry's line diff. -/
def diffLines (f : FilePatch) : List (HunkLine Line) :=
  if f.original = f.modified then [] else (hunks f.original f.modified).flatMap Hunk.lines

def touchedFiles (p : NvPatch) : List FilePatch := p.files.filter fun f => !f.isNoop

/-- The lines added or removed by the patch. -/
def churn (p : NvPatch) : Nat := ((touchedFiles p).map fun f => (diffLines hunks f).countP changes).sum

/-- The lines among them that look like headers. -/
def hiddenChurn (p : NvPatch) : Nat := ((touchedFiles p).map fun f => (diffLines hunks f).countP hidden).sum

def forgedChurn (p : NvPatch) : Nat := ((touchedFiles p).map forgedLines).sum

/-- The classifier counts what is changed, and enforces its limit on it. -/
structure CountsChurn (X : Externals) (p : NvPatch) : Prop where
  counted : ∀ cfg, (classifyApply X (some p) cfg).linesChanged = churn hunks p
  enforced : ∀ wantApply cfg, cfg.mode = .enforce → cfg.maxLines < churn hunks p →
    ∃ c, applyClassifierDecision X wantApply (some p) cfg = (false, some c) ∧ c.downgraded = wantApply

end Churn

/-! ### Lines and their ends -/

section Lines

variable {line : List Char} {c : Char}

theorem isPrefixOf_concat {p : List Char} (hc : c ∉ p) : p.isPrefixOf (line ++ [c]) = p.isPrefixOf line := by
  rw [Bool.eq_iff_iff, List.isPrefixOf_iff_prefix, List.isPrefixOf_iff_prefix, List.prefix_concat_iff]
  refine or_iff_right ?_
  rintro rfl
  exact hc (by simp)

theorem countsAsChanged_concat (hplus : c ≠ '+') (hminus : c ≠ '-') :
    countsAsChanged (line ++ [c]) = countsAsChanged line := by
  unfold countsAsChanged
  rw [isPrefixOf_concat, isPrefixOf_concat, isPrefixOf_concat, isPrefixOf_concat] <;> simp [hplus, hminus]

/-- The end of a line does not count. -/
theorem countP_lines (text : List Char) :
    (Review.lines text).countP countsAsChanged = (splitInclusive '\n' text).countP countsAsChanged := by
  rw [Review.lines, List.countP_map]
  refine List.countP_congr fun line _ => ?_
  rw [Function.comp_apply]
  cases hnewline : stripPrefix ['\n'] line.reverse with
  | none => rfl
  | some rest =>
    have hline : line = rest.reverse ++ ['\n'] := by
      rw [← List.reverse_reverse line, eq_append_of_stripPrefix hnewline, List.reverse_append]
      rfl
    rw [hline, countsAsChanged_concat (by decide) (by decide)]
    cases hreturn : stripPrefix ['\r'] rest with
    | none => simp [hreturn]
    | some rest' =>
      have hrest : rest.reverse = rest'.reverse ++ ['\r'] := by
        rw [eq_append_of_stripPrefix hreturn, List.reverse_append]
        rfl
      rw [hrest, countsAsChanged_concat (by decide) (by decide)]
      simp [hreturn]

end Lines

/-! ### One entry -/

section Entry

variable {textDiff : TextDiff} {hunks : (old new : String) → List (Hunk Line)} {f : FilePatch}

theorem countP_renderLine (l : HunkLine Line) :
    (renderLine l).countP countsAsChanged + [l].countP hidden = [l].countP changes := by
  have hmarker : countsAsChanged (noNewlineMarker.toList ++ ['\n']) = false := by decide
  have htag (line : Line) : countsAsChanged (tag l :: (line ++ ['\n'])) = countsAsChanged (tag l :: line) :=
    show countsAsChanged ((tag l :: line) ++ ['\n']) = _ from countsAsChanged_concat (by decide) (by decide)
  have hline : (renderLine l).countP countsAsChanged = [tag l :: l.line].countP countsAsChanged := by
    unfold renderLine
    split_ifs
    · rfl
    · simp [List.countP_cons, hmarker, htag]
  rw [hline]
  cases l with
  | context line => rfl
  | add line =>
    have hcounts : countsAsChanged ('+' :: line) = !(['+', '+'].isPrefixOf line) := by simp [countsAsChanged]
    by_cases hhidden : ['+', '+'].isPrefixOf line = true <;>
      simp [tag, HunkLine.line, hidden, changes, hcounts, hhidden]
  | remove line =>
    have hcounts : countsAsChanged ('-' :: line) = !(['-', '-'].isPrefixOf line) := by simp [countsAsChanged]
    by_cases hhidden : ['-', '-'].isPrefixOf line = true <;>
      simp [tag, HunkLine.line, hidden, changes, hcounts, hhidden]

theorem countP_renderHunk (h : Hunk Line) :
    (renderHunk h).countP countsAsChanged + h.lines.countP hidden = h.lines.countP changes := by
  have hheader : countsAsChanged (renderHeader h) = false := by simp [renderHeader, countsAsChanged]
  rw [renderHunk, List.countP_cons_of_neg (by simp [hheader])]
  induction h.lines with
  | nil => rfl
  | cons l lines ih =>
    have hl := countP_renderLine l
    rw [List.flatMap_cons, List.countP_append, ← List.singleton_append, List.countP_append, List.countP_append]
    omega

/-- An entry that changes its text is written as the diff of its texts, under headers with its paths. -/
theorem toUnifiedDiff_of_ne (hne : f.original ≠ f.modified) :
    ∃ oldPath newPath, (∀ textDiff, f.toUnifiedDiff textDiff = textDiff f.original f.modified oldPath newPath) ∧
      ((∀ path ∈ f.changedPaths, '\n' ∉ path.text.toList) → '\n' ∉ oldPath.toList ∧ '\n' ∉ newPath.toList) := by
  unfold FilePatch.toUnifiedDiff FilePatch.changedPaths
  cases f.operation with
  | rename origin => exact ⟨_, _, fun textDiff => if_neg hne, fun h => by simpa using h⟩
  | modify | create | delete => exact ⟨_, _, fun textDiff => rfl, fun h => by simpa using h⟩

theorem isNoop_eq_false (heq : f.original = f.modified) (h : f.isNoop = false) : f.isPureRename = true := by
  unfold FilePatch.isNoop at h
  unfold FilePatch.isPureRename
  cases hop : f.operation with
  | rename origin => simpa using heq
  | modify | create | delete => simp [hop, heq] at h

/-- The lines of the hunks alone are cut where they were joined. -/
theorem countP_hunks {old new : String} {hunks : List (Hunk Line)} (hdiff : CorrectDiff textDiff old new hunks) :
    (splitInclusive '\n' (hunks.flatMap renderHunk).flatten).countP countsAsChanged + (hunks.flatMap Hunk.lines).countP hidden =
      (hunks.flatMap Hunk.lines).countP changes := by
  have hlines : ∀ line ∈ hunks.flatMap renderHunk, IsLine '\n' line := fun line hline =>
    hdiff.isLine List.not_mem_nil List.not_mem_nil line (List.mem_cons_of_mem _ (List.mem_cons_of_mem _ hline))
  rw [splitInclusive_flatten hlines]
  clear hdiff hlines
  induction hunks with
  | nil => rfl
  | cons h hunks ih =>
    have hh := countP_renderHunk h
    simp only [List.flatMap_cons, List.countP_append]
    omega

/-- What is counted of an entry, and what is not. -/
theorem changedLineCount_add_hidden {X : Externals}
    (hdiff : f.original ≠ f.modified → CorrectDiff X.textDiff f.original f.modified (hunks f.original f.modified))
    (hnoop : f.isNoop = false) :
    changedLineCount X f + (diffLines hunks f).countP hidden = (diffLines hunks f).countP changes + forgedLines f := by
  rw [changedLineCount, ← List.countP_eq_length_filter]
  by_cases heq : f.original = f.modified
  · -- a rename that changes no text is written without a diff
    have hrename := isNoop_eq_false heq hnoop
    have htext (textDiff : TextDiff) : (f.toUnifiedDiff textDiff).toList = (f.sectionLines hunks).flatten :=
      toUnifiedDiff_toList fun h => by rw [hrename] at h; cases h
    rw [diffLines, if_pos heq, htext, forgedLines, htext]
    simp
  · obtain ⟨oldPath, newPath, htext, -⟩ := toUnifiedDiff_of_ne heq
    have hhunks := countP_hunks (hdiff heq)
    have hheaders : (headersOnly f.original f.modified oldPath newPath).toList =
        ("--- ".toList ++ oldPath.toList ++ '\n' :: ("+++ ".toList ++ newPath.toList)) ++ ['\n'] := by
      simp [headersOnly]
    have hprinted : (X.textDiff f.original f.modified oldPath newPath).toList =
        ("--- ".toList ++ oldPath.toList ++ '\n' :: ("+++ ".toList ++ newPath.toList)) ++
          '\n' :: ((hunks f.original f.modified).flatMap renderHunk).flatten := by
      rw [(hdiff heq).text]
      simp [renderDiff]
    rw [htext, forgedLines, htext, countP_lines, countP_lines, hprinted, hheaders, splitInclusive_append, List.countP_append,
      diffLines, if_neg heq]
    omega

/-- Without a newline in a path the headers are two lines, or the four of a rename. -/
theorem forgedLines_eq_zero (hnoop : f.isNoop = false) (hpaths : ∀ path ∈ f.changedPaths, '\n' ∉ path.text.toList) :
    forgedLines f = 0 := by
  rw [forgedLines, countP_lines, List.countP_eq_zero]
  by_cases heq : f.original = f.modified
  · have hrename := isNoop_eq_false heq hnoop
    have htext : (f.toUnifiedDiff headersOnly).toList = (f.sectionLines fun _ _ => []).flatten :=
      toUnifiedDiff_toList fun h => by rw [hrename] at h; cases h
    rw [htext, FilePatch.sectionLines, if_pos hrename, splitInclusive_flatten]
    · simp [FilePatch.renameLines, countsAsChanged]
    · rw [changedPaths_of_isPureRename hrename] at hpaths
      exact isLine_renameLines (hpaths _ (by simp)) (hpaths _ (by simp))
  · obtain ⟨oldPath, newPath, htext, hnewline⟩ := toUnifiedDiff_of_ne heq
    obtain ⟨hold, hnew⟩ := hnewline hpaths
    have hlines : (headersOnly f.original f.modified oldPath newPath).toList =
        ["--- ".toList ++ oldPath.toList ++ ['\n'], "+++ ".toList ++ newPath.toList ++ ['\n']].flatten := by
      simp [headersOnly]
    rw [htext, hlines, splitInclusive_flatten]
    · simp [countsAsChanged]
    · rintro line hline
      rcases List.mem_pair.mp hline with rfl | rfl
      · exact ⟨"--- ".toList ++ oldPath.toList, by simp [hold], rfl⟩
      · exact ⟨"+++ ".toList ++ newPath.toList, by simp [hnew], rfl⟩

end Entry

/-! ### Every patch -/

section Patch

variable (X : Externals) (hunks : (old new : String) → List (Hunk Line)) (p : NvPatch)

/-- **What is counted of a patch, and what is not.** -/
theorem linesChanged_add_hidden (cfg : ApplyClassifierConfig)
    (hdiff : ∀ f ∈ p.files, f.original ≠ f.modified →
      CorrectDiff X.textDiff f.original f.modified (hunks f.original f.modified)) :
    (classifyApply X (some p) cfg).linesChanged + hiddenChurn hunks p = churn hunks p + forgedChurn p := by
  show ((touchedFiles p).map (changedLineCount X)).sum + hiddenChurn hunks p = churn hunks p + forgedChurn p
  rw [hiddenChurn, churn, forgedChurn, ← List.sum_map_add, ← List.sum_map_add]
  refine congrArg List.sum (List.map_congr_left fun f hf => ?_)
  obtain ⟨hmem, hnoop⟩ := List.mem_filter.mp hf
  exact changedLineCount_add_hidden (hdiff f hmem) (by simpa using hnoop)

/-- More lines than the limit are a reason. -/
theorem decision_of_lines {cfg : ApplyClassifierConfig} (wantApply : Bool) (henforce : cfg.mode = .enforce)
    (hlines : cfg.maxLines < (classifyApply X (some p) cfg).linesChanged) :
    ∃ c, applyClassifierDecision X wantApply (some p) cfg = (false, some c) ∧ c.downgraded = wantApply := by
  have hhigh : (classifyApply X (some p) cfg).isHigh = true := by
    unfold classifyApply at hlines ⊢
    simp only [Option.map_some, Option.getD_some] at hlines
    simp [ApplyClassification.isHigh, hlines.not_ge]
  refine ⟨{ classifyApply X (some p) cfg with downgraded := wantApply }, ?_, rfl⟩
  unfold applyClassifierDecision
  dsimp only
  rw [hhigh, henforce]
  cases wantApply <;> rfl

/-- **The count of changed lines**, of every patch whose line diffs are written as they are: it is the number of
lines added and removed, and the limit holds for these, exactly if as many of them look like headers as the
headers have lines that look like them. Without a newline in a path, exactly if none of them does. -/
theorem linesChanged_iff
    (hdiff : ∀ f ∈ p.files, f.original ≠ f.modified →
      CorrectDiff X.textDiff f.original f.modified (hunks f.original f.modified)) :
    (CountsChurn hunks X p ↔ hiddenChurn hunks p = forgedChurn p) ∧
      ((∀ f ∈ p.files, ∀ path ∈ f.changedPaths, '\n' ∉ path.text.toList) →
        (CountsChurn hunks X p ↔ ∀ f ∈ touchedFiles p, ∀ l ∈ diffLines hunks f, hidden l = false)) := by
  have hiff : CountsChurn hunks X p ↔ hiddenChurn hunks p = forgedChurn p := by
    constructor
    · intro h
      have hcount := linesChanged_add_hidden X hunks p ⟨.off, 0, 0, [], false⟩ hdiff
      have hequal := h.counted ⟨.off, 0, 0, [], false⟩
      omega
    · intro h
      have hcounted (cfg : ApplyClassifierConfig) : (classifyApply X (some p) cfg).linesChanged = churn hunks p := by
        have hcount := linesChanged_add_hidden X hunks p cfg hdiff
        omega
      exact ⟨hcounted, fun wantApply cfg henforce hlines => decision_of_lines X p wantApply henforce (hcounted cfg ▸ hlines)⟩
  refine ⟨hiff, fun hpaths => hiff.trans ?_⟩
  have hforged : forgedChurn p = 0 := by
    rw [forgedChurn, List.sum_eq_zero_iff_forall_eq_nat]
    simp only [List.forall_mem_map]
    exact fun f hf => forgedLines_eq_zero (by simpa using (List.mem_filter.mp hf).2) (hpaths f (List.mem_filter.mp hf).1)
  rw [hforged, hiddenChurn, List.sum_eq_zero_iff_forall_eq_nat]
  simp only [List.forall_mem_map, List.countP_eq_zero, Bool.not_eq_true]

end Patch

/-- One line is replaced, by one that begins with `++`. -/
def incrementPatch : NvPatch := ⟨"p", none, [FilePatch.withOperation sampleSha256Hex ⟨"c"⟩ .modify "i++;\n" "++i;\n"]⟩

def enforcing (maxLines : Nat) : ApplyClassifierConfig := ⟨.enforce, 1, maxLines, [], false⟩

/-- The crate stood in for by the diff that replaces all lines. -/
def replacing : Externals where
  sha256Hex := sampleSha256Hex
  textDiff := replaceTextDiff
  ruleMatches _ _ := .ok false
  globsMatch _ _ := false

/-- **Two lines are changed, one is counted, and a limit of one lets the patch through.** -/
theorem hidden_change_applied :
    churn allLines incrementPatch = 2 ∧
      (classifyApply replacing (some incrementPatch) (enforcing 1)).linesChanged = 1 ∧
      (applyClassifierDecision replacing true (some incrementPatch) (enforcing 1)).1 = true ∧
      ¬ CountsChurn allLines replacing incrementPatch := by
  have hcount : (classifyApply replacing (some incrementPatch) (enforcing 1)).linesChanged = 1 := by decide +kernel
  have hchurn : churn allLines incrementPatch = 2 := by decide +kernel
  refine ⟨hchurn, hcount, by decide +kernel, fun h => ?_⟩
  have hequal := h.counted (enforcing 1)
  rw [hcount, hchurn] at hequal
  cases hequal

/-- The condition, where no line looks like a header. -/
theorem linesChanged_renamed_variable :
    CountsChurn allLines replacing ⟨"p", none, [FilePatch.withOperation sampleSha256Hex ⟨"c"⟩ .modify "i++;\n" "j++;\n"]⟩ :=
  (linesChanged_iff replacing allLines _ fun f _ _ => correctDiff_replaceTextDiff f.original f.modified).1.mpr
    (by decide +kernel)

end Nerve.Run
