import Nerve.Patch.ParseSafety
import Nerve.Queue.Plan

/-!
# Patches in a plan

Plan mode refuses an answer that carries a patch, and looks for it by its marks: the names of the
patch format, a fenced diff, a header of git. What `parse_file_diffs` takes for a patch needs none of
these. Two lines `---` and `+++` with a hunk after them are enough. `rejects_patches_iff` says of
every text that the guard lets no patch through exactly if a mark is in it or no such section;
`bare_section_accepted` is a whole plan that passes, and is a patch.
-/

namespace Nerve.Queue

open FileTree Text Patch

/-! ### The guard -/

/-- `str::contains`. -/
def containsText (needle : String) (text : List Char) : Bool := (before needle.toList text).isSome

def containsPatchArtifact (text : List Char) : Bool :=
  let lower := text.map Char.toLower
  containsText "NvPatch" text || containsText "<<NVPATCH>>" text || containsText "BEGIN NVPATCH" text ||
    containsText "diff --git" text || containsText "```diff" lower || containsText "```patch" lower

/-- What becomes of the lead's answer in plan mode. -/
inductive PlanAnswer where
  | empty
  | patchProduced
  | invalid (e : PlanError)
  | plan (sections : PlanSections)

def PlanAnswer.isPlan : PlanAnswer → Bool
  | plan _ => true
  | _ => false

def answerOf (planMarkdown : String) : PlanAnswer :=
  if (trim planMarkdown.toList).isEmpty then .empty
  else if containsPatchArtifact planMarkdown.toList then .patchProduced
  else
    match validatePlanMarkdown planMarkdown with
    | .error e => .invalid e
    | .ok sections => .plan sections

/-! ### Texts without sections -/

def isOldHeader (line : Line) : Bool := (parseFileHeader line "--- ").isSome

def isNewHeader (line : Line) : Bool := (parseFileHeader line "+++ ").isSome

/-- No `---` header is the last line, and none with a `+++` header behind it has a hunk before the next one. -/
def Sectionless : List Line → Prop
  | [] => True
  | line :: rest =>
    (isOldHeader line = true → ∃ nextLine rest', rest = nextLine :: rest' ∧ (isNewHeader nextLine = true →
      ∀ l ∈ rest'.takeWhile fun l => !isOldHeader l, parseHunkHeader l = none)) ∧ Sectionless rest

/-- The guard is right about the text: what it lets through is no patch. -/
def RejectsPatch (text : String) : Prop := containsPatchArtifact text.toList = false → parseFileDiffs text = .ok []

section Sections

variable {fuel : Nat} {line : Line} {lines : List Line} {hunks : List ParsedHunk}

theorem isOldHeader_of_isNewHeader (h : isNewHeader line = true) : isOldHeader line = false := by
  obtain ⟨path, hpath⟩ := Option.isSome_iff_exists.mp h
  obtain ⟨rest, hplus, -⟩ := Option.bind_eq_some_iff.mp hpath
  have hhead : (trimLineEnd line).head? = some '+' := by
    rw [eq_append_of_stripPrefix hplus]
    rfl
  rw [isOldHeader, parseFileHeader, stripPrefix_eq_none (by decide) (by rw [hhead]; decide)]
  rfl

theorem sectionless_cons_of_not (h : isOldHeader line = false) : Sectionless (line :: lines) ↔ Sectionless lines := by
  rw [Sectionless, h]
  simp

theorem sectionless_cons_cons {nextLine : Line} (h : isOldHeader line = true) :
    Sectionless (line :: nextLine :: lines) ↔ (isNewHeader nextLine = true →
      ∀ l ∈ lines.takeWhile fun l => !isOldHeader l, parseHunkHeader l = none) ∧ Sectionless (nextLine :: lines) := by
  rw [Sectionless, h]
  refine and_congr_left fun _ => ⟨fun h => ?_, fun h _ => ⟨nextLine, lines, rfl, h⟩⟩
  obtain ⟨nextLine', lines', heq, hquiet⟩ := h rfl
  obtain ⟨rfl, rfl⟩ := List.cons.inj heq
  exact hquiet

/-- Up to the next `---` header there is nothing to look for. -/
theorem sectionless_dropWhile : Sectionless lines ↔ Sectionless (lines.dropWhile fun l => !isOldHeader l) := by
  induction lines with
  | nil => rfl
  | cons line lines ih =>
    cases hold : isOldHeader line with
    | true => rw [List.dropWhile_cons_of_neg (by simp [hold])]
    | false => rw [sectionless_cons_of_not hold, List.dropWhile_cons_of_pos (by simp [hold]), ih]

/-- Hunks that are found stay. -/
theorem ne_nil_of_parseHunks {result : List ParsedHunk × List Line} (h : parseHunks fuel hunks lines = .ok result)
    (hne : hunks ≠ []) : result.1 ≠ [] := by
  induction fuel generalizing hunks lines with
  | zero =>
    obtain rfl := Except.ok.inj h
    exact hne
  | succ fuel ih =>
    cases lines with
    | nil =>
      obtain rfl := Except.ok.inj h
      exact hne
    | cons line rest =>
      rw [parseHunks] at h
      split_ifs at h
      · obtain rfl := Except.ok.inj h
        exact hne
      · split at h
        · exact ih h hne
        · split at h
          · cases h
          · exact ih h (by simp)

/-- A section has no hunks exactly if no line up to the next `---` header begins one. -/
theorem parseHunks_nil_iff (hfuel : lines.length ≤ fuel) {rest : List Line} :
    parseHunks fuel [] lines = .ok ([], rest) ↔
      (∀ l ∈ lines.takeWhile fun l => !isOldHeader l, parseHunkHeader l = none) ∧
        rest = lines.dropWhile fun l => !isOldHeader l := by
  induction fuel generalizing lines with
  | zero =>
    obtain rfl := List.length_eq_zero_iff.mp (Nat.le_zero.mp hfuel)
    simp [parseHunks, eq_comm]
  | succ fuel ih =>
    cases lines with
    | nil => simp [parseHunks, eq_comm]
    | cons line lines =>
      rw [parseHunks]
      cases hold : isOldHeader line with
      | true =>
        have hheader : (parseFileHeader line "--- ").isSome = true := hold
        rw [if_pos hheader, List.takeWhile_cons_of_neg (by simp [hold]), List.dropWhile_cons_of_neg (by simp [hold])]
        simp [eq_comm]
      | false =>
        have hheader : ¬ (parseFileHeader line "--- ").isSome = true := by
          rw [← isOldHeader, hold]
          exact Bool.false_ne_true
        rw [if_neg hheader, List.takeWhile_cons_of_pos (by simp [hold]), List.dropWhile_cons_of_pos (by simp [hold]),
          List.forall_mem_cons]
        cases hhunk : parseHunkHeader line with
        | none =>
          rw [and_iff_right rfl]
          exact ih (by simpa using hfuel)
        | some header =>
          obtain ⟨oldStart, oldCount, newStart, newCount⟩ := header
          refine iff_of_false (fun h => ?_) (fun h => by cases h.1.1)
          dsimp only at h
          split at h
          · cases h
          · exact ne_nil_of_parseHunks h (by simp) rfl

/-- **No section is found** exactly if there is none. -/
theorem parseSections_nil_iff (hfuel : lines.length ≤ fuel) : parseSections fuel lines = .ok [] ↔ Sectionless lines := by
  induction fuel generalizing lines with
  | zero =>
    obtain rfl := List.length_eq_zero_iff.mp (Nat.le_zero.mp hfuel)
    simp [parseSections, Sectionless]
  | succ fuel ih =>
    cases lines with
    | nil => simp [parseSections, Sectionless]
    | cons line rest =>
      rw [List.length_cons] at hfuel
      rw [parseSections]
      cases hold : parseFileHeader line "--- " with
      | none =>
        rw [sectionless_cons_of_not (by rw [isOldHeader, hold]; rfl)]
        exact ih (by omega)
      | some oldHeader =>
        have hheader : isOldHeader line = true := by rw [isOldHeader, hold]; rfl
        cases rest with
        | nil =>
          refine iff_of_false (fun h => by cases h) fun h => ?_
          obtain ⟨nextLine, rest', hnil, -⟩ := h.1 hheader
          cases hnil
        | cons nextLine rest' =>
          rw [List.length_cons] at hfuel
          rw [sectionless_cons_cons hheader]
          dsimp only
          cases hnew : parseFileHeader nextLine "+++ " with
          | none =>
            have hnot : isNewHeader nextLine = false := by rw [isNewHeader, hnew]; rfl
            rw [hnot, and_iff_right fun h => by cases h]
            exact ih (by rw [List.length_cons]; omega)
          | some newHeader =>
            have hnewHeader : isNewHeader nextLine = true := by rw [isNewHeader, hnew]; rfl
            rw [imp_iff_right hnewHeader, sectionless_cons_of_not (isOldHeader_of_isNewHeader hnewHeader)]
            have hquiet (rest : List Line) : parseHunks rest'.length [] rest' = .ok ([], rest) ↔ _ := parseHunks_nil_iff le_rfl
            dsimp only
            cases hresult : parseHunks rest'.length [] rest' with
            | error e =>
              refine iff_of_false (fun h => by cases h) fun h => ?_
              have hok := (hquiet _).mpr ⟨h.1, rfl⟩
              rw [hresult] at hok
              cases hok
            | ok result =>
              obtain ⟨hunks, rest⟩ := result
              have hlength : rest.length ≤ rest'.length := Position.length_of_parseHunks hresult
              by_cases hnil : hunks = []
              · subst hnil
                obtain ⟨hnone, hrest⟩ := (hquiet rest).mp hresult
                rw [and_iff_right hnone, sectionless_dropWhile, ← hrest, ← ih (by omega)]
                dsimp only
                cases parseSections fuel rest <;> simp
              · refine iff_of_false (fun h => ?_) fun h => ?_
                · dsimp only at h
                  split at h
                  · cases h
                  · simp [hnil] at h
                · have hok := (hquiet _).mpr ⟨h.1, rfl⟩
                  rw [hresult] at hok
                  exact hnil (Prod.mk.inj (Except.ok.inj hok)).1

end Sections

/-! ### Marks and blocks -/

/-- Without the mark of git's headers there are no blocks. -/
theorem parsePureRenameDiffs_eq_nil {lines : List Line} (h : ∀ line ∈ lines, startsBlock line = false) :
    parsePureRenameDiffs lines = .ok [] := by
  induction lines with
  | nil => rfl
  | cons line lines ih =>
    obtain ⟨hline, hlines⟩ := List.forall_mem_cons.mp h
    rw [parsePureRenameDiffs, hline, if_neg Bool.false_ne_true, ih hlines]

theorem startsBlock_eq_false_of_mark {text : List Char} (h : containsText "diff --git" text = false) :
    ∀ line ∈ splitInclusive '\n' text, startsBlock line = false := by
  intro line hline
  by_contra hstarts
  rw [Bool.not_eq_false, startsBlock, List.isPrefixOf_iff_prefix] at hstarts
  have hmark : "diff --git".toList <:+: text := by
    have hbegins : "diff --git".toList <+: "diff --git ".toList := by decide
    have hinfix := List.infix_of_mem_flatten hline
    rw [flatten_splitInclusive] at hinfix
    exact (hbegins.trans hstarts).isInfix.trans hinfix
  rw [containsText, before_isSome_iff.mpr hmark] at h
  cases h

/-! ### Every text -/

/-- Where there is no mark, what is read is what the sections are. -/
theorem parseFileDiffs_nil_iff {text : String} (h : containsPatchArtifact text.toList = false) :
    parseFileDiffs text = .ok [] ↔ Sectionless (splitInclusive '\n' text.toList) := by
  have hmark : containsText "diff --git" text.toList = false := by
    simp only [containsPatchArtifact, Bool.or_eq_false_iff] at h
    exact h.1.1.2
  rw [← parseSections_nil_iff le_rfl, parseFileDiffs, parsePureRenameDiffs_eq_nil (startsBlock_eq_false_of_mark hmark)]
  cases parseSections _ _ <;> simp

/-- **What the guard of plan mode lets through**, of every text: it is no patch exactly if the text has one of the
marks, or no section that is read. Then nothing that passes can be built into a patch. -/
theorem rejects_patches_iff (text : String) :
    (RejectsPatch text ↔ containsPatchArtifact text.toList = true ∨ Sectionless (splitInclusive '\n' text.toList)) ∧
      (RejectsPatch text → ∀ sha256Hex id t patch,
        NvPatch.fromUnifiedDiff sha256Hex id t text = .ok (some patch) → containsPatchArtifact text.toList = true) := by
  refine ⟨?_, fun h sha256Hex id t patch hpatch => ?_⟩
  · unfold RejectsPatch
    cases hmark : containsPatchArtifact text.toList with
    | true => simp
    | false => simp [parseFileDiffs_nil_iff hmark]
  · by_contra hmark
    have hnil := h (by simpa using hmark)
    rw [NvPatch.fromUnifiedDiff, hnil] at hpatch
    cases hpatch

/-- A plan with a section in its steps. -/
def planWithSection : String :=
  "## Objective\nadd a file\n## Affected files\n- c\n## Steps\n1. add\n--- /dev/null\n+++ b/c\n@@ -0,0 +1 @@\n+text\n## Risks\n- none\n"

/-- **The plan is accepted, and it is a patch.** -/
theorem bare_section_accepted : (answerOf planWithSection).isPlan = true ∧
    (∃ patch, NvPatch.fromUnifiedDiff sampleSha256Hex "p" .empty planWithSection = .ok (some patch)) ∧
    ¬ RejectsPatch planWithSection := by
  have hunmarked : containsPatchArtifact planWithSection.toList = false := by decide +kernel
  have hpatch : NvPatch.fromUnifiedDiff sampleSha256Hex "p" .empty planWithSection =
      .ok (some ⟨"p", none, [FilePatch.create sampleSha256Hex ⟨"c"⟩ "text\n"]⟩) := by decide +kernel
  refine ⟨by decide +kernel, ⟨_, hpatch⟩, fun h => ?_⟩
  rw [NvPatch.fromUnifiedDiff, h hunmarked] at hpatch
  cases hpatch

end Nerve.Queue
