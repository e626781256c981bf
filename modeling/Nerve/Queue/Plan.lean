import Nerve.Queue.Model
import Nerve.Review.Verdict
import Nerve.Store.Model

/-!
# The steps of a plan

A plan is Markdown with the sections that plan mode asks for, and each item of the list in `##
Steps` is a step (`plan.rs`). The steps are numbered as they come, whatever number their author gave
them (`index_parsePlanSteps`), so that the tasks they become have names of their own
(`stepTaskId_injective`).
-/

namespace Nerve.Queue

open Text Review Patch

/-! ### Sections -/

def lineIsH2 (line : List Char) : Bool :=
  let trimmed := trimStart line
  "## ".toList.isPrefixOf trimmed && !"### ".toList.isPrefixOf trimmed

/-- The label of a heading. Of an indented one its number signs are not taken off. -/
def headingLabel (line : List Char) : List Char := (trim (line.dropWhile (· == '#'))).map Char.toLower

/-- `extract_section`. -/
def extractSection (md : List Char) (heading : String) : Option (List Char) :=
  let target := heading.toList.map Char.toLower
  match (lines md).dropWhile fun line => !(lineIsH2 line && headingLabel line == target) with
  | [] => none
  | _ :: rest => some (['\n'].intercalate (rest.takeWhile fun line => !lineIsH2 line))

/-! ### Steps -/

structure PlanStep where
  index : Nat
  title : String
  detail : String
  deriving DecidableEq, Repr

/-- What stands behind a list marker: white space, and then a text. -/
def markerText : List Char → Option (List Char)
  | [] => none
  | c :: rest =>
    if !isWhitespace c then none
    else
      let text := trim (c :: rest)
      if text.isEmpty then none else some text

def stripListMarker (line : List Char) : Option (List Char) :=
  let trimmed := trimStart line
  match trimmed with
  | '-' :: rest | '*' :: rest | '+' :: rest => markerText rest
  | _ =>
    if (trimmed.takeWhile Char.isDigit).isEmpty then none
    else
      match trimmed.dropWhile Char.isDigit with
      | '.' :: rest | ')' :: rest => markerText rest
      | _ => none

def finishStep (index : Nat) (title : List Char) (continuations : List (List Char)) : PlanStep :=
  let title := trim title
  let detail := if continuations.isEmpty then title else trim (['\n'].intercalate (title :: continuations))
  ⟨index, String.ofList title, String.ofList detail⟩

/-- The steps so far, the one being read, with its title and what continues it, and the indentation
of the first marker. -/
structure StepsSoFar where
  steps : List PlanStep
  current : Option (List Char × List (List Char))
  baseIndent : Option Nat

/-- The step being read is finished. -/
def StepsSoFar.finish (s : StepsSoFar) : List PlanStep :=
  match s.current with
  | none => s.steps
  | some (title, continuations) => s.steps ++ [finishStep (s.steps.length + 1) title continuations]

/-- The bytes of white space before the text of a line. -/
def indentOf (raw : List Char) : Nat := ((raw.takeWhile isWhitespace).map Char.utf8Size).sum

def StepsSoFar.add (s : StepsSoFar) (raw : List Char) : StepsSoFar :=
  let continued : StepsSoFar :=
    let trimmed := trim raw
    if trimmed.isEmpty then s
    else { s with current := s.current.map fun current => (current.1, current.2 ++ [trimmed]) }
  match stripListMarker raw with
  | some title =>
    -- a marker further in belongs to the step it stands in
    if s.baseIndent.all fun base => indentOf raw ≤ base then
      ⟨s.finish, some (title, []), s.baseIndent <|> some (indentOf raw)⟩
    else continued
  | none => continued

def parsePlanSteps (stepsMarkdown : List Char) : List PlanStep :=
  ((lines stepsMarkdown).foldl StepsSoFar.add ⟨[], none, none⟩).finish

def parsePlanStepsFromMarkdown (planMarkdown : String) : List PlanStep :=
  match extractSection planMarkdown.toList "Steps" with
  | some body => parsePlanSteps body
  | none => []

/-! ### The other sections -/

inductive PlanError where
  | emptyPlan
  | missingSection (name : String)
  deriving DecidableEq, Repr

structure PlanSections where
  objective : String
  affectedFiles : List PathBuf
  steps : String
  risks : Option String
  estimatedLoc : Option Nat

/-- `str::trim_matches` of a character. -/
def trimMatches (c : Char) (s : List Char) : List Char := ((s.dropWhile (· == c)).reverse.dropWhile (· == c)).reverse

/-- `str::trim_end_matches` of a character. -/
def trimEndMatches (c : Char) (s : List Char) : List Char := (s.reverse.dropWhile (· == c)).reverse

def parseBulletPaths (body : List Char) : List PathBuf :=
  (lines body).filterMap fun raw =>
    let line := trim raw
    match stripPrefix "- ".toList line <|> stripPrefix "* ".toList line with
    | none => none
    | some candidate =>
      let cleaned := trim (trimEndMatches ',' (trim (trimMatches '\x60' (trim candidate))))
      if cleaned.isEmpty then none else some ⟨String.ofList cleaned⟩

def parseFirstInteger (body : List Char) : Option Nat :=
  let digits := (body.dropWhile fun c => !c.isDigit).takeWhile Char.isDigit
  if digits.isEmpty then none else parseUsize digits

def validatePlanMarkdown (md : String) : Except PlanError PlanSections :=
  if (trim md.toList).isEmpty then .error .emptyPlan
  else
    match extractSection md.toList "Objective" with
    | none => .error (.missingSection "Objective")
    | some objective =>
      match extractSection md.toList "Affected files" with
      | none => .error (.missingSection "Affected files")
      | some affectedRaw =>
        match extractSection md.toList "Steps" with
        | none => .error (.missingSection "Steps")
        | some steps =>
          if (trim objective).isEmpty then .error (.missingSection "Objective")
          else if (trim steps).isEmpty then .error (.missingSection "Steps")
          else if (parseBulletPaths affectedRaw).isEmpty then .error (.missingSection "Affected files")
          else
            .ok {
              objective := String.ofList (trim objective)
              affectedFiles := parseBulletPaths affectedRaw
              steps := String.ofList (trim steps)
              risks := ((extractSection md.toList "Risks").map fun risks => String.ofList (trim risks)).filter fun s =>
                !s.isEmpty
              estimatedLoc := (extractSection md.toList "Estimated LOC").bind parseFirstInteger }

/-! ### Tasks -/

def planStepPrompt (objective : String) (step : PlanStep) (affectedFiles : List PathBuf) : String :=
  let objective := String.ofList (trim objective.toList)
  (if objective.isEmpty then "" else "Plan objective: " ++ objective ++ "\n\n") ++
    s!"Step {step.index}: {String.ofList (trim step.detail.toList)}" ++
    if affectedFiles.isEmpty then ""
    else affectedFiles.foldl (fun prompt file => prompt ++ "\n- " ++ file.text) "\n\nAffected files:"

/-- A number in two digits at least. -/
def twoDigits (n : Nat) : List Char := if n < 10 then '0' :: digits n else digits n

/-- The id of the task of a step. -/
def stepTaskId (planId : String) (index : Nat) : String := planId ++ "-step-" ++ String.ofList (twoDigits index)

/-- `plan_step_to_patrol_task`, at the given time. -/
def planStepToPatrolTask (now : Nat) (planId objective : String) (step : PlanStep) (affectedFiles : List PathBuf)
    (budgetMicrousd : Nat) : PatrolTask where
  taskId := stepTaskId planId step.index
  prompt := planStepPrompt objective step affectedFiles
  budgetMicrousd := budgetMicrousd
  mcpServers := []
  createdAt := some now

/-! ### Numbers and names -/

theorem index_finish {s : StepsSoFar} (h : s.steps.map PlanStep.index = List.range' 1 s.steps.length) :
    s.finish.map PlanStep.index = List.range' 1 s.finish.length := by
  unfold StepsSoFar.finish
  rcases s.current with _ | ⟨title, continuations⟩
  · exact h
  · rw [List.map_append, h, List.length_append, List.length_singleton, List.range'_concat]
    simp [finishStep, Nat.add_comm]

theorem index_add {s : StepsSoFar} (h : s.steps.map PlanStep.index = List.range' 1 s.steps.length) (raw : List Char) :
    (s.add raw).steps.map PlanStep.index = List.range' 1 (s.add raw).steps.length := by
  unfold StepsSoFar.add
  rcases stripListMarker raw with _ | title <;> simp only
  · split_ifs <;> exact h
  · split_ifs
    · exact index_finish h
    · exact h
    · exact h

/-- The steps are numbered from one. -/
theorem index_parsePlanSteps (stepsMarkdown : List Char) :
    (parsePlanSteps stepsMarkdown).map PlanStep.index = List.range' 1 (parsePlanSteps stepsMarkdown).length := by
  refine index_finish ?_
  have hall (raws : List (List Char)) {s : StepsSoFar} (h : s.steps.map PlanStep.index = List.range' 1 s.steps.length) :
      (raws.foldl StepsSoFar.add s).steps.map PlanStep.index =
        List.range' 1 (raws.foldl StepsSoFar.add s).steps.length := by
    induction raws generalizing s with
    | nil => exact h
    | cons raw raws ih => exact ih (index_add h raw)
  exact hall _ rfl

theorem index_parsePlanStepsFromMarkdown (planMarkdown : String) :
    (parsePlanStepsFromMarkdown planMarkdown).map PlanStep.index =
      List.range' 1 (parsePlanStepsFromMarkdown planMarkdown).length := by
  unfold parsePlanStepsFromMarkdown
  rcases extractSection planMarkdown.toList "Steps" with _ | body
  · rfl
  · exact index_parsePlanSteps body

example : (parsePlanStepsFromMarkdown "## Steps\n3. one\n   - detail\n2) two\n## Risks\n- none").map PlanStep.detail =
    ["one\n- detail", "two"] := by decide +kernel

theorem twoDigits_injective : Function.Injective twoDigits := by
  have hvalue (n : Nat) : Nat.ofDigitChars 10 (twoDigits n) 0 = n := by
    unfold twoDigits
    split_ifs
    · exact Nat.ofDigitChars_ten_toDigits
    · exact Nat.ofDigitChars_ten_toDigits
  intro m n h
  rw [← hvalue m, h, hvalue]

theorem stepTaskId_injective (planId : String) : Function.Injective (stepTaskId planId) := by
  intro m n h
  have := congrArg String.toList h
  simp only [stepTaskId, String.toList_append, String.toList_ofList] at this
  exact twoDigits_injective (List.append_cancel_left this)

/-- However many steps there are, each has a task of its own. -/
theorem nodup_stepTaskId (planId planMarkdown : String) :
    ((parsePlanStepsFromMarkdown planMarkdown).map fun step => stepTaskId planId step.index).Nodup := by
  have hindex : ((parsePlanStepsFromMarkdown planMarkdown).map PlanStep.index).Nodup := by
    rw [index_parsePlanStepsFromMarkdown]
    exact List.nodup_range'
  have := hindex.map (stepTaskId_injective planId)
  rwa [List.map_map] at this

end Nerve.Queue
