import Nerve.Queue.Plan

/-!
# The lines of a plan's steps

`parse_plan_steps` goes through the lines once. A line with a list marker opens a step, unless it is
further in than the first marker was; what is not blank of the other lines goes to the step that was
opened last. `parsePlanSteps_conserves` says what that makes of every text: from the first marker on the
lines are cut into groups, each begun by the line that opens it, and the details of the steps are these
groups, line by line and in order.
-/

namespace Nerve.Queue

open Text Review

/-! ### The lines -/

def isMarker (raw : List Char) : Bool := (stripListMarker raw).isSome

def isBlank (raw : List Char) : Bool := (trim raw).isEmpty

def fromFirstMarker (raws : List (List Char)) : List (List Char) := raws.dropWhile fun raw => !isMarker raw

/-- The indentation of the first marker. -/
def firstIndent (raws : List (List Char)) : Nat := ((fromFirstMarker raws).head?.map indentOf).getD 0

/-- The line opens a step: it has a marker, no further in than the first one. -/
def opens (base : Nat) (raw : List Char) : Bool := isMarker raw && indentOf raw ≤ base

/-- What is kept of a line: the text behind the marker of one that opens a step, all of another. -/
def keptOf (base : Nat) (raw : List Char) : List Char :=
  if opens base raw then (stripListMarker raw).getD [] else trim raw

def detailLines (step : PlanStep) : List (List Char) := step.detail.toList.splitOn '\n'

/-- The lines that count: from the first marker on, without blank ones. -/
def stepLines (raws : List (List Char)) : List (List Char) := (fromFirstMarker raws).filter fun raw => !isBlank raw

/-- The steps are made of the lines of the text, all of them, each once and where it belongs. -/
structure Conserves (raws : List (List Char)) (steps : List PlanStep) : Prop where
  /-- There is a step for each line that opens one, numbered as they come. -/
  index : steps.map PlanStep.index = List.range' 1 (((fromFirstMarker raws).filter (opens (firstIndent raws))).length)
  title : steps.map (·.title.toList) = ((fromFirstMarker raws).filter (opens (firstIndent raws))).map (keptOf (firstIndent raws))
  /-- The details one after the other are the lines. -/
  lines : steps.flatMap detailLines = (stepLines raws).map (keptOf (firstIndent raws))
  /-- Each has the line that opens it, and the lines up to the next one that does. -/
  groups : ∃ groups : List (List Char × List (List Char)), (groups.flatMap fun g => g.1 :: g.2) = stepLines raws ∧
    (∀ g ∈ groups, opens (firstIndent raws) g.1 = true ∧ ∀ raw ∈ g.2, opens (firstIndent raws) raw = false) ∧
    steps.map detailLines = groups.map fun g => (g.1 :: g.2).map (keptOf (firstIndent raws))

/-! ### What a line has -/

section Line

variable {raw title : List Char} {base : Nat}

theorem newline_notMem_lines {text line : List Char} (h : line ∈ lines text) : '\n' ∉ line := by
  obtain ⟨whole, hwhole, rfl⟩ := List.mem_map.mp h
  intro hmem
  cases hnewline : stripPrefix ['\n'] whole.reverse with
  | none =>
    rw [hnewline] at hmem
    rcases isLine_or_isOpenLine hwhole with ⟨l, -, rfl⟩ | ⟨hopen, -⟩
    · simp [stripPrefix] at hnewline
    · exact hopen hmem
  | some rest =>
    rw [hnewline] at hmem
    have hrest := eq_append_of_stripPrefix hnewline
    rcases isLine_or_isOpenLine hwhole with ⟨l, hl, rfl⟩ | ⟨hopen, -⟩
    · obtain rfl : l.reverse = rest := by simpa using hrest
      refine hl ?_
      cases hreturn : stripPrefix ['\r'] l.reverse with
      | none => simpa [hreturn] using hmem
      | some rest' =>
        have hmem' : '\n' ∈ rest' := by simpa [hreturn] using hmem
        rw [← List.mem_reverse, eq_append_of_stripPrefix hreturn]
        exact List.mem_cons_of_mem _ hmem'
    · exact hopen (List.mem_reverse.mp (by rw [hrest]; exact List.mem_cons_self))

theorem markerText_eq_some {rest : List Char} (h : markerText rest = some title) : title ≠ [] ∧ title = trim rest := by
  unfold markerText at h
  split at h
  · cases h
  · dsimp only at h
    split_ifs at h with hspace hempty
    obtain rfl := Option.some.inj h
    exact ⟨fun hnil => hempty (List.isEmpty_iff.mpr hnil), rfl⟩

/-- The text behind a marker is some part of the line, trimmed. -/
theorem stripListMarker_eq_some (h : stripListMarker raw = some title) :
    title ≠ [] ∧ ∃ rest, title = trim rest ∧ ∀ c ∈ rest, c ∈ raw := by
  have hmarker {rest : List Char} (hrest : rest ⊆ trimStart raw) (h : markerText rest = some title) :
      title ≠ [] ∧ ∃ rest, title = trim rest ∧ ∀ c ∈ rest, c ∈ raw := by
    obtain ⟨hne, htitle⟩ := markerText_eq_some h
    exact ⟨hne, rest, htitle, fun c hc => List.dropWhile_subset _ (hrest hc)⟩
  have hdigits {c : Char} {rest : List Char} (hrest : (trimStart raw).dropWhile Char.isDigit = c :: rest) :
      rest ⊆ trimStart raw := fun d hd =>
    List.dropWhile_subset Char.isDigit (by rw [hrest]; exact List.mem_cons_of_mem _ hd)
  unfold stripListMarker at h
  dsimp only at h
  split at h
  case h_1 hrest | h_2 hrest | h_3 hrest => exact hmarker (by rw [hrest]; exact List.subset_cons_self ..) h
  case h_4 =>
    split_ifs at h
    split at h
    case h_1 hrest | h_2 hrest => exact hmarker (hdigits hrest) h
    case h_3 => cases h

theorem isBlank_of_isMarker (h : isMarker raw = true) : isBlank raw = false := by
  by_contra hblank
  rw [Bool.not_eq_false, isBlank, List.isEmpty_iff] at hblank
  have hnil : trimStart raw = [] := List.dropWhile_eq_nil_iff.mpr (blank_of_trim hblank)
  rw [isMarker, stripListMarker, hnil] at h
  cases h

/-- A text that can stand as a line of a step. -/
structure IsKept (line : List Char) : Prop where
  trimmed : IsTrimmed line
  ne_nil : line ≠ []
  newline : '\n' ∉ line

theorem isKept_keptOf (hnewline : '\n' ∉ raw) (hblank : isBlank raw = false) : IsKept (keptOf base raw) := by
  unfold keptOf
  split_ifs with hopens
  · obtain ⟨title, htitle⟩ := Option.isSome_iff_exists.mp (Bool.and_eq_true_iff.mp hopens).1
    obtain ⟨hne, rest, hrest, hsub⟩ := stripListMarker_eq_some htitle
    rw [htitle, Option.getD_some]
    refine ⟨hrest ▸ isTrimmed_trim rest, hne, fun hmem => hnewline (hsub _ ?_)⟩
    rw [hrest] at hmem
    exact mem_of_mem_trim hmem
  · refine ⟨isTrimmed_trim raw, fun hnil => ?_, fun hmem => hnewline (mem_of_mem_trim hmem)⟩
    rw [isBlank, hnil] at hblank
    cases hblank

end Line

/-! ### One step -/

section Step

variable {i : Nat} {title : List Char} {continuations : List (List Char)}

theorem isTrimmed_intercalate {kept : List (List Char)} (h : ∀ line ∈ kept, IsKept line) :
    IsTrimmed (['\n'].intercalate kept) := by
  induction kept with
  | nil => exact ⟨nofun, nofun⟩
  | cons line kept ih =>
    obtain ⟨hline, hkept⟩ := List.forall_mem_cons.mp h
    cases kept with
    | nil =>
      rw [List.intercalate_singleton]
      exact hline.trimmed
    | cons next kept =>
      have hrest := ih hkept
      have hne : ['\n'].intercalate (next :: kept) ≠ [] := by
        intro hnil
        have hnext := (hkept next List.mem_cons_self).ne_nil
        cases kept with
        | nil => exact hnext (by rwa [List.intercalate_singleton] at hnil)
        | cons => simp [List.intercalate_cons_cons] at hnil
      rw [List.intercalate_cons_cons]
      refine ⟨fun c hc => hline.trimmed.head c ?_, fun c hc => hrest.last c ?_⟩
      · rwa [List.append_assoc, List.head?_append_of_ne_nil _ hline.ne_nil] at hc
      · rwa [List.getLast?_append_of_ne_nil _ hne] at hc

theorem finishStep_of_isKept (h : ∀ line ∈ title :: continuations, IsKept line) :
    finishStep i title continuations =
      ⟨i, String.ofList title, String.ofList (['\n'].intercalate (title :: continuations))⟩ := by
  have htitle : trim title = title := (h title List.mem_cons_self).trimmed.trim
  unfold finishStep
  dsimp only
  rw [htitle, (isTrimmed_intercalate h).trim]
  split_ifs with hempty
  · rw [List.isEmpty_iff.mp hempty, List.intercalate_singleton]
  · rfl

theorem detailLines_finishStep (h : ∀ line ∈ title :: continuations, IsKept line) :
    detailLines (finishStep i title continuations) = title :: continuations := by
  rw [finishStep_of_isKept h, detailLines, String.toList_ofList]
  exact List.splitOn_intercalate '\n' (fun line hline => (h line hline).newline) (List.cons_ne_nil _ _)

/-- Steps numbered on from `i`. -/
def numbered (i : Nat) : List (List Char × List (List Char)) → List PlanStep
  | [] => []
  | (title, continuations) :: rest => finishStep i title continuations :: numbered (i + 1) rest

theorem index_numbered (groups : List (List Char × List (List Char))) :
    (numbered i groups).map PlanStep.index = List.range' i groups.length := by
  induction groups generalizing i with
  | nil => rfl
  | cons group groups ih => rw [numbered, List.map_cons, ih, List.length_cons, List.range'_succ]; rfl

theorem detailLines_numbered {groups : List (List Char × List (List Char))}
    (h : ∀ g ∈ groups, ∀ line ∈ g.1 :: g.2, IsKept line) :
    (numbered i groups).map detailLines = groups.map fun g => g.1 :: g.2 := by
  induction groups generalizing i with
  | nil => rfl
  | cons group groups ih =>
    obtain ⟨hgroup, hgroups⟩ := List.forall_mem_cons.mp h
    rw [numbered, List.map_cons, List.map_cons, ih hgroups, detailLines_finishStep hgroup]

theorem title_numbered {groups : List (List Char × List (List Char))}
    (h : ∀ g ∈ groups, ∀ line ∈ g.1 :: g.2, IsKept line) :
    (numbered i groups).map (·.title.toList) = groups.map Prod.fst := by
  induction groups generalizing i with
  | nil => rfl
  | cons group groups ih =>
    obtain ⟨hgroup, hgroups⟩ := List.forall_mem_cons.mp h
    rw [numbered, List.map_cons, List.map_cons, ih hgroups, finishStep_of_isKept hgroup, String.toList_ofList]

end Step

/-! ### The groups -/

section Groups

variable (base : Nat)

/-- The lines up to the first that opens a step, and the groups from there on; blank lines are left out. -/
def groupLines : List (List Char) → List (List Char) × List (List Char × List (List Char))
  | [] => ([], [])
  | raw :: raws =>
    let (before, groups) := groupLines raws
    if opens base raw then ([], (raw, before) :: groups)
    else if isBlank raw then (before, groups) else (raw :: before, groups)

theorem flatMap_groupLines (raws : List (List Char)) :
    (groupLines base raws).1 ++ ((groupLines base raws).2.flatMap fun g => g.1 :: g.2) =
      raws.filter fun raw => !isBlank raw := by
  induction raws with
  | nil => rfl
  | cons raw raws ih =>
    rw [groupLines]
    dsimp only
    split_ifs with hopens hblank
    · have hblank := isBlank_of_isMarker (Bool.and_eq_true_iff.mp hopens).1
      rw [List.filter_cons_of_pos (by simp [hblank]), ← ih]
      simp
    · rw [List.filter_cons_of_neg (by simp [hblank]), ih]
    · rw [List.filter_cons_of_pos (by simp [hblank]), ← ih]
      rfl

theorem opens_groupLines (raws : List (List Char)) : (∀ raw ∈ (groupLines base raws).1, opens base raw = false) ∧
    ∀ g ∈ (groupLines base raws).2, opens base g.1 = true ∧ ∀ raw ∈ g.2, opens base raw = false := by
  induction raws with
  | nil => simp [groupLines]
  | cons raw raws ih =>
    rw [groupLines]
    dsimp only
    split_ifs with hopens hblank
    · exact ⟨nofun, List.forall_mem_cons.mpr ⟨⟨hopens, ih.1⟩, ih.2⟩⟩
    · exact ih
    · exact ⟨List.forall_mem_cons.mpr ⟨Bool.not_eq_true _ ▸ hopens, ih.1⟩, ih.2⟩

/-- The groups are begun by the lines that open a step. -/
theorem map_fst_groupLines (raws : List (List Char)) :
    (groupLines base raws).2.map Prod.fst = raws.filter (opens base) := by
  induction raws with
  | nil => rfl
  | cons raw raws ih =>
    rw [groupLines]
    dsimp only
    split_ifs with hopens hblank
    · rw [List.map_cons, ih, List.filter_cons_of_pos hopens]
    · rw [ih, List.filter_cons_of_neg hopens]
    · rw [ih, List.filter_cons_of_neg hopens]

end Groups

/-! ### The pass over the lines -/

section Pass

variable {base : Nat} {raw title : List Char} {steps : List PlanStep} {continuations : List (List Char)}

/-- What the steps keep of a group. -/
def keptGroup (base : Nat) (group : List Char × List (List Char)) : List Char × List (List Char) :=
  (keptOf base group.1, group.2.map (keptOf base))

theorem add_of_opens (h : opens base raw = true) :
    StepsSoFar.add ⟨steps, some (title, continuations), some base⟩ raw =
      ⟨steps ++ [finishStep (steps.length + 1) title continuations], some (keptOf base raw, []), some base⟩ := by
  obtain ⟨hmarker, hindent⟩ := Bool.and_eq_true_iff.mp h
  obtain ⟨text, htext⟩ := Option.isSome_iff_exists.mp hmarker
  rw [keptOf, if_pos h, htext, StepsSoFar.add, htext]
  simp only [Option.all_some, if_pos hindent, Option.getD_some]
  rfl

theorem add_of_not_opens (h : opens base raw = false) :
    StepsSoFar.add ⟨steps, some (title, continuations), some base⟩ raw =
      if isBlank raw then ⟨steps, some (title, continuations), some base⟩
      else ⟨steps, some (title, continuations ++ [keptOf base raw]), some base⟩ := by
  have hkept : keptOf base raw = trim raw := by rw [keptOf, if_neg (by rw [h]; exact Bool.false_ne_true)]
  rw [hkept, StepsSoFar.add, isBlank]
  cases htext : stripListMarker raw with
  | none => rfl
  | some text =>
    have hindent : ¬ (decide (indentOf raw ≤ base)) = true := by
      intro hindent
      rw [opens, isMarker, htext, hindent] at h
      cases h
    simp only [Option.all_some, if_neg hindent]
    rfl

/-- Once a step is being read, the pass makes steps of the groups. -/
theorem finish_foldl (raws : List (List Char)) :
    (raws.foldl StepsSoFar.add ⟨steps, some (title, continuations), some base⟩).finish =
      steps ++ numbered (steps.length + 1)
        ((title, continuations ++ (groupLines base raws).1.map (keptOf base)) :: (groupLines base raws).2.map (keptGroup base)) := by
  induction raws generalizing steps title continuations with
  | nil => simp [groupLines, numbered, StepsSoFar.finish]
  | cons raw raws ih =>
    rw [List.foldl_cons, groupLines]
    dsimp only
    cases hopens : opens base raw with
    | true =>
      rw [add_of_opens hopens, ih, if_pos rfl]
      simp [numbered, keptGroup]
    | false =>
      rw [add_of_not_opens hopens, if_neg Bool.false_ne_true]
      split_ifs with hblank
      · exact ih
      · rw [ih]
        simp

/-- Before the first marker nothing is read. -/
theorem foldl_before {raws : List (List Char)} (h : ∀ raw ∈ raws, isMarker raw = false) :
    raws.foldl StepsSoFar.add ⟨[], none, none⟩ = ⟨[], none, none⟩ := by
  induction raws with
  | nil => rfl
  | cons raw raws ih =>
    obtain ⟨hraw, hraws⟩ := List.forall_mem_cons.mp h
    have hadd : StepsSoFar.add ⟨[], none, none⟩ raw = ⟨[], none, none⟩ := by
      rw [isMarker, Option.isSome_eq_false_iff, Option.isNone_iff_eq_none] at hraw
      rw [StepsSoFar.add, hraw]
      dsimp only
      split_ifs <;> rfl
    rw [List.foldl_cons, hadd, ih hraws]

theorem first_of_fromFirstMarker {raws rest : List (List Char)} {first : List Char} (h : fromFirstMarker raws = first :: rest) :
    firstIndent raws = indentOf first ∧ isMarker first = true ∧ opens (indentOf first) first = true := by
  have hhead := List.head?_dropWhile_not (fun raw => !isMarker raw) raws
  rw [← fromFirstMarker, h] at hhead
  have hmarker : isMarker first = true := by simpa using hhead
  exact ⟨by rw [firstIndent, h]; rfl, hmarker, by simp [opens, hmarker]⟩

/-- **The steps are the groups of lines**, from the first marker on. -/
theorem foldl_finish (raws : List (List Char)) :
    (raws.foldl StepsSoFar.add ⟨[], none, none⟩).finish =
      numbered 1 ((groupLines (firstIndent raws) (fromFirstMarker raws)).2.map (keptGroup (firstIndent raws))) := by
  have hsplit : raws = raws.takeWhile (fun raw => !isMarker raw) ++ fromFirstMarker raws :=
    List.takeWhile_append_dropWhile.symm
  have hbefore : ∀ raw ∈ raws.takeWhile fun raw => !isMarker raw, isMarker raw = false := fun raw hraw => by
    simpa using List.mem_takeWhile_imp hraw
  conv_lhs => rw [hsplit]
  rw [List.foldl_append, foldl_before hbefore]
  cases hfirst : fromFirstMarker raws with
  | nil => rfl
  | cons first rest =>
    obtain ⟨hindent, hmarker, hopens⟩ := first_of_fromFirstMarker hfirst
    have hadd : StepsSoFar.add ⟨[], none, none⟩ first = ⟨[], some (keptOf (indentOf first) first, []), some (indentOf first)⟩ := by
      obtain ⟨text, htext⟩ := Option.isSome_iff_exists.mp hmarker
      rw [keptOf, if_pos hopens, htext, StepsSoFar.add, htext]
      rfl
    rw [List.foldl_cons, hadd, finish_foldl, hindent, groupLines]
    dsimp only
    rw [if_pos hopens]
    simp [keptGroup]

end Pass

/-! ### Every text -/

/-- The first marker opens a step, so no line comes before the first group. -/
theorem groupLines_fromFirstMarker (raws : List (List Char)) :
    ((groupLines (firstIndent raws) (fromFirstMarker raws)).2.flatMap fun g => g.1 :: g.2) = stepLines raws := by
  have hflat := flatMap_groupLines (firstIndent raws) (fromFirstMarker raws)
  have hnone : (groupLines (firstIndent raws) (fromFirstMarker raws)).1 = [] := by
    cases hfirst : fromFirstMarker raws with
    | nil => rfl
    | cons first rest =>
      obtain ⟨hindent, -, hopens⟩ := first_of_fromFirstMarker hfirst
      rw [groupLines, hindent]
      dsimp only
      rw [if_pos hopens]
  rwa [hnone, List.nil_append] at hflat

/-- **The steps of a plan keep its lines.** -/
theorem parsePlanSteps_conserves (stepsMarkdown : List Char) :
    Conserves (lines stepsMarkdown) (parsePlanSteps stepsMarkdown) := by
  have hsteps : parsePlanSteps stepsMarkdown = _ := foldl_finish (lines stepsMarkdown)
  have hlines := groupLines_fromFirstMarker (lines stepsMarkdown)
  obtain ⟨-, hopens⟩ := opens_groupLines (firstIndent (lines stepsMarkdown)) (fromFirstMarker (lines stepsMarkdown))
  have hfirst := map_fst_groupLines (firstIndent (lines stepsMarkdown)) (fromFirstMarker (lines stepsMarkdown))
  generalize (groupLines (firstIndent (lines stepsMarkdown)) (fromFirstMarker (lines stepsMarkdown))).2 = groups at *
  have hkept : ∀ g ∈ groups.map (keptGroup (firstIndent (lines stepsMarkdown))), ∀ line ∈ g.1 :: g.2, IsKept line := by
    rw [List.forall_mem_map]
    intro g hg line hline
    obtain ⟨raw, hraw, rfl⟩ : ∃ raw ∈ g.1 :: g.2, keptOf (firstIndent (lines stepsMarkdown)) raw = line :=
      List.mem_map.mp hline
    have hstep : raw ∈ stepLines (lines stepsMarkdown) := hlines ▸ List.mem_flatMap.mpr ⟨g, hg, hraw⟩
    obtain ⟨hmem, hblank⟩ := List.mem_filter.mp hstep
    exact isKept_keptOf (newline_notMem_lines (List.dropWhile_subset _ hmem)) (by simpa using hblank)
  have hdetails : (parsePlanSteps stepsMarkdown).map detailLines =
      groups.map fun g => (g.1 :: g.2).map (keptOf (firstIndent (lines stepsMarkdown))) := by
    rw [hsteps, detailLines_numbered hkept, List.map_map]
    rfl
  refine ⟨?_, ?_, ?_, groups, hlines, hopens, hdetails⟩
  · rw [hsteps, index_numbered, ← hfirst, List.length_map, List.length_map]
  · rw [hsteps, title_numbered hkept, ← hfirst, List.map_map, List.map_map]
    rfl
  · rw [List.flatMap_def, hdetails, ← hlines, List.map_flatMap, ← List.flatMap_def]

/-- A step with a list of its own in it, and a rule between the steps. -/
example : (parsePlanSteps "intro\n1. one\n   - a\n\n---\n2) two".toList).map (fun s => (s.index, s.detail)) =
    [(1, "one\n- a\n---"), (2, "two")] := by decide +kernel

end Nerve.Queue
