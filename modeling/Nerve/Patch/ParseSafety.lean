import Nerve.Patch.ParseDiff
import Mathlib.Logic.Relation

/-!
# Where reading a diff can crash

The reader's three loops, one inside the other, go over the lines with one index. Here they are a
machine whose step is one turn of the innermost of them (`Position.next`). Every step takes a line
or leaves a loop, and the counters of a hunk never pass the number of lines. The one thing that can
go wrong is the slice behind the first character of a line of a hunk, which takes that character for
one byte long: the reader panics just if the machine comes to a line where it is not
(`readsSafely_iff`).
-/

namespace Nerve.Patch

open Nerve.Text Nerve.LineDiff

/-- Where the reader is: in the loop over the sections, over the hunks of one, or over the lines of
a hunk, and with which lines left. In a hunk: its counts, how many were seen, and whether any line
was read. -/
inductive Position where
  | sections (lines : List Line)
  | hunks (lines : List Line)
  | body (oldCount newCount oldSeen newSeen : Nat) (any : Bool) (lines : List Line)

namespace Position

def lines : Position → List Line
  | .sections lines | .hunks lines | .body _ _ _ _ _ lines => lines

/-- How many loops it is inside of. -/
def depth : Position → Nat
  | .sections _ => 0
  | .hunks _ => 1
  | .body .. => 2

/-- One turn. There is none at the end, and after an error. -/
def next : Position → Option Position
  | .sections [] => none
  | .sections (line :: rest) =>
    match parseFileHeader line "--- " with
    | none => some (.sections rest)
    | some _ =>
      match rest with
      | [] => none
      | nextLine :: rest' =>
        match parseFileHeader nextLine "+++ " with
        | none => some (.sections rest)
        | some _ => some (.hunks rest')
  | .hunks [] => none
  | .hunks (line :: rest) =>
    if (parseFileHeader line "--- ").isSome then some (.sections (line :: rest))
    else
      match parseHunkHeader line with
      | none => some (.hunks rest)
      | some (_, oldCount, _, newCount) => some (.body oldCount newCount 0 0 false rest)
  | .body oldCount newCount oldSeen newSeen any lines =>
    if oldSeen < oldCount ∨ newSeen < newCount then
      match lines with
      | [] => none
      | line :: rest =>
        if noNewlineMarker.toList.isPrefixOf line then
          if any then some (.body oldCount newCount oldSeen newSeen true rest) else none
        else
          match line with
          | ' ' :: _ => some (.body oldCount newCount (oldSeen + 1) (newSeen + 1) true rest)
          | '-' :: _ => some (.body oldCount newCount (oldSeen + 1) newSeen true rest)
          | '+' :: _ => some (.body oldCount newCount oldSeen (newSeen + 1) true rest)
          | _ => none
    else if oldSeen = oldCount ∧ newSeen = newCount then some (.hunks lines)
    else none

/-- The slice behind the first character of a line of a hunk begins on a character. -/
def OnBoundary : Position → Prop
  | .body oldCount newCount oldSeen newSeen _ ((c :: _) :: _) =>
    oldSeen < oldCount ∨ newSeen < newCount → c.utf8Size = 1
  | _ => True

/-- The positions the reader comes to. -/
def Reaches : Position → Position → Prop := Relation.ReflTransGen fun p q => p.next = some q

/-- Where reading begins. -/
def start (diff : String) : Position := .sections (splitInclusive '\n' diff.toList)

end Position

/-- Reading the diff comes to an end, without a panic. -/
structure ReadsSafely (diff : String) : Prop where
  outcome : parseFileDiffs diff ≠ .error .panic
  patch : ∀ sha256Hex id t, NvPatch.fromUnifiedDiff sha256Hex id t diff ≠ .error .panic
  /-- The loops come to an end before their fuel does. -/
  ends : ∀ lines fuel, lines.length ≤ fuel → parseSections fuel lines = parseSections lines.length lines ∧
    ∀ acc, parseHunks fuel acc lines = parseHunks lines.length acc lines
  /-- A turn takes lines or leaves a loop. -/
  advances : ∀ p q, (Position.start diff).Reaches p → p.next = some q →
    (∃ taken, taken ≠ [] ∧ p.lines = taken ++ q.lines) ∨ p.lines = q.lines ∧ q.depth < p.depth
  /-- The counters are small. -/
  counters : ∀ oldCount newCount oldSeen newSeen any lines,
    (Position.start diff).Reaches (.body oldCount newCount oldSeen newSeen any lines) →
      oldSeen ≤ diff.length ∧ newSeen ≤ diff.length

namespace Position

/-! ### The machine -/

/-- The greater of the counters. -/
def seen : Position → Nat
  | .body _ _ oldSeen newSeen _ _ => max oldSeen newSeen
  | _ => 0

/-- Lines are taken, and a counter goes up by one at most, or a loop is left. -/
theorem next_cases {p q : Position} (h : p.next = some q) :
    (∃ taken, taken ≠ [] ∧ p.lines = taken ++ q.lines ∧ q.seen ≤ p.seen + 1) ∨
      p.lines = q.lines ∧ q.depth < p.depth ∧ q.seen = 0 := by
  cases p with
  | sections lines =>
    cases lines with
    | nil => cases h
    | cons line rest =>
      simp only [next] at h
      split at h
      · cases h
        exact Or.inl ⟨[line], List.cons_ne_nil _ _, rfl, Nat.zero_le _⟩
      · cases rest with
        | nil => cases h
        | cons nextLine rest =>
          simp only at h
          split at h
          · cases h
            exact Or.inl ⟨[line], List.cons_ne_nil _ _, rfl, Nat.zero_le _⟩
          · cases h
            exact Or.inl ⟨[line, nextLine], List.cons_ne_nil _ _, rfl, Nat.zero_le _⟩
  | hunks lines =>
    cases lines with
    | nil => cases h
    | cons line rest =>
      simp only [next] at h
      split at h
      · cases h
        exact Or.inr ⟨rfl, Nat.zero_lt_one, rfl⟩
      · split at h <;> cases h <;> exact Or.inl ⟨[line], List.cons_ne_nil _ _, rfl, Nat.zero_le _⟩
  | body oldCount newCount oldSeen newSeen any lines =>
    simp only [next] at h
    split at h
    · cases lines with
      | nil => cases h
      | cons line rest =>
        simp only at h
        split at h
        · split at h
          · cases h
            exact Or.inl ⟨[line], List.cons_ne_nil _ _, rfl, by simp [seen]⟩
          · cases h
        · split at h <;> cases h <;>
            exact Or.inl ⟨[_], List.cons_ne_nil _ _, rfl, by simp only [seen]; omega⟩
    · split at h
      · cases h
        exact Or.inr ⟨rfl, Nat.one_lt_two, rfl⟩
      · cases h

theorem seen_le {p q : Position} (h : p.Reaches q) : q.seen + q.lines.length ≤ p.seen + p.lines.length := by
  induction h with
  | refl => exact le_rfl
  | tail _ hnext ih =>
    rcases next_cases hnext with ⟨taken, hne, hlines, hseen⟩ | ⟨hlines, -, hseen⟩
    · have := List.length_pos_iff.mpr hne
      rw [hlines, List.length_append] at ih
      omega
    · rw [hlines] at ih
      omega

/-! ### Coming to a line that cannot be cut -/

/-- The machine comes to such a line. -/
def Risk (p : Position) : Prop := ∃ q, p.Reaches q ∧ ¬ q.OnBoundary

theorem risk_iff_of_next {p q : Position} (h : p.next = some q) (hp : p.OnBoundary) : p.Risk ↔ q.Risk := by
  constructor
  · rintro ⟨r, hr, hnot⟩
    rcases Relation.ReflTransGen.cases_head hr with rfl | ⟨q', hq', hr⟩
    · exact absurd hp hnot
    · obtain rfl := Option.some.inj (h.symm.trans hq')
      exact ⟨r, hr, hnot⟩
  · rintro ⟨r, hr, hnot⟩
    exact ⟨r, .head h hr, hnot⟩

theorem not_risk_of_none {p : Position} (h : p.next = none) (hp : p.OnBoundary) : ¬ p.Risk := by
  rintro ⟨r, hr, hnot⟩
  rcases Relation.ReflTransGen.cases_head hr with rfl | ⟨q, hq, -⟩
  · exact hnot hp
  · rw [h] at hq
    cases hq

/-- What a loop gives agrees with the machine: a panic where it comes to such a line, an error where
it does not, and otherwise it goes on from where the loop has left off. -/
def Agrees {α : Type} (p : Position) (after : α → Position) : DiffResult α → Prop
  | .error .panic => p.Risk
  | .error (.error _) => ¬ p.Risk
  | .ok a => p.Risk ↔ (after a).Risk

section Agrees

variable {α : Type} {p q : Position} {after : α → Position} {r : DiffResult α}

theorem Agrees.of_iff (hrisk : p.Risk ↔ q.Risk) (hq : q.Agrees after r) : p.Agrees after r := by
  rcases r with (e | _) | a
  · exact fun hp => hq (hrisk.mp hp)
  · exact hrisk.mpr hq
  · exact hrisk.trans hq

theorem Agrees.of_next (h : p.next = some q) (hp : p.OnBoundary) (hq : q.Agrees after r) : p.Agrees after r :=
  hq.of_iff (risk_iff_of_next h hp)

theorem Agrees.of_none (h : p.next = none) (hp : p.OnBoundary) (message : String) :
    p.Agrees after (invalidDiff message) :=
  not_risk_of_none h hp

end Agrees

/-! ### The loops -/

section Loops

variable {oldCount newCount oldSeen newSeen : Nat} {any : Bool} {hunkLines : List (HunkLine Line)}

theorem next_of_done (hdone : ¬ (oldSeen < oldCount ∨ newSeen < newCount)) (lines : List Line) :
    (body oldCount newCount oldSeen newSeen any lines).next =
      if oldSeen = oldCount ∧ newSeen = newCount then some (.hunks lines) else none := by
  rw [next.eq_def]
  exact if_neg hdone

theorem next_cons (hmore : oldSeen < oldCount ∨ newSeen < newCount) (line : Line) (rest : List Line) :
    (body oldCount newCount oldSeen newSeen any (line :: rest)).next =
      if noNewlineMarker.toList.isPrefixOf line then
        if any then some (.body oldCount newCount oldSeen newSeen true rest) else none
      else
        match line with
        | ' ' :: _ => some (.body oldCount newCount (oldSeen + 1) (newSeen + 1) true rest)
        | '-' :: _ => some (.body oldCount newCount (oldSeen + 1) newSeen true rest)
        | '+' :: _ => some (.body oldCount newCount oldSeen (newSeen + 1) true rest)
        | _ => none := by
  rw [next.eq_def]
  exact if_pos hmore

theorem agrees_finishHunk (hdone : ¬ (oldSeen < oldCount ∨ newSeen < newCount)) (lines : List Line) :
    (body oldCount newCount oldSeen newSeen any lines).Agrees (fun result => .hunks result.2)
      (finishHunk oldCount newCount oldSeen newSeen hunkLines lines) := by
  have hboundary : (body oldCount newCount oldSeen newSeen any lines).OnBoundary := by
    unfold OnBoundary
    split
    · rename_i heq
      cases heq
      exact fun hmore => absurd hmore hdone
    · trivial
  rw [finishHunk]
  split_ifs with hne
  · refine .of_none ?_ hboundary _
    rw [next_of_done hdone, if_neg (by omega)]
  · refine risk_iff_of_next ?_ hboundary
    rw [next_of_done hdone, if_pos (by omega)]

/-- The loop over the lines of a hunk. -/
theorem agrees_parseHunkLines (lines : List Line) :
    (body oldCount newCount oldSeen newSeen (!hunkLines.isEmpty) lines).Agrees (fun result => .hunks result.2)
      (parseHunkLines oldCount newCount oldSeen newSeen hunkLines lines) := by
  induction lines generalizing oldSeen newSeen hunkLines with
  | nil =>
    rw [parseHunkLines]
    by_cases hmore : oldSeen < oldCount ∨ newSeen < newCount
    · rw [finishHunk, if_pos (by omega)]
      refine .of_none ?_ (by trivial) _
      rw [next.eq_def]
      exact if_pos hmore
    · exact agrees_finishHunk hmore []
  | cons line rest ih =>
    rw [parseHunkLines.eq_def]
    simp only
    split_ifs with hmore hmarker
    · -- the marker needs a line before it
      have hboundary : ∀ any, (body oldCount newCount oldSeen newSeen any (line :: rest)).OnBoundary := by
        obtain ⟨content, rfl⟩ := List.isPrefixOf_iff_prefix.mp hmarker
        exact fun any _ => by decide
      rcases hlast : hunkLines.getLast? with _ | last
      · rw [markPreviousLineWithoutNewline, hlast]
        refine .of_none ?_ (hboundary _) _
        rw [List.getLast?_eq_none_iff.mp hlast, next_cons hmore, if_pos hmarker]
        rfl
      · rw [markPreviousLineWithoutNewline, hlast]
        have hany : (!hunkLines.isEmpty) = true := by
          cases hunkLines with
          | nil => cases hlast
          | cons => rfl
        refine .of_next ?_ (hboundary _) (@ih oldSeen newSeen (hunkLines.dropLast ++ [HunkLine.popNewline last]))
        rw [next_cons hmore, if_pos hmarker, hany]
        simp
    · cases line with
      | nil =>
        refine .of_none ?_ (by trivial) _
        rw [next_cons hmore, if_neg hmarker]
      | cons tag content =>
        by_cases hsize : tag.utf8Size ≠ 1
        · simp only [if_pos hsize]
          exact ⟨_, .refl, fun hboundary => hsize (hboundary hmore)⟩
        · have hboundary : ∀ any, (body oldCount newCount oldSeen newSeen any ((tag :: content) :: rest)).OnBoundary :=
            fun any _ => not_not.mp hsize
          have hread (l : HunkLine Line) : (!(hunkLines ++ [l]).isEmpty) = true := by simp
          simp only [if_neg hsize]
          split
          · refine .of_next ?_ (hboundary _) (@ih _ _ (hunkLines ++ [.context content]))
            rw [hread]
            exact (next_cons hmore _ _).trans (if_neg hmarker)
          · refine .of_next ?_ (hboundary _) (@ih _ _ (hunkLines ++ [.remove content]))
            rw [hread]
            exact (next_cons hmore _ _).trans (if_neg hmarker)
          · refine .of_next ?_ (hboundary _) (@ih _ _ (hunkLines ++ [.add content]))
            rw [hread]
            exact (next_cons hmore _ _).trans (if_neg hmarker)
          · refine .of_none ?_ (hboundary _) _
            rw [next_cons hmore, if_neg hmarker]
            split <;> simp_all
    · exact agrees_finishHunk hmore (line :: rest)

/-- The lines left are some of the lines. -/
theorem length_of_parseHunkLines {lines : List Line} {result : List (HunkLine Line) × List Line}
    (h : parseHunkLines oldCount newCount oldSeen newSeen hunkLines lines = .ok result) :
    result.2.length ≤ lines.length := by
  have hfinish {oldSeen newSeen : Nat} {hunkLines : List (HunkLine Line)} {lines : List Line}
      (h : finishHunk oldCount newCount oldSeen newSeen hunkLines lines = .ok result) : result.2 = lines := by
    rw [finishHunk] at h
    split_ifs at h
    · cases h
    · cases h
      rfl
  induction lines generalizing oldSeen newSeen hunkLines with
  | nil =>
    rw [parseHunkLines] at h
    rw [hfinish h]
  | cons line rest ih =>
    have hrest {oldSeen newSeen : Nat} {hunkLines : List (HunkLine Line)}
        (h : parseHunkLines oldCount newCount oldSeen newSeen hunkLines rest = .ok result) :
        result.2.length ≤ (line :: rest).length := (ih h).trans (Nat.le_succ _)
    rw [parseHunkLines.eq_def] at h
    simp only at h
    split at h
    · split at h
      · split at h
        · cases h
        · exact hrest h
      · split at h
        · cases h
        · split at h
          · cases h
          · split at h
            · exact hrest h
            · exact hrest h
            · exact hrest h
            · cases h
    · rw [hfinish h]

end Loops

theorem not_risk_nil : ¬ (hunks []).Risk ∧ ¬ (sections []).Risk :=
  ⟨not_risk_of_none rfl trivial, not_risk_of_none rfl trivial⟩

section Sections

variable {fuel : Nat}

/-- The loop over the hunks of a section. -/
theorem agrees_parseHunks {acc : List ParsedHunk} {lines : List Line} (hfuel : lines.length ≤ fuel) :
    (hunks lines).Agrees (fun result => sections result.2) (parseHunks fuel acc lines) := by
  induction fuel generalizing acc lines with
  | zero =>
    obtain rfl := List.length_eq_zero_iff.mp (Nat.le_zero.mp hfuel)
    exact iff_of_false not_risk_nil.1 not_risk_nil.2
  | succ fuel ih =>
    cases lines with
    | nil => exact iff_of_false not_risk_nil.1 not_risk_nil.2
    | cons line rest =>
      rw [List.length_cons] at hfuel
      rw [parseHunks]
      split_ifs with hheader
      · exact risk_iff_of_next (if_pos hheader) trivial
      · rcases hhunk : parseHunkHeader line with _ | ⟨oldStart, oldCount, newStart, newCount⟩
        · refine .of_next ?_ trivial (ih (by omega))
          rw [next, if_neg hheader, hhunk]
        · have hnext : (hunks (line :: rest)).next = some (.body oldCount newCount 0 0 false rest) := by
            rw [next, if_neg hheader, hhunk]
          have hlines := @agrees_parseHunkLines oldCount newCount 0 0 [] rest
          simp only
          rcases hresult : parseHunkLines oldCount newCount 0 0 [] rest with (e | _) | ⟨hunkLines, rest'⟩
          · rw [hresult] at hlines
            exact (risk_iff_of_next hnext trivial).not.mpr hlines
          · rw [hresult] at hlines
            exact (risk_iff_of_next hnext trivial).mpr hlines
          · rw [hresult] at hlines
            have hlength := length_of_parseHunkLines hresult
            have hrest := @ih (acc ++ [⟨oldStart, oldCount, newCount, hunkLines⟩]) rest' (by simp only at hlength; omega)
            have hrisk := (risk_iff_of_next hnext trivial).trans hlines
            exact hrest.of_iff hrisk

theorem length_of_parseHunks {acc : List ParsedHunk} {lines : List Line} {result : List ParsedHunk × List Line}
    (h : parseHunks fuel acc lines = .ok result) : result.2.length ≤ lines.length := by
  induction fuel generalizing acc lines with
  | zero =>
    cases h
    exact le_rfl
  | succ fuel ih =>
    cases lines with
    | nil =>
      cases h
      exact le_rfl
    | cons line rest =>
      rw [parseHunks] at h
      split_ifs at h
      · cases h
        exact le_rfl
      · split at h
        · exact (ih h).trans (Nat.le_succ _)
        · split at h
          · cases h
          · rename_i hlines
            exact (ih h).trans ((length_of_parseHunkLines hlines).trans (Nat.le_succ _))

/-- The loop over the sections. -/
theorem agrees_parseSections {lines : List Line} (hfuel : lines.length ≤ fuel) :
    (sections lines).Agrees (fun _ => sections []) (parseSections fuel lines) := by
  induction fuel generalizing lines with
  | zero =>
    obtain rfl := List.length_eq_zero_iff.mp (Nat.le_zero.mp hfuel)
    exact Iff.rfl
  | succ fuel ih =>
    cases lines with
    | nil => exact Iff.rfl
    | cons line rest =>
      rw [List.length_cons] at hfuel
      rw [parseSections]
      rcases hold : parseFileHeader line "--- " with _ | oldHeader
      · refine .of_next ?_ trivial (ih (by omega))
        simp only [next, hold]
      · rcases rest with _ | ⟨nextLine, rest'⟩
        · refine .of_none ?_ (by trivial) _
          rw [next, hold]
        · rw [List.length_cons] at hfuel
          simp only
          rcases hnew : parseFileHeader nextLine "+++ " with _ | newHeader
          · refine .of_next ?_ trivial (ih (by rw [List.length_cons]; omega))
            rw [next, hold]
            simp only [hnew]
          · have hnext : (sections (line :: nextLine :: rest')).next = some (.hunks rest') := by
              rw [next, hold]
              simp only [hnew]
            have hhunks := @agrees_parseHunks rest'.length [] rest' le_rfl
            simp only
            rcases hresult : parseHunks rest'.length [] rest' with (e | _) | ⟨parsed, rest⟩
            · rw [hresult] at hhunks
              exact (risk_iff_of_next hnext trivial).not.mpr hhunks
            · rw [hresult] at hhunks
              exact (risk_iff_of_next hnext trivial).mpr hhunks
            · rw [hresult] at hhunks
              have hlength := length_of_parseHunks hresult
              have hrest := @ih rest (by simp only at hlength; omega)
              have hrisk := (risk_iff_of_next hnext trivial).trans hhunks
              simp only
              rcases hfiles : parseSections fuel rest with (e | _) | files
              · rw [hfiles] at hrest
                exact hrisk.not.mpr hrest
              · rw [hfiles] at hrest
                exact hrisk.mpr hrest
              · rw [hfiles] at hrest
                exact hrisk.trans hrest

end Sections

/-! ### Fuel -/

theorem parseHunks_fuel {n m : Nat} {acc : List ParsedHunk} {lines : List Line} (hn : lines.length ≤ n)
    (hm : lines.length ≤ m) : parseHunks n acc lines = parseHunks m acc lines := by
  induction n generalizing m acc lines with
  | zero =>
    obtain rfl := List.length_eq_zero_iff.mp (Nat.le_zero.mp hn)
    cases m <;> rfl
  | succ n ih =>
    cases lines with
    | nil => cases m <;> rfl
    | cons line rest =>
      rw [List.length_cons] at hn hm
      obtain ⟨m, rfl⟩ : ∃ k, m = k + 1 := ⟨m - 1, by omega⟩
      rw [parseHunks, parseHunks]
      split_ifs
      · rfl
      · rcases parseHunkHeader line with _ | ⟨oldStart, oldCount, newStart, newCount⟩
        · exact ih (by omega) (by omega)
        · simp only
          rcases hresult : parseHunkLines oldCount newCount 0 0 [] rest with e | ⟨hunkLines, rest'⟩
          · rfl
          · have hlength : rest'.length ≤ rest.length := length_of_parseHunkLines hresult
            exact ih (by omega) (by omega)

theorem parseSections_fuel {n m : Nat} {lines : List Line} (hn : lines.length ≤ n) (hm : lines.length ≤ m) :
    parseSections n lines = parseSections m lines := by
  induction n generalizing m lines with
  | zero =>
    obtain rfl := List.length_eq_zero_iff.mp (Nat.le_zero.mp hn)
    cases m <;> rfl
  | succ n ih =>
    cases lines with
    | nil => cases m <;> rfl
    | cons line rest =>
      rw [List.length_cons] at hn hm
      obtain ⟨m, rfl⟩ : ∃ k, m = k + 1 := ⟨m - 1, by omega⟩
      rw [parseSections, parseSections]
      have hrest : parseSections n rest = parseSections m rest := ih (by omega) (by omega)
      rcases parseFileHeader line "--- " with _ | oldHeader
      · exact hrest
      · rcases rest with _ | ⟨nextLine, rest'⟩
        · rfl
        · rw [List.length_cons] at hn hm
          simp only
          rcases parseFileHeader nextLine "+++ " with _ | newHeader
          · exact hrest
          · simp only
            rcases hresult : parseHunks rest'.length [] rest' with e | ⟨parsed, rest⟩
            · rfl
            · have hlength : rest.length ≤ rest'.length := length_of_parseHunks hresult
              simp only [ih (show rest.length ≤ n by omega) (show rest.length ≤ m by omega)]

end Position

/-! ### What comes after the loops -/

theorem parseRenamePath_ne_panic (block : List Line) (start : String) : parseRenamePath block start ≠ .error .panic := by
  unfold parseRenamePath
  split
  · simp
  · split
    · simp [invalidDiff]
    · rename_i token _
      rcases normalizeDiffPath token with e | path <;> simp [orError, Except.mapError]

theorem parsePureRenameDiffs_ne_panic (lines : List Line) : parsePureRenameDiffs lines ≠ .error .panic := by
  have hblock (block : List Line) : parseBlock block ≠ .error .panic := by
    unfold parseBlock
    split_ifs
    · simp
    · split
      · rename_i e he
        intro hpanic
        obtain rfl := Except.error.inj hpanic
        exact parseRenamePath_ne_panic block _ he
      · split
        · rename_i e he
          intro hpanic
          obtain rfl := Except.error.inj hpanic
          exact parseRenamePath_ne_panic block _ he
        · simp
  induction lines with
  | nil => simp [parsePureRenameDiffs]
  | cons line rest ih =>
    rw [parsePureRenameDiffs]
    split_ifs
    · split
      · rename_i e he
        rw [← he]
        exact hblock _
      · split
        · rename_i e he
          rw [← he]
          exact ih
        · simp
    · exact ih

/-- **The reader panics just if it comes to a line it cannot cut.** -/
theorem parseFileDiffs_eq_panic_iff {diff : String} : parseFileDiffs diff = .error .panic ↔ (Position.start diff).Risk := by
  have hsections := @Position.agrees_parseSections (splitInclusive '\n' diff.toList).length
    (splitInclusive '\n' diff.toList) le_rfl
  have hrenames := parsePureRenameDiffs_ne_panic (splitInclusive '\n' diff.toList)
  rw [parseFileDiffs]
  rcases hfiles : parseSections (splitInclusive '\n' diff.toList).length (splitInclusive '\n' diff.toList) with
    (e | _) | files
  · rw [hfiles] at hsections
    exact iff_of_false (fun h => by cases h) hsections
  · rw [hfiles] at hsections
    exact iff_of_true rfl hsections
  · rw [hfiles] at hsections
    refine iff_of_false (fun hpanic => ?_) (hsections.not.mpr Position.not_risk_nil.2)
    rcases hresult : parsePureRenameDiffs (splitInclusive '\n' diff.toList) with e | renames
    · simp only [hresult] at hpanic
      obtain rfl := Except.error.inj hpanic
      exact hrenames hresult
    · simp only [hresult] at hpanic
      cases hpanic

/-- Applying hunks fails with errors alone. -/
theorem applyHunks_ne_panic (original : String) (hunks : List ParsedHunk) : applyHunks original hunks ≠ .error .panic := by
  have hconsume (originalLines : List Line) (i : Nat) (value : Line) :
      consumeOriginalLine originalLines i value ≠ .error .panic := by
    unfold consumeOriginalLine
    split
    · simp [invalidDiff]
    · split_ifs <;> simp [invalidDiff]
  have hlines (originalLines : List Line) (i : Nat) (modified : List Line) (lines : List (HunkLine Line)) :
      applyHunkLines originalLines i modified lines ≠ .error .panic := by
    induction lines generalizing i modified with
    | nil => simp [applyHunkLines]
    | cons l lines ih =>
      cases l with
      | context value | remove value =>
        rw [applyHunkLines]
        split
        · rename_i e he
          intro hpanic
          obtain rfl := Except.error.inj hpanic
          exact hconsume originalLines i value he
        · exact ih _ _
      | add value =>
        rw [applyHunkLines]
        exact ih _ _
  have hlist (originalLines : List Line) (i : Nat) (modified : List Line) (hunks : List ParsedHunk) :
      applyHunkList originalLines i modified hunks ≠ .error .panic := by
    induction hunks generalizing i modified with
    | nil => simp [applyHunkList]
    | cons h hunks ih =>
      rw [applyHunkList, validateHunkCounts]
      split_ifs
      · simp [invalidDiff]
      · simp only
        split_ifs
        · simp [invalidDiff]
        · split
          · rename_i e he
            intro hpanic
            obtain rfl := Except.error.inj hpanic
            exact hlines _ _ _ _ he
          · exact ih _ _
  rw [applyHunks]
  split
  · rename_i e he
    intro hpanic
    obtain rfl := Except.error.inj hpanic
    exact hlist _ _ _ _ he
  · simp

theorem bind_eq_panic {α β : Type} {x : DiffResult α} {f : α → DiffResult β} (h : (x >>= f) = .error .panic) :
    x = .error .panic ∨ ∃ a, x = .ok a ∧ f a = .error .panic := by
  rcases x with e | a
  · obtain rfl := Except.error.inj h
    exact Or.inl rfl
  · exact Or.inr ⟨a, rfl, h⟩

theorem orError_ne_panic {α : Type} (r : Except PatchError α) : orError r ≠ .error .panic := by
  rcases r with e | a <;> simp [orError, Except.mapError]

theorem target_ne_panic (d : ParsedFileDiff) : d.target ≠ .error .panic := by
  unfold ParsedFileDiff.target
  split_ifs
  · split <;> simp [invalidDiff]
  · split
    · simp
    · simp
    · split_ifs <;> simp
    · simp [invalidDiff]

theorem toFilePatch_ne_panic (sha256Hex : String → String) (t : FsTree) (d : ParsedFileDiff) :
    d.toFilePatch sha256Hex t ≠ .error .panic := by
  intro h
  unfold ParsedFileDiff.toFilePatch at h
  rcases bind_eq_panic h with h | ⟨⟨path, operation⟩, -, h⟩
  · exact target_ne_panic d h
  rcases bind_eq_panic h with h | ⟨⟨⟩, -, h⟩
  · exact orError_ne_panic _ h
  have happlied {original : String} {f : String → DiffResult FilePatch} (hf : ∀ modified, f modified ≠ .error .panic)
      (h : (applyHunks original d.hunks >>= f) = .error .panic) : False := by
    rcases bind_eq_panic h with h | ⟨modified, -, h⟩
    · exact applyHunks_ne_panic _ _ h
    · exact hf modified h
  rcases operation with _ | _ | _ | origin
  · simp only at h
    rcases bind_eq_panic h with h | ⟨original, -, h⟩
    · exact orError_ne_panic _ h
    · split_ifs at h
      · cases h
      · exact happlied (fun modified => by simp [pure, Except.pure]) h
  · simp only at h
    split_ifs at h
    · cases h
    · exact happlied (fun modified => by simp [pure, Except.pure]) h
  · simp only at h
    rcases bind_eq_panic h with h | ⟨original, -, h⟩
    · exact orError_ne_panic _ h
    · split_ifs at h
      · cases h
      · exact happlied (fun modified => by simp [pure, Except.pure]) h
  · simp only at h
    rcases bind_eq_panic h with h | ⟨⟨⟩, -, h⟩
    · exact orError_ne_panic _ h
    rcases bind_eq_panic h with h | ⟨original, -, h⟩
    · exact orError_ne_panic _ h
    · split_ifs at h
      · cases h
      · exact happlied (fun modified => by simp [pure, Except.pure]) h

theorem fromUnifiedDiff_eq_panic_iff {sha256Hex : String → String} {id : String} {t : FsTree} {diff : String} :
    NvPatch.fromUnifiedDiff sha256Hex id t diff = .error .panic ↔ parseFileDiffs diff = .error .panic := by
  have hmap (ds : List ParsedFileDiff) : ds.mapM (ParsedFileDiff.toFilePatch sha256Hex t) ≠ .error .panic := by
    induction ds with
    | nil =>
      rw [List.mapM_nil]
      simp [pure, Except.pure]
    | cons d ds ih =>
      rw [List.mapM_cons]
      intro h
      rcases bind_eq_panic h with h | ⟨f, -, h⟩
      · exact toFilePatch_ne_panic sha256Hex t d h
      rcases bind_eq_panic h with h | ⟨fs, -, h⟩
      · exact ih h
      · cases h
  unfold NvPatch.fromUnifiedDiff
  constructor
  · intro h
    rcases bind_eq_panic h with h | ⟨fileDiffs, -, h⟩
    · exact h
    split_ifs at h
    · cases h
    · rcases bind_eq_panic h with h | ⟨files, -, h⟩
      · exact absurd h (hmap fileDiffs)
      · cases h
  · intro h
    rw [h]
    rfl

/-- **A diff is read safely just if no line of a hunk begins with a character of more than one byte.** -/
theorem readsSafely_iff {diff : String} : ReadsSafely diff ↔ ∀ p, (Position.start diff).Reaches p → p.OnBoundary := by
  have hlength : (splitInclusive '\n' diff.toList).length ≤ diff.length := by
    rw [← String.length_toList]
    exact length_splitInclusive_le _ _
  have hrisk : (Position.start diff).Risk ↔ ¬ ∀ p, (Position.start diff).Reaches p → p.OnBoundary := by
    simp [Position.Risk]
  constructor
  · intro h
    by_contra hnot
    exact h.outcome (parseFileDiffs_eq_panic_iff.mpr (hrisk.mpr hnot))
  · intro h
    have houtcome : parseFileDiffs diff ≠ .error .panic := fun hpanic =>
      hrisk.mp (parseFileDiffs_eq_panic_iff.mp hpanic) h
    refine ⟨houtcome, fun sha256Hex id t hpanic => houtcome (fromUnifiedDiff_eq_panic_iff.mp hpanic), ?_, ?_, ?_⟩
    · exact fun lines fuel hfuel => ⟨Position.parseSections_fuel hfuel le_rfl, fun acc =>
        Position.parseHunks_fuel hfuel le_rfl⟩
    · intro p q _ hnext
      rcases Position.next_cases hnext with ⟨taken, hne, hlines, -⟩ | ⟨hlines, hdepth, -⟩
      · exact Or.inl ⟨taken, hne, hlines⟩
      · exact Or.inr ⟨hlines, hdepth⟩
    · intro oldCount newCount oldSeen newSeen any lines hreaches
      have hseen := Position.seen_le hreaches
      simp only [Position.seen, Position.start, Position.lines] at hseen
      omega

/-- A line of a hunk that begins with a letter of two bytes. -/
def sampleUncut : String := "--- a/x\n+++ b/x\n@@ -1 +1 @@\né\n"

/-- **The reader panics at it.** -/
theorem not_readsSafely_uncut : parseFileDiffs sampleUncut = .error .panic ∧ ¬ ReadsSafely sampleUncut := by
  have hpanic : parseFileDiffs sampleUncut = .error .panic := by decide +kernel
  exact ⟨hpanic, fun h => h.outcome hpanic⟩

end Nerve.Patch
