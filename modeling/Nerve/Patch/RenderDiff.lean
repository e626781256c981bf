import Nerve.Patch.ParseDiff

/-!
# Reading back what was written: one file

What a unified diff is, as text: headers, hunks with their ranges, and after a line that has no
newline the line that says so. `CorrectDiff` says that the line diff of two texts is written in this
way, which is what is assumed of the `similar` crate.

The lines of a hunk are read back one by one (`parseHunkLines_render`), but a line that says that
the line before had no newline is read only while the hunk's counts are not complete, and it takes a
carriage return along. So they are read as they are if the hunk is `Readable`: it ends in no such
line, and none has a carriage return. Applied to the old text, the hunks then give the new one
(`applyHunks_parsedHunk`).
-/

namespace Nerve.Patch

open Nerve.Text Nerve.LineDiff

/-! ### What is written -/

/-- The character before a line of a hunk. -/
def tag : HunkLine Line → Char
  | .context _ => ' '
  | .add _ => '+'
  | .remove _ => '-'

def Terminated (line : Line) : Prop := line.getLast? = some '\n'

instance (line : Line) : Decidable (Terminated line) := inferInstanceAs (Decidable (_ = _))

def renderLine (l : HunkLine Line) : List Line :=
  if Terminated l.line then [tag l :: l.line]
  else [tag l :: (l.line ++ ['\n']), noNewlineMarker.toList ++ ['\n']]

/-- The first line of a range as it is printed: an empty one starts at the line before it. -/
def printedStart (index count : Nat) : Nat := if count = 0 then index else index + 1

def renderRange (index count : Nat) : List Char :=
  if count = 1 then digits (printedStart index count) else digits (printedStart index count) ++ ',' :: digits count

def renderHeader (h : Hunk Line) : Line :=
  "@@ ".toList ++ (('-' :: renderRange h.oldIndex (olds h.lines).length) ++
    ' ' :: ('+' :: renderRange h.newIndex (news h.lines).length) ++ " @@\n".toList)

def renderHunk (h : Hunk Line) : List Line := renderHeader h :: h.lines.flatMap renderLine

/-- The lines of a diff, under its two headers. -/
def renderDiff (oldPath newPath : List Char) (hunks : List (Hunk Line)) : List Line :=
  ("--- ".toList ++ oldPath ++ ['\n']) :: ("+++ ".toList ++ newPath ++ ['\n']) :: hunks.flatMap renderHunk

/-- The crate's diff of the two texts: correct hunks, written as a unified diff. As it prints three
lines of context, a hunk has no old lines only if there are none at all. -/
structure CorrectDiff (textDiff : TextDiff) (old new : String) (hunks : List (Hunk Line)) : Prop where
  text : ∀ oldPath newPath : String,
    (textDiff old new oldPath newPath).toList = (renderDiff oldPath.toList newPath.toList hunks).flatten
  diffs : Diffs 0 0 (splitLinesPreservingEndings old) hunks (splitLinesPreservingEndings new)
  context : ∀ h ∈ hunks, olds h.lines = [] → splitLinesPreservingEndings old = []

/-- The diff that takes all lines away and puts the new ones in, if there are any. -/
def allLines (old new : String) : List (Hunk Line) :=
  replaceAll (splitLinesPreservingEndings old) (splitLinesPreservingEndings new)

def replaceTextDiff : TextDiff := fun old new oldPath newPath =>
  String.ofList (renderDiff oldPath.toList newPath.toList (allLines old new)).flatten

theorem correctDiff_replaceTextDiff (old new : String) : CorrectDiff replaceTextDiff old new (allLines old new) where
  text oldPath newPath := String.toList_ofList
  diffs := diffs_replaceAll _ _
  context h hh hnil := by
    rw [allLines, replaceAll, List.mem_singleton] at hh
    rw [← olds_replaceAll (splitLinesPreservingEndings old) (splitLinesPreservingEndings new), ← hnil, hh]

/-- The hunk does not end in a line without newline, and such a line has no carriage return at its end. -/
structure Readable (h : Hunk Line) : Prop where
  last : ∀ l, h.lines.getLast? = some l → Terminated l.line
  carriage : ∀ l ∈ h.lines, ¬ Terminated l.line → l.line.getLast? ≠ some '\r'

/-! ### Lines -/

theorem isLine_renderLine {l : HunkLine Line} (h : IsLine '\n' l.line ∨ IsOpenLine '\n' l.line) :
    ∀ line ∈ renderLine l, IsLine '\n' line := by
  have htag : '\n' ≠ tag l := by cases l <;> simp [tag]
  unfold renderLine
  split_ifs with hl
  · rcases h with ⟨s, hs, he⟩ | ⟨hs, -⟩
    · rintro line hline
      rw [List.mem_singleton.mp hline, he]
      exact ⟨tag l :: s, by simp [hs, htag], rfl⟩
    · exact absurd (List.mem_of_getLast? hl) hs
  · rcases h with ⟨s, hs, he⟩ | ⟨hs, -⟩
    · exact absurd (by rw [Terminated, he, List.getLast?_concat]) hl
    · rintro line hline
      rcases List.mem_cons.mp hline with rfl | hline
      · exact ⟨tag l :: l.line, by simp [hs, htag], rfl⟩
      · rw [List.mem_singleton.mp hline]
        exact ⟨noNewlineMarker.toList, by decide, rfl⟩

theorem digits_ne {n : Nat} {c : Char} (hc : c.isDigit = false) : c ∉ digits n := by
  intro h
  rw [digits_isDigit h] at hc
  cases hc

theorem isLine_renderHeader (h : Hunk Line) : IsLine '\n' (renderHeader h) := by
  have hrange (index count : Nat) : '\n' ∉ renderRange index count := by
    unfold renderRange
    split_ifs
    · exact digits_ne (by decide)
    · simp [digits_ne (n := printedStart index count) (c := '\n') (by decide),
        digits_ne (n := count) (c := '\n') (by decide)]
  refine ⟨"@@ ".toList ++ (('-' :: renderRange h.oldIndex (olds h.lines).length) ++
    ' ' :: ('+' :: renderRange h.newIndex (news h.lines).length) ++ " @@".toList), ?_, ?_⟩
  · simp [hrange]
  · simp [renderHeader]

/-! ### The lines of a hunk -/

theorem popNewline_concat {line : Line} (h : line.getLast? ≠ some '\r') : popNewline (line ++ ['\n']) = line := by
  rw [popNewline, if_pos List.getLast?_concat, List.dropLast_concat, if_neg h]

theorem markPrevious_concat (hunkLines : List (HunkLine Line)) (l : HunkLine Line) :
    markPreviousLineWithoutNewline (hunkLines ++ [l]) = .ok (hunkLines ++ [HunkLine.popNewline l]) := by
  rw [markPreviousLineWithoutNewline, List.getLast?_concat]
  simp only [List.dropLast_concat]

/-- The line as it is read before its marker. -/
def addNewline : HunkLine Line → HunkLine Line
  | .context line => .context (line ++ ['\n'])
  | .add line => .add (line ++ ['\n'])
  | .remove line => .remove (line ++ ['\n'])

section AddNewline

variable (l : HunkLine Line)

theorem tag_addNewline : tag (addNewline l) = tag l := by cases l <;> rfl

theorem line_addNewline : (addNewline l).line = l.line ++ ['\n'] := by cases l <;> rfl

theorem olds_addNewline : (olds [addNewline l]).length = (olds [l]).length := by cases l <;> rfl

theorem news_addNewline : (news [addNewline l]).length = (news [l]).length := by cases l <;> rfl

variable {l}

theorem popNewline_addNewline (h : l.line.getLast? ≠ some '\r') : HunkLine.popNewline (addNewline l) = l := by
  cases l with
  | context line => exact congrArg HunkLine.context (popNewline_concat h)
  | add line => exact congrArg HunkLine.add (popNewline_concat h)
  | remove line => exact congrArg HunkLine.remove (popNewline_concat h)

end AddNewline

/-- The lines as they are read. A marker takes the newline of its line away, with a carriage return
before it; behind the last line of a hunk it is not read. -/
def readLines : List (HunkLine Line) → List (HunkLine Line)
  | [] => []
  | [l] => [if Terminated l.line then l else addNewline l]
  | l :: l' :: lines => (if Terminated l.line then l else HunkLine.popNewline (addNewline l)) :: readLines (l' :: lines)

/-- What is left of them. -/
def unread : List (HunkLine Line) → List Line
  | [] => []
  | [l] => if Terminated l.line then [] else [noNewlineMarker.toList ++ ['\n']]
  | _ :: l' :: lines => unread (l' :: lines)

section HunkLines

variable {oldCount newCount : Nat} {hunkLines : List (HunkLine Line)}

/-- A counted line is read as it stands. -/
theorem parseHunkLines_tag {oldSeen newSeen : Nat} (hmore : oldSeen < oldCount ∨ newSeen < newCount) (l : HunkLine Line)
    (rest : List Line) :
    parseHunkLines oldCount newCount oldSeen newSeen hunkLines ((tag l :: l.line) :: rest) =
      parseHunkLines oldCount newCount (oldSeen + (olds [l]).length) (newSeen + (news [l]).length) (hunkLines ++ [l])
        rest := by
  cases l with
  | context line | add line | remove line =>
    simp only [tag, HunkLine.line]
    rw [parseHunkLines, if_pos hmore]
    rfl

theorem parseHunkLines_addNewline {oldSeen newSeen : Nat} (hmore : oldSeen < oldCount ∨ newSeen < newCount)
    (l : HunkLine Line) (rest : List Line) :
    parseHunkLines oldCount newCount oldSeen newSeen hunkLines ((tag l :: (l.line ++ ['\n'])) :: rest) =
      parseHunkLines oldCount newCount (oldSeen + (olds [l]).length) (newSeen + (news [l]).length)
        (hunkLines ++ [addNewline l]) rest := by
  have h := @parseHunkLines_tag oldCount newCount hunkLines oldSeen newSeen hmore (addNewline l) rest
  rwa [tag_addNewline, line_addNewline, olds_addNewline, news_addNewline] at h

/-- The line before was one without newline. -/
theorem parseHunkLines_marker {oldSeen newSeen : Nat} (hmore : oldSeen < oldCount ∨ newSeen < newCount)
    (l : HunkLine Line) (rest : List Line) :
    parseHunkLines oldCount newCount oldSeen newSeen (hunkLines ++ [l]) ((noNewlineMarker.toList ++ ['\n']) :: rest) =
      parseHunkLines oldCount newCount oldSeen newSeen (hunkLines ++ [HunkLine.popNewline l]) rest := by
  rw [parseHunkLines.eq_def]
  simp only [if_pos hmore]
  rw [if_pos (by simp), markPrevious_concat]

/-- When the counts are complete, so is the hunk. -/
theorem parseHunkLines_done (rest : List Line) :
    parseHunkLines oldCount newCount oldCount newCount hunkLines rest = .ok (hunkLines, rest) := by
  cases rest with
  | nil => rw [parseHunkLines, finishHunk, if_neg (by simp)]
  | cons line rest =>
    rw [parseHunkLines.eq_def]
    simp only [lt_irrefl, or_self, if_false]
    rw [finishHunk, if_neg (by simp)]

/-- **The lines of a hunk are read as they can be**, from any of them on. -/
theorem parseHunkLines_render {lines : List (HunkLine Line)} (rest : List Line) {oldSeen newSeen : Nat}
    (hold : oldSeen + (olds lines).length = oldCount) (hnew : newSeen + (news lines).length = newCount) :
    parseHunkLines oldCount newCount oldSeen newSeen hunkLines (lines.flatMap renderLine ++ rest) =
      .ok (hunkLines ++ readLines lines, unread lines ++ rest) := by
  induction lines generalizing oldSeen newSeen hunkLines with
  | nil =>
    obtain rfl : oldSeen = oldCount := hold
    obtain rfl : newSeen = newCount := hnew
    rw [readLines, List.append_nil]
    exact parseHunkLines_done rest
  | cons l lines ih =>
    have holds : (olds (l :: lines)).length = (olds [l]).length + (olds lines).length := by
      rw [← List.singleton_append, olds_append, List.length_append]
    have hnews : (news (l :: lines)).length = (news [l]).length + (news lines).length := by
      rw [← List.singleton_append, news_append, List.length_append]
    have hmore : oldSeen < oldCount ∨ newSeen < newCount := by
      have := olds_or_news_pos lines l
      omega
    rw [List.flatMap_cons, List.append_assoc, renderLine]
    rcases lines with _ | ⟨l', lines⟩
    · -- the last line, and its marker stays where it is
      obtain rfl : oldSeen + (olds [l]).length = oldCount := hold
      obtain rfl : newSeen + (news [l]).length = newCount := hnew
      rw [readLines, unread, List.flatMap_nil, List.nil_append]
      split_ifs with hl
      · rw [List.singleton_append, parseHunkLines_tag hmore, parseHunkLines_done, List.nil_append]
      · rw [List.cons_append, parseHunkLines_addNewline hmore, parseHunkLines_done]
    · have hmore' : oldSeen + (olds [l]).length < oldCount ∨ newSeen + (news [l]).length < newCount := by
        have := olds_or_news_pos lines l'
        omega
      rw [readLines, unread]
      split_ifs with hl
      · rw [List.singleton_append, parseHunkLines_tag hmore, ih (by omega) (by omega), List.append_assoc]
        rfl
      · rw [List.cons_append, List.singleton_append, parseHunkLines_addNewline hmore, parseHunkLines_marker hmore',
          ih (by omega) (by omega), List.append_assoc, List.singleton_append]

end HunkLines

/-! ### Hunks that are read as they are -/

section ReadLines

variable {lines : List (HunkLine Line)}

/-- Only what has no newline is read otherwise. -/
theorem forall₂_readLines :
    List.Forall₂ (HunkLine.Rel fun line line' => Terminated line → line = line') lines (readLines lines) := by
  have hkeep (l : HunkLine Line) : HunkLine.Rel (fun line line' => Terminated line → line = line') l l := by
    cases l with
    | context | add | remove => constructor; exact fun _ => rfl
  have hadd (l : HunkLine Line) (hl : ¬ Terminated l.line) :
      HunkLine.Rel (fun line line' => Terminated line → line = line') l (addNewline l) ∧
        HunkLine.Rel (fun line line' => Terminated line → line = line') l (HunkLine.popNewline (addNewline l)) := by
    cases l with
    | context | add | remove => constructor <;> constructor <;> exact fun h => absurd h hl
  induction lines with
  | nil => exact .nil
  | cons l lines ih =>
    rcases lines with _ | ⟨l', lines⟩
    · rw [readLines]
      split_ifs with hl
      · exact .cons (hkeep l) .nil
      · exact .cons (hadd l hl).1 .nil
    · rw [readLines]
      split_ifs with hl
      · exact .cons (hkeep l) ih
      · exact .cons (hadd l hl).2 ih

theorem length_readLines : (olds (readLines lines)).length = (olds lines).length ∧
    (news (readLines lines)).length = (news lines).length :=
  ⟨(forall₂_olds forall₂_readLines).length_eq.symm, (forall₂_news forall₂_readLines).length_eq.symm⟩

theorem length_unread_le : (unread lines).length ≤ (lines.flatMap renderLine).length := by
  induction lines with
  | nil => exact le_rfl
  | cons l lines ih =>
    rw [List.flatMap_cons, List.length_append]
    rcases lines with _ | ⟨l', lines⟩
    · rw [unread, renderLine]
      split_ifs <;> simp
    · exact ih.trans (Nat.le_add_left _ _)

/-- The lines are read as they are, if the last has its newline and no other that has none ends in a
carriage return. -/
theorem readLines_of_terminated (hlast : ∀ l, lines.getLast? = some l → Terminated l.line)
    (hcarriage : ∀ l ∈ lines, ¬ Terminated l.line → l.line.getLast? ≠ some '\r') : readLines lines = lines := by
  induction lines with
  | nil => rfl
  | cons l lines ih =>
    rcases lines with _ | ⟨l', lines⟩
    · rw [readLines, if_pos (hlast l rfl)]
    · rw [readLines, ih (fun m hm => hlast m (by rw [List.getLast?_cons_cons, hm]))
        fun m hm => hcarriage m (List.mem_cons_of_mem l hm)]
      split_ifs with hl
      · rfl
      · rw [popNewline_addNewline (hcarriage l List.mem_cons_self hl)]

end ReadLines

/-- The hunk as it is read. -/
def asRead (h : Hunk Line) : Hunk Line := { h with lines := readLines h.lines }

theorem Readable.asRead {h : Hunk Line} (hread : Readable h) : Patch.asRead h = h := by
  rw [Patch.asRead, readLines_of_terminated hread.last hread.carriage]

/-! ### The header of a hunk -/

theorem trimLineEnd_concat {line : Line} (h : ∀ c, line.getLast? = some c → c ≠ '\r' ∧ c ≠ '\n') :
    trimLineEnd (line ++ ['\n']) = line := by
  rcases List.eq_nil_or_concat line with rfl | ⟨line, c, rfl⟩
  · rfl
  · obtain ⟨hr, hn⟩ := h c (by simp)
    simp [trimLineEnd, hr, hn]

theorem isWord_renderRange (sign : Char) (hsign : isWhitespace sign = false) (index count : Nat) :
    IsWord (sign :: renderRange index count) := by
  refine isWord_of_isDigit (List.cons_ne_nil _ _) fun c hc => ?_
  rcases List.mem_cons.mp hc with rfl | hc
  · exact Or.inr hsign
  · unfold renderRange at hc
    split_ifs at hc
    · exact Or.inl (digits_isDigit hc)
    · rcases List.mem_append.mp hc with hc | hc
      · exact Or.inl (digits_isDigit hc)
      · rcases List.mem_cons.mp hc with rfl | hc
        · exact Or.inr (by decide)
        · exact Or.inl (digits_isDigit hc)

theorem parseHunkRange_render (sign : Char) {index count : Nat} (h : index + count < 2 ^ 64) :
    parseHunkRange (sign :: renderRange index count) sign = some (printedStart index count, count) := by
  have hstart : printedStart index count < 2 ^ 64 := by
    unfold printedStart
    split_ifs <;> omega
  have hcomma : ∀ c ∈ digits (printedStart index count), (c != ',') = true := by
    intro c hc
    rw [bne_iff_ne]
    rintro rfl
    exact digits_ne (by decide) hc
  have hsign : stripPrefix [sign] (sign :: renderRange index count) = some (renderRange index count) :=
    stripPrefix_append [sign] _
  rw [parseHunkRange, hsign, Option.bind_some, renderRange]
  split_ifs with hone
  · rw [List.dropWhile_eq_nil_iff.mpr hcomma]
    simp only [parseUsize_digits hstart, Option.map_some]
    rw [hone]
  · rw [List.dropWhile_append_of_pos hcomma, List.dropWhile_cons_of_neg (by simp)]
    simp only
    rw [List.takeWhile_append_of_pos hcomma, List.takeWhile_cons_of_neg (by simp), List.append_nil,
      parseUsize_digits hstart, parseUsize_digits (by omega)]
    rfl

theorem parseHunkHeader_render {h : Hunk Line} (hold : h.oldIndex + (olds h.lines).length < 2 ^ 64)
    (hnew : h.newIndex + (news h.lines).length < 2 ^ 64) :
    parseHunkHeader (renderHeader h) = some (printedStart h.oldIndex (olds h.lines).length, (olds h.lines).length,
      printedStart h.newIndex (news h.lines).length, (news h.lines).length) := by
  have hfirst := isWord_renderRange '-' (by decide) h.oldIndex (olds h.lines).length
  have hsecond := isWord_renderRange '+' (by decide) h.newIndex (news h.lines).length
  have hold := parseHunkRange_render '-' hold
  have hnew := parseHunkRange_render '+' hnew
  have hspace {word : List Char} (hword : IsWord word) : ' ' ∉ word := fun hmem => by
    have := hword.2 ' ' hmem
    cases this
  have htrim : trimLineEnd (renderHeader h) =
      "@@ ".toList ++ (('-' :: renderRange h.oldIndex (olds h.lines).length) ++
        ' ' :: ('+' :: renderRange h.newIndex (news h.lines).length) ++ " @@".toList) := by
    have hline : renderHeader h = ("@@ ".toList ++ (('-' :: renderRange h.oldIndex (olds h.lines).length) ++
        ' ' :: ('+' :: renderRange h.newIndex (news h.lines).length) ++ " @@".toList)) ++ ['\n'] := by
      simp [renderHeader]
    rw [hline]
    refine trimLineEnd_concat fun c hc => ?_
    have hlast : c = '@' := by
      rw [← List.append_assoc, List.getLast?_append_of_ne_nil _ (by decide)] at hc
      exact (Option.some.inj hc).symm
    subst hlast
    decide
  -- the space between the two ranges does not begin the end of the header
  have hranges : before " @@".toList (('-' :: renderRange h.oldIndex (olds h.lines).length) ++
      ' ' :: ('+' :: renderRange h.newIndex (news h.lines).length) ++ " @@".toList) =
      some (('-' :: renderRange h.oldIndex (olds h.lines).length) ++
        ' ' :: ('+' :: renderRange h.newIndex (news h.lines).length)) := by
    have hmid : before " @@".toList (' ' :: (('+' :: renderRange h.newIndex (news h.lines).length) ++ " @@".toList)) =
        (before " @@".toList (('+' :: renderRange h.newIndex (news h.lines).length) ++ " @@".toList)).map (' ' :: ·) :=
      rfl
    have hend : before " @@".toList " @@".toList = some [] := rfl
    rw [List.append_assoc]
    refine (before_append_of_not_mem (hspace hfirst) ['@', '@'] _).trans ?_
    rw [List.cons_append]
    refine (congrArg _ (hmid.trans (congrArg _
      (before_append_of_not_mem (hspace hsecond) ['@', '@'] " @@".toList)))).trans ?_
    rw [show before [' ', '@', '@'] " @@".toList = some [] from hend]
    simp
  rw [parseHunkHeader, htrim, stripPrefix_append, Option.bind_some, hranges, Option.bind_some,
    hfirst.splitWhitespace_space, hsecond.splitWhitespace]
  simp only [hold, hnew, Option.bind_some, Option.map_some]

/-! ### Applying what was read -/

/-- A hunk as it is read. -/
def parsedHunk (h : Hunk Line) : ParsedHunk :=
  ⟨printedStart h.oldIndex (olds h.lines).length, (olds h.lines).length, (news h.lines).length, h.lines⟩

theorem validateHunkCounts_parsedHunk (h : Hunk Line) : validateHunkCounts (parsedHunk h) = .ok () := by
  rw [validateHunkCounts, if_neg (by simp [parsedHunk])]

section Apply

variable {originalLines : List Line}

theorem consumeOriginalLine_drop {i : Nat} {value : Line} {rest : List Line}
    (h : originalLines.drop i = value :: rest) :
    consumeOriginalLine originalLines i value = .ok (i + 1) ∧ originalLines.drop (i + 1) = rest := by
  have hget : originalLines[i]? = some value := by
    rw [← List.head?_drop, h, List.head?_cons]
  constructor
  · rw [consumeOriginalLine, hget]
    simp only [ne_eq, not_true_eq_false, if_false]
  · rw [← List.drop_drop, h, List.drop_one, List.tail_cons]

/-- The lines of a hunk take its old lines and give its new ones. -/
theorem applyHunkLines_drop {lines : List (HunkLine Line)} {i : Nat} {rest : List Line}
    (h : originalLines.drop i = olds lines ++ rest) (modified : List Line) :
    applyHunkLines originalLines i modified lines = .ok (i + (olds lines).length, modified ++ news lines) := by
  induction lines generalizing i modified with
  | nil => rw [applyHunkLines, olds_nil, news_nil, List.append_nil, List.length_nil, Nat.add_zero]
  | cons l lines ih =>
    cases l with
    | context value =>
      obtain ⟨hconsume, hdrop⟩ := consumeOriginalLine_drop h
      rw [applyHunkLines, hconsume]
      simp only
      rw [ih hdrop, olds_context, news_context, List.append_assoc, List.singleton_append, List.length_cons,
        Nat.add_assoc, Nat.add_comm 1]
    | remove value =>
      obtain ⟨hconsume, hdrop⟩ := consumeOriginalLine_drop h
      rw [applyHunkLines, hconsume]
      simp only
      rw [ih hdrop, olds_remove, news_remove, List.length_cons, Nat.add_assoc, Nat.add_comm 1]
    | add value => rw [applyHunkLines, ih h, olds_add, news_add, List.append_assoc, List.singleton_append]

/-- **Hunks that lead from one list of lines to another do so when they are applied.** -/
theorem applyHunkList_diffs {i j : Nat} {old new : List Line} {hunks : List (Hunk Line)} (h : Diffs i j old hunks new)
    (hi : i ≤ originalLines.length) (hold : originalLines.drop i = old)
    (hcontext : ∀ h ∈ hunks, olds h.lines = [] → originalLines = []) (modified : List Line) :
    ∃ i' modified', applyHunkList originalLines i modified (hunks.map parsedHunk) = .ok (i', modified') ∧
      modified' ++ originalLines.drop i' = modified ++ new := by
  induction h generalizing modified with
  | rest i j kept => exact ⟨i, modified, rfl, by rw [hold]⟩
  | @hunk i j kept hunk hunks old new hindex hnew hrest ih =>
    have hlength := congrArg List.length hold
    simp only [List.length_drop, List.length_append] at hlength
    have htarget : printedStart hunk.oldIndex (olds hunk.lines).length - 1 = hunk.oldIndex := by
      unfold printedStart
      split_ifs with hzero
      · -- no old lines, so that there are none at all
        have hnil := hcontext hunk List.mem_cons_self (List.length_eq_zero_iff.mp hzero)
        rw [hnil, List.length_nil] at hi hlength
        omega
      · omega
    have hkept : (originalLines.drop i).take (hunk.oldIndex - i) = kept := by
      rw [hold, hindex, Nat.add_sub_cancel_left, List.take_left]
    have hdrop : originalLines.drop hunk.oldIndex = olds hunk.lines ++ old := by
      rw [hindex, ← List.drop_drop, hold, List.drop_left]
    have hdrop' : originalLines.drop (hunk.oldIndex + (olds hunk.lines).length) = old := by
      rw [← List.drop_drop, hdrop, List.drop_left]
    obtain ⟨i', modified', hlist, hmodified⟩ := ih (by omega) hdrop'
      (fun h hh => hcontext h (List.mem_cons_of_mem _ hh)) (modified ++ kept ++ news hunk.lines)
    refine ⟨i', modified', ?_, by rw [hmodified]; simp only [List.append_assoc]⟩
    rw [List.map_cons, applyHunkList, validateHunkCounts_parsedHunk]
    have hwithin : ¬ (hunk.oldIndex < i ∨ hunk.oldIndex > originalLines.length) := by omega
    simp only [parsedHunk] at hlist ⊢
    simp only [htarget, if_neg hwithin, hkept, applyHunkLines_drop hdrop]
    exact hlist

theorem applyHunks_parsedHunk {textDiff : TextDiff} {old new : String} {hunks : List (Hunk Line)}
    (h : CorrectDiff textDiff old new hunks) : applyHunks old (hunks.map parsedHunk) = .ok new := by
  obtain ⟨i, modified, hlist, hmodified⟩ := @applyHunkList_diffs (splitLinesPreservingEndings old) 0 0 _ _ _ h.diffs
    (Nat.zero_le _) rfl h.context []
  rw [applyHunks]
  simp only [hlist]
  rw [hmodified, List.nil_append, splitLinesPreservingEndings, flatten_splitInclusive, String.ofList_toList]

end Apply

end Nerve.Patch
