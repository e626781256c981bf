import Nerve.Patch.RenderDiff

/-!
# Where a hunk is put

A hunk's header names its first old line. With no old lines, it names the line that the new ones
come after. `apply_hunks` takes one away from that number in both cases, so that what is to come
after a line is put before it.

`Denotes` is what the format says: `Places` with the number of old lines before a hunk, `oldIndex`.
The code's meaning is the same with `targetIndex` (`applyHunks_eq_ok`). The two are compared in
`applyHunks_iff`: they agree if no hunk adds lines alone after a line of the file, and else only by
chance.
-/

namespace Nerve.Patch

open Nerve.Text Nerve.LineDiff

namespace ParsedHunk

variable (h : ParsedHunk)

/-- The number of old lines before the hunk. -/
def oldIndex : Nat := if h.oldCount = 0 then h.oldStart else h.oldStart - 1

/-- The index at which it is applied. -/
def targetIndex : Nat := h.oldStart - 1

/-- The counts are those of the lines, and the first old line is one. -/
structure WellFormed : Prop where
  counts : (olds h.lines).length = h.oldCount ∧ (news h.lines).length = h.newCount
  start : 0 < h.oldCount → 0 < h.oldStart

/-- The line is one of the old lines of the hunk. -/
def Covers (n : Nat) : Prop := h.oldStart ≤ n ∧ n < h.oldStart + h.oldCount

end ParsedHunk

/-- In increasing position, none beginning before the one before it ends. -/
def Increasing (hunks : List ParsedHunk) : Prop := Ordered ParsedHunk.oldIndex ParsedHunk.lines 0 hunks

/-- What the hunks make of a text, if they match it. -/
def Denotes (original : String) (hunks : List ParsedHunk) (modified : String) : Prop :=
  ∃ new, Places ParsedHunk.oldIndex ParsedHunk.lines 0 (splitLinesPreservingEndings original) hunks new ∧
    modified = String.ofList new.flatten

/-- What is to come after the line. -/
def inserted (hunks : List ParsedHunk) (n : Nat) : List Char :=
  ((hunks.filter fun h => h.oldCount = 0 ∧ h.oldStart = n).flatMap fun h => news h.lines).flatten

/-- What comes after the line `n` is the same text before it. -/
def Commutes (lines : List Line) (hunks : List ParsedHunk) (n : Nat) : Prop :=
  ∀ line, lines[n]? = some line → inserted hunks (n + 1) ++ line = line ++ inserted hunks (n + 1)

/-- Nothing is seen of an insertion being put before its line: the line is there, no hunk takes it,
and with what comes after it it is the same text in either order. -/
structure Unmoved (lines : List Line) (hunks : List ParsedHunk) : Prop where
  within : ∀ h ∈ hunks, h.oldCount = 0 → h.oldStart ≤ lines.length
  free : ∀ h ∈ hunks, h.oldCount = 0 → ∀ g ∈ hunks, ¬ g.Covers h.oldStart
  commutes : ∀ n, Commutes lines hunks n

/-- The hunks cannot be applied, even with every insertion before its line. -/
def Inapplicable (lines : List Line) (hunks : List ParsedHunk) : Prop :=
  (∃ h ∈ hunks, 0 < h.oldCount ∧ ¬ Fits ParsedHunk.oldIndex ParsedHunk.lines lines h) ∨
    (∃ h ∈ hunks, h.oldCount = 0 ∧ lines.length + 1 < h.oldStart) ∨
    (∃ h ∈ hunks, h.oldCount = 0 ∧ h.oldStart = lines.length + 1) ∧
      ∃ h ∈ hunks, h.oldCount = 0 ∧ ∃ g ∈ hunks, g.Covers h.oldStart

/-! ### What is applied -/

section Apply

variable {originalLines : List Line}

theorem consumeOriginalLine_eq_ok {i j : Nat} {value : Line} (h : consumeOriginalLine originalLines i value = .ok j) :
    j = i + 1 ∧ originalLines.drop i = value :: originalLines.drop (i + 1) := by
  unfold consumeOriginalLine at h
  split at h
  · cases h
  · rename_i actual hget
    obtain ⟨hi, rfl⟩ := List.getElem?_eq_some_iff.mp hget
    by_cases hvalue : originalLines[i] = value
    · rw [if_neg (not_not.mpr hvalue)] at h
      exact ⟨(Except.ok.inj h).symm, by rw [← hvalue, List.drop_eq_getElem_cons hi]⟩
    · rw [if_pos hvalue] at h
      cases h

/-- The lines of a hunk are applied only where its old ones stand. -/
theorem olds_prefix_of_applyHunkLines {lines : List (HunkLine Line)} {i : Nat} {modified : List Line}
    {result : Nat × List Line} (h : applyHunkLines originalLines i modified lines = .ok result) :
    olds lines <+: originalLines.drop i := by
  induction lines generalizing i modified with
  | nil => exact List.nil_prefix
  | cons l lines ih =>
    cases l with
    | context value | remove value =>
      rw [applyHunkLines] at h
      split at h
      · cases h
      · rename_i j hconsume
        obtain ⟨rfl, hdrop⟩ := consumeOriginalLine_eq_ok hconsume
        simp only [olds_context, olds_remove]
        rw [hdrop]
        exact List.cons_prefix_cons.mpr ⟨rfl, ih h⟩
    | add value =>
      rw [applyHunkLines] at h
      rw [olds_add]
      exact ih h

theorem applyHunkLines_iff {lines : List (HunkLine Line)} {i : Nat} {modified : List Line} {result : Nat × List Line} :
    applyHunkLines originalLines i modified lines = .ok result ↔
      olds lines <+: originalLines.drop i ∧ result = (i + (olds lines).length, modified ++ news lines) := by
  constructor
  · intro h
    obtain ⟨rest, hrest⟩ := olds_prefix_of_applyHunkLines h
    rw [applyHunkLines_drop hrest.symm] at h
    exact ⟨⟨rest, hrest⟩, (Except.ok.inj h).symm⟩
  · rintro ⟨⟨rest, hrest⟩, rfl⟩
    exact applyHunkLines_drop hrest.symm modified

/-- The loop over the hunks puts them all at their target indices, or fails. -/
theorem applyHunkList_iff {hunks : List ParsedHunk} {i : Nat} {modified result : List Line} :
    (∃ i' modified', applyHunkList originalLines i modified hunks = .ok (i', modified') ∧
        result = modified' ++ originalLines.drop i') ↔
      (∀ h ∈ hunks, validateHunkCounts h = .ok ()) ∧ Ordered ParsedHunk.targetIndex ParsedHunk.lines i hunks ∧
        (∀ h ∈ hunks, Fits ParsedHunk.targetIndex ParsedHunk.lines originalLines h) ∧
        result = modified ++ placed ParsedHunk.targetIndex ParsedHunk.lines originalLines i hunks := by
  induction hunks generalizing i modified with
  | nil => simp [applyHunkList, Ordered, placed]
  | cons h hunks ih =>
    rw [applyHunkList]
    rcases hvalid : validateHunkCounts h with e | ⟨⟨⟩⟩
    · constructor
      · rintro ⟨i', modified', herror, -⟩
        cases herror
      · rintro ⟨hall, -⟩
        rw [hall h List.mem_cons_self] at hvalid
        cases hvalid
    · simp only
      by_cases hwithin : h.oldStart - 1 < i ∨ h.oldStart - 1 > originalLines.length
      · rw [if_pos hwithin]
        constructor
        · rintro ⟨i', modified', herror, -⟩
          cases herror
        · rintro ⟨-, hordered, hfits, -⟩
          have := hordered.1
          have := (hfits h List.mem_cons_self).1
          simp only [ParsedHunk.targetIndex] at *
          omega
      · rw [if_neg hwithin]
        by_cases holds : olds h.lines <+: originalLines.drop (h.oldStart - 1)
        · have hfits : Fits ParsedHunk.targetIndex ParsedHunk.lines originalLines h :=
            ⟨by simp only [ParsedHunk.targetIndex]; omega, holds⟩
          have hle : i ≤ h.targetIndex := by simp only [ParsedHunk.targetIndex]; omega
          rw [applyHunkLines_iff.mpr ⟨holds, rfl⟩]
          simp only [ih, Ordered, placed, List.forall_mem_cons, hvalid, hfits, hle, true_and, List.append_assoc]
          rfl
        · constructor
          · rintro ⟨i', modified', hlist, -⟩
            split at hlist
            · cases hlist
            · rename_i hlines
              exact absurd (applyHunkLines_iff.mp hlines).1 holds
          · rintro ⟨-, -, hfits, -⟩
            exact absurd (hfits h List.mem_cons_self).2 holds

/-- **Hunks with the right counts are put at their target indices.** -/
theorem applyHunks_eq_ok {original modified : String} {hunks : List ParsedHunk} :
    applyHunks original hunks = .ok modified ↔ (∀ h ∈ hunks, validateHunkCounts h = .ok ()) ∧
      ∃ new, Places ParsedHunk.targetIndex ParsedHunk.lines 0 (splitLinesPreservingEndings original) hunks new ∧
        modified = String.ofList new.flatten := by
  have hplaces := fun new => @places_iff Line ParsedHunk ParsedHunk.targetIndex ParsedHunk.lines
    (splitLinesPreservingEndings original) new 0 hunks (Nat.zero_le _)
  have hlist := fun result => @applyHunkList_iff (splitLinesPreservingEndings original) hunks 0 [] result
  simp only [List.drop_zero, List.nil_append] at hplaces hlist
  have hmiddle : applyHunks original hunks = .ok modified ↔
      ∃ result, (∃ i' modified', applyHunkList (splitLinesPreservingEndings original) 0 [] hunks = .ok (i', modified') ∧
        result = modified' ++ (splitLinesPreservingEndings original).drop i') ∧
        modified = String.ofList result.flatten := by
    rw [applyHunks]
    rcases applyHunkList (splitLinesPreservingEndings original) 0 [] hunks with e | ⟨i', modified'⟩
    · simp
    · simp only [Except.ok.injEq, Prod.mk.injEq]
      constructor
      · intro h
        exact ⟨_, ⟨i', modified', ⟨rfl, rfl⟩, rfl⟩, h.symm⟩
      · rintro ⟨result, ⟨i'', modified'', ⟨rfl, rfl⟩, rfl⟩, h⟩
        exact h.symm
  rw [hmiddle, ← exists_and_left]
  refine exists_congr fun new => ?_
  rw [hlist, hplaces, @eq_comm _ new, and_assoc, and_assoc, and_assoc]

end Apply

/-! ### Insertions before their lines -/

section Compare

variable {lines : List Line} {hunks : List ParsedHunk}

namespace ParsedHunk.WellFormed

variable {h : ParsedHunk}

theorem index_of_pos (hwell : h.WellFormed) (hpos : 0 < h.oldCount) :
    h.targetIndex = h.oldIndex ∧ h.oldStart = h.oldIndex + 1 := by
  have := hwell.start hpos
  rw [targetIndex, oldIndex, if_neg (by omega)]
  omega

theorem index_of_zero (hwell : h.WellFormed) (hzero : h.oldCount = 0) : h.oldIndex = h.oldStart ∧ olds h.lines = [] :=
  ⟨if_pos hzero, List.length_eq_zero_iff.mp (hwell.counts.1.trans hzero)⟩

theorem validate (hwell : h.WellFormed) : validateHunkCounts h = .ok () := by
  rw [validateHunkCounts, if_neg (by simp [hwell.counts])]

theorem fits_of_pos (hwell : h.WellFormed) (hpos : 0 < h.oldCount) :
    Fits targetIndex ParsedHunk.lines lines h ↔ Fits oldIndex ParsedHunk.lines lines h := by
  rw [Fits, Fits, (hwell.index_of_pos hpos).1]

theorem fits_of_zero (hwell : h.WellFormed) (hzero : h.oldCount = 0) :
    (Fits targetIndex ParsedHunk.lines lines h ↔ h.oldStart ≤ lines.length + 1) ∧
      (Fits oldIndex ParsedHunk.lines lines h ↔ h.oldStart ≤ lines.length) := by
  obtain ⟨hindex, hnil⟩ := hwell.index_of_zero hzero
  rw [Fits, Fits, hnil, hindex, targetIndex]
  exact ⟨⟨fun h => by omega, fun h => ⟨by omega, List.nil_prefix⟩⟩, fun h => h.1, fun h => ⟨h, List.nil_prefix⟩⟩

/-- What comes behind an insertion stays behind it, and does not take its line. -/
theorem behind_insertion {g : ParsedHunk} (hwell : h.WellFormed) (hg : g.WellFormed) (hzero : h.oldCount = 0)
    (hle : h.oldIndex ≤ g.oldIndex) : h.targetIndex ≤ g.targetIndex ∧ ¬ g.Covers h.oldStart := by
  have hindex := (hwell.index_of_zero hzero).1
  have htarget : h.targetIndex = h.oldStart - 1 := rfl
  rcases Nat.eq_zero_or_pos g.oldCount with hgzero | hgpos
  · have := (hg.index_of_zero hgzero).1
    rw [ParsedHunk.Covers, ParsedHunk.targetIndex, ParsedHunk.targetIndex]
    omega
  · have := hg.index_of_pos hgpos
    rw [ParsedHunk.Covers]
    omega

/-- What comes behind a hunk stays behind its lines just if it does not insert after the last of them. -/
theorem behind_lines {g : ParsedHunk} (hwell : h.WellFormed) (hg : g.WellFormed) (hpos : 0 < h.oldCount)
    (hle : h.oldIndex + h.oldCount ≤ g.oldIndex) :
    h.targetIndex + h.oldCount ≤ g.targetIndex ↔ (g.oldCount = 0 → ¬ h.Covers g.oldStart) := by
  obtain ⟨hindex, hstart⟩ := hwell.index_of_pos hpos
  rcases Nat.eq_zero_or_pos g.oldCount with hgzero | hgpos
  · have := (hg.index_of_zero hgzero).1
    rw [ParsedHunk.Covers, show g.targetIndex = g.oldStart - 1 from rfl]
    omega
  · have := hg.index_of_pos hgpos
    omega

end ParsedHunk.WellFormed

/-- With the insertions before their lines the hunks are still in order, if no line of an insertion
is taken by a hunk. -/
theorem ordered_targetIndex_iff (hwell : ∀ h ∈ hunks, h.WellFormed) {i j : Nat} (hij : j ≤ i) (hji : i ≤ j + 1)
    (hordered : Ordered ParsedHunk.oldIndex ParsedHunk.lines i hunks) :
    Ordered ParsedHunk.targetIndex ParsedHunk.lines j hunks ↔
      (∀ h ∈ hunks, j ≤ h.targetIndex) ∧
        ∀ h ∈ hunks, h.oldCount = 0 → ∀ g ∈ hunks, ¬ g.Covers h.oldStart := by
  induction hunks generalizing i j with
  | nil => simp [Ordered]
  | cons h hunks ih =>
    have hwell' := fun g hg => hwell g (List.mem_cons_of_mem h hg)
    have hh := hwell h List.mem_cons_self
    obtain ⟨hfirst, hrest⟩ := hordered
    rcases Nat.eq_zero_or_pos h.oldCount with hzero | hpos
    · obtain ⟨hindex, hnil⟩ := hh.index_of_zero hzero
      rw [hnil, List.length_nil, Nat.add_zero] at hrest
      have htarget : h.targetIndex = h.oldStart - 1 := rfl
      have hbehind (g : ParsedHunk) (hg : g ∈ hunks) := hh.behind_insertion (hwell' g hg) hzero (hrest.le g hg)
      rw [Ordered, hnil, List.length_nil, Nat.add_zero, ih hwell' (by omega) (by omega) hrest]
      have hself : ∀ n, ¬ h.Covers n := fun n hcovers => by
        have := hcovers.2
        have := hcovers.1
        omega
      constructor
      · rintro ⟨hle, hall, hfree⟩
        refine ⟨?_, ?_⟩
        · rintro g hg
          rcases List.mem_cons.mp hg with rfl | hg
          · exact hle
          · exact hle.trans (hall g hg)
        · rintro f hf hfzero g hg
          rcases List.mem_cons.mp hg with rfl | hg'
          · exact hself _
          · rcases List.mem_cons.mp hf with rfl | hf'
            · exact (hbehind g hg').2
            · exact hfree f hf' hfzero g hg'
      · rintro ⟨hall, hfree⟩
        exact ⟨hall h List.mem_cons_self, fun g hg => (hbehind g hg).1, fun f hf hfzero g hg =>
          hfree f (List.mem_cons_of_mem h hf) hfzero g (List.mem_cons_of_mem h hg)⟩
    · obtain ⟨hindex, hstart⟩ := hh.index_of_pos hpos
      rw [hh.counts.1] at hrest
      have hbehind (g : ParsedHunk) (hg : g ∈ hunks) := hh.behind_lines (hwell' g hg) hpos (hrest.le g hg)
      rw [Ordered, hh.counts.1, ih hwell' le_rfl (by omega) (hindex ▸ hrest)]
      constructor
      · rintro ⟨hle, hall, hfree⟩
        refine ⟨?_, ?_⟩
        · rintro g hg
          rcases List.mem_cons.mp hg with rfl | hg
          · exact hle
          · have := hall g hg
            omega
        · rintro f hf hfzero g hg
          rcases List.mem_cons.mp hf with rfl | hf'
          · omega
          · rcases List.mem_cons.mp hg with rfl | hg'
            · exact (hbehind f hf').mp (hall f hf') hfzero
            · exact hfree f hf' hfzero g hg'
      · rintro ⟨hall, hfree⟩
        exact ⟨hall h List.mem_cons_self,
          fun g hg => (hbehind g hg).mpr fun hgzero =>
            hfree g (List.mem_cons_of_mem h hg) hgzero h List.mem_cons_self,
          fun f hf hfzero g hg => hfree f (List.mem_cons_of_mem h hf) hfzero g (List.mem_cons_of_mem h hg)⟩

/-! ### The texts -/

theorem inserted_eq_nil {n : Nat} (h : ∀ g ∈ hunks, g.oldCount = 0 → g.oldStart ≠ n) : inserted hunks n = [] := by
  rw [inserted, List.filter_eq_nil_iff.mpr, List.flatMap_nil, List.flatten_nil]
  intro g hg
  simpa using h g hg

theorem inserted_cons {h : ParsedHunk} {n : Nat} (hne : h.oldCount = 0 → h.oldStart ≠ n) :
    inserted (h :: hunks) n = inserted hunks n := by
  rw [inserted, List.filter_cons_of_neg (by simpa using hne), inserted]

theorem inserted_cons_self {h : ParsedHunk} (hzero : h.oldCount = 0) :
    inserted (h :: hunks) h.oldStart = (news h.lines).flatten ++ inserted hunks h.oldStart := by
  rw [inserted, List.filter_cons_of_pos (by simp [hzero]), List.flatMap_cons, List.flatten_append, inserted]

/-- Nothing comes after a line that the hunks are behind. -/
theorem inserted_of_lt {n : Nat} (h : ∀ g ∈ hunks, n < g.targetIndex) : inserted hunks (n + 1) = [] := by
  refine inserted_eq_nil fun g hg _ heq => ?_
  have := h g hg
  rw [ParsedHunk.targetIndex] at this
  omega

theorem commutes_of_lt {n : Nat} (h : ∀ g ∈ hunks, n < g.targetIndex) : Commutes lines hunks n := by
  intro line _
  rw [inserted_of_lt h, List.nil_append, List.append_nil]

/-- Two texts that begin with the same two, in either order. -/
theorem append_eq_swap {line X s t : List Char} :
    line ++ (X ++ s) = X ++ (line ++ t) ↔ X ++ line = line ++ X ∧ s = t := by
  constructor
  · intro h
    rw [← List.append_assoc, ← List.append_assoc] at h
    obtain ⟨hswap, hrest⟩ := List.append_inj h (by rw [List.length_append, List.length_append, Nat.add_comm])
    exact ⟨hswap.symm, hrest⟩
  · rintro ⟨hswap, rfl⟩
    rw [← List.append_assoc, ← hswap, List.append_assoc]

/-- The text of the lines from `i` on, with every hunk at the index. -/
def textFrom (index : ParsedHunk → Nat) (lines : List Line) (i : Nat) (hunks : List ParsedHunk) : List Char :=
  (placed index ParsedHunk.lines lines i hunks).flatten

theorem textFrom_cons (index : ParsedHunk → Nat) (i : Nat) (h : ParsedHunk) :
    textFrom index lines i (h :: hunks) = ((lines.drop i).take (index h - i)).flatten ++
      ((news h.lines).flatten ++ textFrom index lines (index h + (olds h.lines).length) hunks) := by
  rw [textFrom, placed, List.flatten_append, List.flatten_append, textFrom]

theorem textFrom_of_lt {index : ParsedHunk → Nat} {i : Nat} {line : Line} (hline : lines[i]? = some line)
    (h : ∀ g ∈ hunks, i < index g) : textFrom index lines i hunks = line ++ textFrom index lines (i + 1) hunks := by
  rw [textFrom, placed_of_lt hline h, List.flatten_cons, textFrom]

/-- From a line on that nothing has come after yet. -/
def AgreesFrom (lines : List Line) (hunks : List ParsedHunk) (i : Nat) : Prop :=
  textFrom ParsedHunk.oldIndex lines i hunks = textFrom ParsedHunk.targetIndex lines i hunks ↔
    ∀ n, i ≤ n → Commutes lines hunks n

/-- With a text that comes after the line before, and has been put before it. -/
def AgreesBehind (lines : List Line) (hunks : List ParsedHunk) (i : Nat) (X : List Char) (line : Line) : Prop :=
  line ++ (X ++ textFrom ParsedHunk.oldIndex lines (i + 1) hunks) = X ++ textFrom ParsedHunk.targetIndex lines i hunks ↔
    X ++ inserted hunks (i + 1) ++ line = line ++ (X ++ inserted hunks (i + 1)) ∧ ∀ n, i < n → Commutes lines hunks n

/-- Nothing more comes after that line. -/
theorem AgreesFrom.behind {i : Nat} {X : List Char} {line : Line} (hline : lines[i]? = some line)
    (hlt : ∀ g ∈ hunks, i < g.targetIndex) (h : AgreesFrom lines hunks (i + 1)) : AgreesBehind lines hunks i X line := by
  rw [AgreesBehind, textFrom_of_lt hline hlt, append_eq_swap, inserted_of_lt hlt, List.append_nil]
  exact and_congr_right fun _ => h

section Step

variable {h : ParsedHunk} {i : Nat}

/-- A hunk with old lines is in the same place. -/
theorem AgreesFrom.cons_of_pos (hwell : h.WellFormed) (hpos : 0 < h.oldCount) (hle : i ≤ h.oldIndex)
    (hbehind : Ordered ParsedHunk.targetIndex ParsedHunk.lines (h.oldIndex + h.oldCount) hunks)
    (ih : AgreesFrom lines hunks (h.oldIndex + h.oldCount)) : AgreesFrom lines (h :: hunks) i := by
  have hcons (n : Nat) : inserted (h :: hunks) n = inserted hunks n := inserted_cons fun hzero => by omega
  rw [AgreesFrom, textFrom_cons, textFrom_cons, (hwell.index_of_pos hpos).1, List.append_cancel_left_eq,
    List.append_cancel_left_eq, hwell.counts.1, show _ = _ ↔ _ from ih]
  simp only [Commutes, hcons]
  constructor
  · intro hcommutes n _
    by_cases hn : h.oldIndex + h.oldCount ≤ n
    · exact hcommutes n hn
    · exact commutes_of_lt fun g hg => by
        have := hbehind.le g hg
        omega
  · intro hcommutes n hn
    exact hcommutes n (by omega)

/-- Before all lines there is nothing to put it before. -/
theorem AgreesFrom.cons_top (hwell : h.WellFormed) (hzero : h.oldCount = 0) (htop : h.oldStart = 0)
    (ih : AgreesFrom lines hunks 0) : AgreesFrom lines (h :: hunks) 0 := by
  have hcons (n : Nat) : inserted (h :: hunks) (n + 1) = inserted hunks (n + 1) := inserted_cons fun _ => by omega
  obtain ⟨hindex, hnil⟩ := hwell.index_of_zero hzero
  have htarget : h.targetIndex = 0 := by rw [ParsedHunk.targetIndex, htop]
  rw [AgreesFrom, textFrom_cons, textFrom_cons, hindex, htop, htarget, hnil, List.append_cancel_left_eq,
    List.append_cancel_left_eq, List.length_nil, show _ = _ ↔ _ from ih]
  simp only [Commutes, hcons]

/-- The first insertion after a line. -/
theorem AgreesFrom.cons_insertion {line : Line} {k : Nat} (hwell : h.WellFormed) (hzero : h.oldCount = 0)
    (hstart : h.oldStart = k + 1) (hle : i ≤ k) (hline : lines[k]? = some line)
    (hbehind : ∀ g ∈ hunks, k ≤ g.targetIndex)
    (ih : AgreesBehind lines hunks k (news h.lines).flatten line) : AgreesFrom lines (h :: hunks) i := by
  obtain ⟨hindex, hnil⟩ := hwell.index_of_zero hzero
  have htarget : h.targetIndex = k := by rw [ParsedHunk.targetIndex, hstart, Nat.add_sub_cancel]
  have hkept : (lines.drop i).take (k + 1 - i) = (lines.drop i).take (k - i) ++ [line] := by
    have hget : (lines.drop i)[k - i]? = some line := by
      rw [List.getElem?_drop, Nat.add_sub_cancel' hle, hline]
    rw [show k + 1 - i = k - i + 1 by omega, List.take_add_one, hget, Option.toList_some]
  rw [AgreesFrom, textFrom_cons, textFrom_cons, hindex, hstart, htarget, hnil, List.length_nil, Nat.add_zero k,
    Nat.add_zero (k + 1), hkept, List.flatten_append, List.append_assoc, List.append_cancel_left_eq, List.flatten_singleton,
    show _ = _ ↔ _ from ih]
  have hself : inserted (h :: hunks) (k + 1) = (news h.lines).flatten ++ inserted hunks (k + 1) := by
    have := @inserted_cons_self hunks h hzero
    rwa [hstart] at this
  have hother {n : Nat} (hn : n ≠ k) : inserted (h :: hunks) (n + 1) = inserted hunks (n + 1) :=
    inserted_cons fun _ => by omega
  constructor
  · rintro ⟨hswap, hcommutes⟩ n hn
    rcases lt_trichotomy n k with hlt | rfl | hgt
    · intro line' _
      rw [hother (by omega), inserted_of_lt fun g hg => by have := hbehind g hg; omega, List.nil_append,
        List.append_nil]
    · intro line' hline'
      obtain rfl := Option.some.inj (hline.symm.trans hline')
      rw [hself, hswap]
    · intro line' hline'
      rw [hother (by omega)]
      exact hcommutes n hgt line' hline'
  · intro hcommutes
    refine ⟨?_, fun n hn line' hline' => ?_⟩
    · have := hcommutes k hle line hline
      rwa [hself] at this
    · have := hcommutes n (by omega) line' hline'
      rwa [hother (by omega)] at this

/-- Another insertion after the same line. -/
theorem AgreesBehind.cons_insertion {line : Line} {X : List Char} (hwell : h.WellFormed) (hzero : h.oldCount = 0)
    (hstart : h.oldStart = i + 1) (ih : AgreesBehind lines hunks i (X ++ (news h.lines).flatten) line) :
    AgreesBehind lines (h :: hunks) i X line := by
  obtain ⟨hindex, hnil⟩ := hwell.index_of_zero hzero
  have htarget : h.targetIndex = i := by rw [ParsedHunk.targetIndex, hstart, Nat.add_sub_cancel]
  have hself : inserted (h :: hunks) (i + 1) = (news h.lines).flatten ++ inserted hunks (i + 1) := by
    have := @inserted_cons_self hunks h hzero
    rwa [hstart] at this
  rw [AgreesBehind, textFrom_cons, textFrom_cons, hindex, hstart, htarget, hnil, List.length_nil, Nat.add_zero i,
    Nat.add_zero (i + 1), Nat.sub_self, Nat.sub_self, List.take_zero, List.take_zero, List.flatten_nil, List.nil_append,
    List.nil_append, hself]
  simp only [AgreesBehind, List.append_assoc] at ih ⊢
  rw [ih]
  refine and_congr_right fun _ => forall_congr' fun n => ?_
  constructor <;> intro hcommutes hn line' hline'
  · rw [inserted_cons fun _ => by omega]
    exact hcommutes hn line' hline'
  · have := hcommutes hn line' hline'
    rwa [inserted_cons fun _ => by omega] at this

end Step

/-- **With the insertions before their lines the text is the same just if it is for each line.** -/
theorem agrees (hwell : ∀ h ∈ hunks, h.WellFormed)
    (hwithin : ∀ h ∈ hunks, h.oldCount = 0 → h.oldStart ≤ lines.length) :
    (∀ i, Ordered ParsedHunk.oldIndex ParsedHunk.lines i hunks →
        Ordered ParsedHunk.targetIndex ParsedHunk.lines i hunks → AgreesFrom lines hunks i) ∧
      ∀ i X line, lines[i]? = some line → Ordered ParsedHunk.oldIndex ParsedHunk.lines (i + 1) hunks →
        Ordered ParsedHunk.targetIndex ParsedHunk.lines i hunks → AgreesBehind lines hunks i X line := by
  induction hunks with
  | nil =>
    have hfrom (i : Nat) : AgreesFrom lines [] i := by
      rw [AgreesFrom, textFrom, textFrom, placed, placed]
      exact ⟨fun _ n _ => commutes_of_lt (by simp), fun _ => rfl⟩
    exact ⟨fun i _ _ => hfrom i, fun i X line hline _ _ => (hfrom (i + 1)).behind hline (by simp)⟩
  | cons h hunks ih =>
    have hh := hwell h List.mem_cons_self
    obtain ⟨ihFrom, ihBehind⟩ := ih (fun g hg => hwell g (List.mem_cons_of_mem h hg))
      fun g hg => hwithin g (List.mem_cons_of_mem h hg)
    have hfrom : ∀ i, Ordered ParsedHunk.oldIndex ParsedHunk.lines i (h :: hunks) →
        Ordered ParsedHunk.targetIndex ParsedHunk.lines i (h :: hunks) → AgreesFrom lines (h :: hunks) i := by
      rintro i ⟨hold, holds⟩ ⟨htarget, htargets⟩
      rw [hh.counts.1] at holds htargets
      rcases Nat.eq_zero_or_pos h.oldCount with hzero | hpos
      · obtain ⟨hindex, -⟩ := hh.index_of_zero hzero
        rw [hindex, hzero, Nat.add_zero] at holds
        rw [hzero, Nat.add_zero] at htargets
        rcases hstart : h.oldStart with _ | k
        · have hi : i = 0 := by omega
          have htop : h.targetIndex = 0 := by rw [ParsedHunk.targetIndex, hstart]
          rw [hstart] at holds
          rw [htop] at htargets
          subst hi
          exact .cons_top hh hzero hstart (ihFrom 0 holds htargets)
        · have hk : h.targetIndex = k := by rw [ParsedHunk.targetIndex, hstart, Nat.add_sub_cancel]
          have hlength := hwithin h List.mem_cons_self hzero
          have hline := List.getElem?_eq_getElem (show k < lines.length by omega)
          rw [hstart] at holds
          rw [hk] at htargets htarget
          exact .cons_insertion hh hzero hstart htarget hline htargets.le (ihBehind k _ _ hline holds htargets)
      · rw [(hh.index_of_pos hpos).1] at htargets
        exact .cons_of_pos hh hpos hold htargets (ihFrom _ holds htargets)
    refine ⟨hfrom, ?_⟩
    rintro i X line hline ⟨hold, holds⟩ htargets
    by_cases hinsertion : h.oldCount = 0 ∧ h.oldStart = i + 1
    · obtain ⟨hzero, hstart⟩ := hinsertion
      obtain ⟨hindex, hnil⟩ := hh.index_of_zero hzero
      have htarget : h.targetIndex = i := by rw [ParsedHunk.targetIndex, hstart, Nat.add_sub_cancel]
      have htargets := htargets.2
      rw [hindex, hnil, hstart, List.length_nil, Nat.add_zero] at holds
      rw [htarget, hnil, List.length_nil, Nat.add_zero] at htargets
      exact .cons_insertion hh hzero hstart (ihBehind i _ line hline holds htargets)
    · -- the line before is kept by both
      have hfirst : i < h.targetIndex := by
        rcases Nat.eq_zero_or_pos h.oldCount with hzero | hpos
        · have := (hh.index_of_zero hzero).1
          rw [ParsedHunk.targetIndex]
          omega
        · have := (hh.index_of_pos hpos).1
          omega
      have htargets' : Ordered ParsedHunk.targetIndex ParsedHunk.lines (i + 1) (h :: hunks) := ⟨hfirst, htargets.2⟩
      exact (hfrom (i + 1) ⟨hold, holds⟩ htargets').behind hline htargets'.le

/-! ### When the code says what the format says -/

theorem denotes_iff {original modified : String} : Denotes original hunks modified ↔
    Increasing hunks ∧
      (∀ h ∈ hunks, Fits ParsedHunk.oldIndex ParsedHunk.lines (splitLinesPreservingEndings original) h) ∧
      modified = String.ofList (textFrom ParsedHunk.oldIndex (splitLinesPreservingEndings original) 0 hunks) := by
  have hplaces := fun new => @places_iff Line ParsedHunk ParsedHunk.oldIndex ParsedHunk.lines
    (splitLinesPreservingEndings original) new 0 hunks (Nat.zero_le _)
  simp only [List.drop_zero] at hplaces
  simp only [Denotes, hplaces]
  constructor
  · rintro ⟨_, ⟨hordered, hfits, rfl⟩, hmodified⟩
    exact ⟨hordered, hfits, hmodified⟩
  · rintro ⟨hordered, hfits, hmodified⟩
    exact ⟨_, ⟨hordered, hfits, rfl⟩, hmodified⟩

theorem applyHunks_eq_ok_iff (hwell : ∀ h ∈ hunks, h.WellFormed) (hincreasing : Increasing hunks)
    {original modified : String} : applyHunks original hunks = .ok modified ↔
    (∀ h ∈ hunks, h.oldCount = 0 → ∀ g ∈ hunks, ¬ g.Covers h.oldStart) ∧
      (∀ h ∈ hunks, Fits ParsedHunk.targetIndex ParsedHunk.lines (splitLinesPreservingEndings original) h) ∧
      modified = String.ofList (textFrom ParsedHunk.targetIndex (splitLinesPreservingEndings original) 0 hunks) := by
  have hplaces := fun new => @places_iff Line ParsedHunk ParsedHunk.targetIndex ParsedHunk.lines
    (splitLinesPreservingEndings original) new 0 hunks (Nat.zero_le _)
  have hordered := ordered_targetIndex_iff hwell le_rfl (Nat.zero_le _) hincreasing
  simp only [List.drop_zero] at hplaces
  have hvalid : ∀ h ∈ hunks, validateHunkCounts h = .ok () := fun h hh => (hwell h hh).validate
  rw [applyHunks_eq_ok, and_iff_right hvalid]
  simp only [hplaces, hordered, Nat.zero_le, implies_true, true_and]
  constructor
  · rintro ⟨_, ⟨hfree, hfits, rfl⟩, hmodified⟩
    exact ⟨hfree, hfits, hmodified⟩
  · rintro ⟨hfree, hfits, hmodified⟩
    exact ⟨_, ⟨hfree, hfits, rfl⟩, hmodified⟩

/-- Each hunk fits in the one place just if it does in the other, but for an insertion right behind the end. -/
theorem fits_iff_of_le {h : ParsedHunk} (hwell : h.WellFormed) (hle : h.oldCount = 0 → h.oldStart ≤ lines.length) :
    Fits ParsedHunk.targetIndex ParsedHunk.lines lines h ↔ Fits ParsedHunk.oldIndex ParsedHunk.lines lines h := by
  rcases Nat.eq_zero_or_pos h.oldCount with hzero | hpos
  · have := hle hzero
    rw [(hwell.fits_of_zero hzero).1, (hwell.fits_of_zero hzero).2]
    omega
  · exact hwell.fits_of_pos hpos

theorem Unmoved.iff_denotes (hwell : ∀ h ∈ hunks, h.WellFormed) (hincreasing : Increasing hunks) {original : String}
    (h : Unmoved (splitLinesPreservingEndings original) hunks) (modified : String) :
    applyHunks original hunks = .ok modified ↔ Denotes original hunks modified := by
  have hordered : Ordered ParsedHunk.targetIndex ParsedHunk.lines 0 hunks :=
    (ordered_targetIndex_iff hwell le_rfl (Nat.zero_le _) hincreasing).mpr ⟨fun _ _ => Nat.zero_le _, h.free⟩
  have htext : textFrom ParsedHunk.oldIndex (splitLinesPreservingEndings original) 0 hunks =
      textFrom ParsedHunk.targetIndex (splitLinesPreservingEndings original) 0 hunks :=
    ((agrees hwell h.within).1 0 hincreasing hordered).mpr fun n _ => h.commutes n
  have hfits : (∀ g ∈ hunks, Fits ParsedHunk.targetIndex ParsedHunk.lines (splitLinesPreservingEndings original) g) ↔
      ∀ g ∈ hunks, Fits ParsedHunk.oldIndex ParsedHunk.lines (splitLinesPreservingEndings original) g :=
    forall₂_congr fun g hg => fits_iff_of_le (hwell g hg) (h.within g hg)
  rw [applyHunks_eq_ok_iff hwell hincreasing, denotes_iff, hfits, htext]
  exact ⟨fun ⟨_, hrest⟩ => ⟨hincreasing, hrest⟩, fun ⟨_, hrest⟩ => ⟨h.free, hrest⟩⟩

theorem Inapplicable.iff_denotes (hwell : ∀ h ∈ hunks, h.WellFormed) (hincreasing : Increasing hunks)
    {original : String} (h : Inapplicable (splitLinesPreservingEndings original) hunks) (modified : String) :
    applyHunks original hunks = .ok modified ↔ Denotes original hunks modified := by
  rw [applyHunks_eq_ok_iff hwell hincreasing, denotes_iff]
  rcases h with ⟨g, hg, hpos, hnot⟩ | ⟨g, hg, hzero, hlt⟩ | ⟨⟨g, hg, hzero, heq⟩, f, hf, hfzero, g', hg', hcovers⟩
  · constructor
    · rintro ⟨-, hfits, -⟩
      exact absurd (((hwell g hg).fits_of_pos hpos).mp (hfits g hg)) hnot
    · rintro ⟨-, hfits, -⟩
      exact absurd (hfits g hg) hnot
  · constructor
    · rintro ⟨-, hfits, -⟩
      have := ((hwell g hg).fits_of_zero hzero).1.mp (hfits g hg)
      omega
    · rintro ⟨-, hfits, -⟩
      have := ((hwell g hg).fits_of_zero hzero).2.mp (hfits g hg)
      omega
  · constructor
    · rintro ⟨hfree, -⟩
      exact absurd hcovers (hfree f hf hfzero g' hg')
    · rintro ⟨-, hfits, -⟩
      have := ((hwell g hg).fits_of_zero hzero).2.mp (hfits g hg)
      omega

/-- **The hunks of a diff are applied as the format says just if nothing is seen of an insertion
before its line,** or nothing can be applied at all. -/
theorem applyHunks_iff (hwell : ∀ h ∈ hunks, h.WellFormed) (hincreasing : Increasing hunks) {original : String} :
    (∀ modified, applyHunks original hunks = .ok modified ↔ Denotes original hunks modified) ↔
      Unmoved (splitLinesPreservingEndings original) hunks ∨
        Inapplicable (splitLinesPreservingEndings original) hunks := by
  constructor
  · intro h
    refine Classical.byContradiction fun hneither => ?_
    obtain ⟨hunmoved, happlicable⟩ := not_or.mp hneither
    simp only [Inapplicable, not_or, not_exists, not_and, not_not, not_lt] at happlicable
    obtain ⟨hmatch, hnear, hcovered⟩ := happlicable
    have hfits : ∀ g ∈ hunks, Fits ParsedHunk.targetIndex ParsedHunk.lines (splitLinesPreservingEndings original) g := by
      intro g hg
      rcases Nat.eq_zero_or_pos g.oldCount with hzero | hpos
      · exact ((hwell g hg).fits_of_zero hzero).1.mpr (hnear g hg hzero)
      · exact ((hwell g hg).fits_of_pos hpos).mpr (hmatch g hg hpos)
    -- whichever of the two makes something of the text, the other does so too
    have hwithin : ∀ g ∈ hunks, g.oldCount = 0 → g.oldStart ≤ (splitLinesPreservingEndings original).length := by
      intro g hg hzero
      by_contra hlt
      have heq : g.oldStart = (splitLinesPreservingEndings original).length + 1 := by
        have := hnear g hg hzero
        omega
      have hfree : ∀ f ∈ hunks, f.oldCount = 0 → ∀ g ∈ hunks, ¬ g.Covers f.oldStart := fun f hf hfzero g' hg' =>
        hcovered ⟨g, hg, hzero, heq⟩ f hf hfzero g' hg'
      have hdenotes := (h _).mp ((applyHunks_eq_ok_iff hwell hincreasing).mpr ⟨hfree, hfits, rfl⟩)
      exact hlt (((hwell g hg).fits_of_zero hzero).2.mp ((denotes_iff.mp hdenotes).2.1 g hg))
    have hfits' : ∀ g ∈ hunks, Fits ParsedHunk.oldIndex ParsedHunk.lines (splitLinesPreservingEndings original) g :=
      fun g hg => (fits_iff_of_le (hwell g hg) (hwithin g hg)).mp (hfits g hg)
    obtain ⟨hfree, -, htext⟩ := (applyHunks_eq_ok_iff hwell hincreasing).mp
      ((h _).mpr (denotes_iff.mpr ⟨hincreasing, hfits', rfl⟩))
    refine hunmoved ⟨hwithin, hfree, fun n => ?_⟩
    have hordered : Ordered ParsedHunk.targetIndex ParsedHunk.lines 0 hunks :=
      (ordered_targetIndex_iff hwell le_rfl (Nat.zero_le _) hincreasing).mpr ⟨fun _ _ => Nat.zero_le _, hfree⟩
    exact ((agrees hwell hwithin).1 0 hincreasing hordered).mp (String.ofList_injective htext) n (Nat.zero_le n)
  · rintro (h | h) modified
    · exact h.iff_denotes hwell hincreasing modified
    · exact h.iff_denotes hwell hincreasing modified

/-- Nothing is moved where lines are added alone only at the top. -/
theorem unmoved_of_top (hwell : ∀ h ∈ hunks, h.WellFormed) (htop : ∀ h ∈ hunks, h.oldCount = 0 → h.oldStart = 0) :
    Unmoved lines hunks where
  within h hh hzero := by
    rw [htop h hh hzero]
    exact Nat.zero_le _
  free h hh hzero g hg hcovers := by
    obtain ⟨hle, hlt⟩ := hcovers
    rw [htop h hh hzero] at hle hlt
    have := (hwell g hg).start
    omega
  commutes n line _ := by
    rw [inserted_eq_nil fun h hh hzero heq => by have := htop h hh hzero; omega, List.nil_append, List.append_nil]

end Compare

def ParsedHunk.sampleTop : ParsedHunk := ⟨0, 0, 1, [.add "x\n".toList]⟩

def ParsedHunk.sampleReplace : ParsedHunk := ⟨2, 1, 1, [.remove "b\n".toList, .add "c\n".toList]⟩

theorem applyHunks_top_replace :
    applyHunks "a\nb\n" [.sampleTop, .sampleReplace] = .ok "x\na\nc\n" ∧
      ∀ modified, applyHunks "a\nb\n" [.sampleTop, .sampleReplace] = .ok modified ↔
        Denotes "a\nb\n" [.sampleTop, .sampleReplace] modified := by
  have hwell : ∀ h ∈ [ParsedHunk.sampleTop, ParsedHunk.sampleReplace], h.WellFormed := by
    simp only [List.mem_cons, List.not_mem_nil, or_false]
    rintro h (rfl | rfl)
    · exact ⟨by decide, by decide⟩
    · exact ⟨by decide, by decide⟩
  refine ⟨by decide +kernel, (applyHunks_iff hwell ⟨by decide, by decide, trivial⟩).mpr (Or.inl ?_)⟩
  refine unmoved_of_top hwell ?_
  simp only [List.mem_cons, List.not_mem_nil, or_false]
  rintro h (rfl | rfl) hzero
  · rfl
  · cases hzero

def ParsedHunk.sampleInsertion : ParsedHunk := ⟨1, 0, 1, [.add "x\n".toList]⟩

/-- **A line to be put after the first one is put before it.** -/
theorem applyHunks_insertion :
    ParsedHunk.sampleInsertion.WellFormed ∧ Increasing [.sampleInsertion] ∧
      Denotes "a\nb\n" [.sampleInsertion] "a\nx\nb\n" ∧
      applyHunks "a\nb\n" [.sampleInsertion] = .ok "x\na\nb\n" ∧
      ¬ ∀ modified, applyHunks "a\nb\n" [.sampleInsertion] = .ok modified ↔
        Denotes "a\nb\n" [.sampleInsertion] modified := by
  have hdenotes : Denotes "a\nb\n" [.sampleInsertion] "a\nx\nb\n" := by
    refine ⟨["a\n".toList, "x\n".toList, "b\n".toList], ?_, by decide +kernel⟩
    exact @Places.hunk Line _ ParsedHunk.oldIndex ParsedHunk.lines 0 ["a\n".toList] .sampleInsertion [] _ _ rfl
      (.rest 1 ["b\n".toList])
  have hcode : applyHunks "a\nb\n" [.sampleInsertion] = .ok "x\na\nb\n" := by decide +kernel
  refine ⟨⟨by decide, by decide⟩, ⟨by decide, trivial⟩, hdenotes, hcode, fun h => ?_⟩
  have := hcode.symm.trans ((h _).mpr hdenotes)
  exact absurd this (by decide)

end Nerve.Patch
