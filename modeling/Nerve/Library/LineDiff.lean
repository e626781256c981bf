import Mathlib.Data.List.Basic
import Mathlib.Data.List.Forall2
import Mathlib.Tactic.Common

/-!
# Line diffs

A diff of two lists of lines, as hunks: each keeps, adds and removes lines from a position
of the old list on, and what no hunk covers is kept. `Diffs` relates a
list of hunks to the two lists it leads between; nothing is said of how the hunks were
found, or that there are as few as there could be. `replaceAll` is the crudest diff there
is.
-/

namespace Nerve.LineDiff

universe u

variable {α : Type u}

inductive HunkLine (α : Type u) where
  | context (line : α)
  | add (line : α)
  | remove (line : α)
  deriving DecidableEq, Repr

namespace HunkLine

def line : HunkLine α → α
  | context a | add a | remove a => a

/-- The line as part of the old list. -/
def old? : HunkLine α → Option α
  | context a | remove a => some a
  | add _ => none

/-- The line as part of the new list. -/
def new? : HunkLine α → Option α
  | context a | add a => some a
  | remove _ => none

end HunkLine

/-- The old lines that a hunk covers. -/
def olds (lines : List (HunkLine α)) : List α := lines.filterMap HunkLine.old?

/-- The new lines it puts in their place. -/
def news (lines : List (HunkLine α)) : List α := lines.filterMap HunkLine.new?

section Covered

variable (a : α) (lines : List (HunkLine α))

@[simp] theorem olds_nil : olds ([] : List (HunkLine α)) = [] := rfl
@[simp] theorem news_nil : news ([] : List (HunkLine α)) = [] := rfl
@[simp] theorem olds_context : olds (.context a :: lines) = a :: olds lines := rfl
@[simp] theorem olds_remove : olds (.remove a :: lines) = a :: olds lines := rfl
@[simp] theorem olds_add : olds (.add a :: lines) = olds lines := rfl
@[simp] theorem news_context : news (.context a :: lines) = a :: news lines := rfl
@[simp] theorem news_remove : news (.remove a :: lines) = news lines := rfl
@[simp] theorem news_add : news (.add a :: lines) = a :: news lines := rfl

theorem olds_append (lines' : List (HunkLine α)) : olds (lines ++ lines') = olds lines ++ olds lines' :=
  List.filterMap_append

theorem news_append (lines' : List (HunkLine α)) : news (lines ++ lines') = news lines ++ news lines' :=
  List.filterMap_append

/-- A line is in the old list or in the new one. -/
theorem olds_or_news_pos (l : HunkLine α) : 0 < (olds (l :: lines)).length ∨ 0 < (news (l :: lines)).length := by
  cases l <;> simp

end Covered

/-! ### Lines against lines -/

section Rel

variable {β : Type u} {r : α → β → Prop}

/-- The two are kept, added or removed alike. -/
inductive HunkLine.Rel (r : α → β → Prop) : HunkLine α → HunkLine β → Prop
  | context {a : α} {b : β} (h : r a b) : Rel r (.context a) (.context b)
  | add {a : α} {b : β} (h : r a b) : Rel r (.add a) (.add b)
  | remove {a : α} {b : β} (h : r a b) : Rel r (.remove a) (.remove b)

variable {lines : List (HunkLine α)} {lines' : List (HunkLine β)}

theorem forall₂_olds (h : List.Forall₂ (HunkLine.Rel r) lines lines') : List.Forall₂ r (olds lines) (olds lines') := by
  induction h with
  | nil => exact .nil
  | cons hl _ ih =>
    cases hl with
    | context hab | remove hab => exact .cons hab ih
    | add hab => exact ih

theorem forall₂_news (h : List.Forall₂ (HunkLine.Rel r) lines lines') : List.Forall₂ r (news lines) (news lines') := by
  induction h with
  | nil => exact .nil
  | cons hl _ ih =>
    cases hl with
    | context hab | add hab => exact .cons hab ih
    | remove hab => exact ih

/-- What differs in a line differs in the old lines or in the new ones. -/
theorem eq_of_olds_news {r : α → α → Prop} {lines lines' : List (HunkLine α)}
    (h : List.Forall₂ (HunkLine.Rel r) lines lines') (holds : olds lines = olds lines')
    (hnews : news lines = news lines') : lines = lines' := by
  induction h with
  | nil => rfl
  | cons hl _ ih =>
    cases hl with
    | context hab =>
      obtain ⟨rfl, holds'⟩ := List.cons.inj holds
      rw [ih holds' (List.cons.inj hnews).2]
    | add hab =>
      obtain ⟨rfl, hnews'⟩ := List.cons.inj hnews
      rw [ih holds hnews']
    | remove hab =>
      obtain ⟨rfl, holds'⟩ := List.cons.inj holds
      rw [ih holds' hnews]

end Rel

/-- A hunk: how many lines come before it in the old list and in the new one, and its lines. -/
structure Hunk (α : Type u) where
  oldIndex : Nat
  newIndex : Nat
  lines : List (HunkLine α)
  deriving DecidableEq, Repr

/-- The hunks lead from `old` to `new`, of which so many lines are behind already. -/
inductive Diffs : (oldIndex newIndex : Nat) → (old : List α) → List (Hunk α) → (new : List α) → Prop
  /-- What is left is kept. -/
  | rest (i j : Nat) (kept : List α) : Diffs i j kept [] kept
  /-- Some lines are kept, then comes a hunk. -/
  | hunk {i j : Nat} (kept : List α) {h : Hunk α} {hunks : List (Hunk α)} {old new : List α}
    (hold : h.oldIndex = i + kept.length) (hnew : h.newIndex = j + kept.length)
    (hrest : Diffs (h.oldIndex + (olds h.lines).length) (h.newIndex + (news h.lines).length) old hunks new) :
    Diffs i j (kept ++ (olds h.lines ++ old)) (h :: hunks) (kept ++ (news h.lines ++ new))

/-- The hunks lie within the two lists. -/
theorem Diffs.bounds {i j : Nat} {old new : List α} {hunks : List (Hunk α)} (h : Diffs i j old hunks new) :
    ∀ hunk ∈ hunks, hunk.oldIndex + (olds hunk.lines).length ≤ i + old.length ∧
      hunk.newIndex + (news hunk.lines).length ≤ j + new.length := by
  induction h with
  | rest => simp
  | hunk kept hold hnew hrest ih =>
    simp only [List.length_append]
    rintro hunk hhunk
    rcases List.mem_cons.mp hhunk with rfl | hhunk
    · omega
    · have := ih hunk hhunk
      omega

/-- Every line of a hunk is one of the old lines or of the new ones. -/
theorem Diffs.line_mem {i j : Nat} {old new : List α} {hunks : List (Hunk α)} (h : Diffs i j old hunks new) :
    ∀ hunk ∈ hunks, ∀ l ∈ hunk.lines, l.line ∈ old ∨ l.line ∈ new := by
  induction h with
  | rest => simp
  | @hunk i j kept first hunks old new hold hnew hrest ih =>
    rintro hunk hhunk l hl
    rcases List.mem_cons.mp hhunk with rfl | hhunk
    · cases l with
      | context a | remove a =>
        have ha : a ∈ olds hunk.lines := List.mem_filterMap.mpr ⟨_, hl, rfl⟩
        exact Or.inl (List.mem_append_right kept (List.mem_append_left old ha))
      | add a =>
        have ha : a ∈ news hunk.lines := List.mem_filterMap.mpr ⟨_, hl, rfl⟩
        exact Or.inr (List.mem_append_right kept (List.mem_append_left new ha))
    · rcases ih hunk hhunk l hl with h | h
      · exact Or.inl (List.mem_append_right kept (List.mem_append_right _ h))
      · exact Or.inr (List.mem_append_right kept (List.mem_append_right _ h))

/-- Without hunks nothing is changed. -/
theorem Diffs.eq_of_nil {i j : Nat} {old new : List α} (h : Diffs i j old [] new) : old = new := by
  cases h
  rfl

/-- Every old line is removed, every new one added. -/
def replaceAll (old new : List α) : List (Hunk α) := [⟨0, 0, old.map .remove ++ new.map .add⟩]

theorem olds_replaceAll (old new : List α) : olds (old.map .remove ++ new.map .add) = old := by
  induction old with
  | nil =>
    induction new with
    | nil => rfl
    | cons a new ih => exact ih
  | cons a old ih => exact congrArg (a :: ·) ih

theorem news_replaceAll (old new : List α) : news (old.map .remove ++ new.map .add) = new := by
  induction old with
  | nil =>
    induction new with
    | nil => rfl
    | cons a new ih => exact congrArg (a :: ·) ih
  | cons a old ih => exact ih

theorem diffs_replaceAll (old new : List α) : Diffs 0 0 old (replaceAll old new) new := by
  have h := Diffs.hunk [] (h := ⟨0, 0, old.map .remove ++ new.map .add⟩) rfl rfl (.rest _ _ [])
  rwa [olds_replaceAll, news_replaceAll, List.nil_append, List.nil_append, List.append_nil, List.append_nil] at h

/-! ### Hunks in their places -/

section Place

universe v

variable {H : Type v} (index : H → Nat) (lines : H → List (HunkLine α))

/-- The hunks, each with so many lines before it, lead from `old` to a new list, where so many lines
are behind. -/
inductive Places : Nat → List α → List H → List α → Prop
  /-- What is left is kept. -/
  | rest (i : Nat) (kept : List α) : Places i kept [] kept
  /-- Some lines are kept, then comes a hunk. -/
  | hunk {i : Nat} (kept : List α) {h : H} {hunks : List H} {old new : List α} (hindex : index h = i + kept.length)
    (hrest : Places (index h + (olds (lines h)).length) old hunks new) :
    Places i (kept ++ (olds (lines h) ++ old)) (h :: hunks) (kept ++ (news (lines h) ++ new))

/-- Each hunk begins where the one before it ends, or after that. -/
def Ordered : Nat → List H → Prop
  | _, [] => True
  | i, h :: hunks => i ≤ index h ∧ Ordered (index h + (olds (lines h)).length) hunks

/-- The old lines of the hunk stand in its place. -/
def Fits (old : List α) (h : H) : Prop := index h ≤ old.length ∧ olds (lines h) <+: old.drop (index h)

/-- The old lines from `i` on, with the hunks in their places. -/
def placed (old : List α) : Nat → List H → List α
  | i, [] => old.drop i
  | i, h :: hunks =>
    (old.drop i).take (index h - i) ++ (news (lines h) ++ placed old (index h + (olds (lines h)).length) hunks)

variable {index lines}

theorem Ordered.le {i : Nat} {hunks : List H} (h : Ordered index lines i hunks) : ∀ hunk ∈ hunks, i ≤ index hunk := by
  induction hunks generalizing i with
  | nil => simp
  | cons first hunks ih =>
    rintro hunk hhunk
    rcases List.mem_cons.mp hhunk with rfl | hhunk
    · exact h.1
    · have := ih h.2 hunk hhunk
      have := h.1
      omega

theorem drop_of_drop_eq {old kept rest : List α} {i : Nat} (h : old.drop i = kept ++ rest) :
    old.drop (i + kept.length) = rest := by
  rw [← List.drop_drop, h, List.drop_left]

theorem length_of_drop_eq {old rest : List α} {i : Nat} (hi : i ≤ old.length) (h : old.drop i = rest) :
    old.length = i + rest.length := by
  rw [← h, List.length_drop]
  omega

/-- **Hunks lead to a new list just if they are in order and fit,** and then it is the one with all
in their places. -/
theorem places_iff {old new : List α} {i : Nat} {hunks : List H} (hi : i ≤ old.length) :
    Places index lines i (old.drop i) hunks new ↔
      Ordered index lines i hunks ∧ (∀ h ∈ hunks, Fits index lines old h) ∧ placed index lines old i hunks = new := by
  constructor
  · intro h
    generalize hdrop : old.drop i = rest at h
    induction h with
    | rest i kept => exact ⟨trivial, by simp, hdrop⟩
    | @hunk i kept h hunks rest new hindex hrest ih =>
      have hrest := drop_of_drop_eq hdrop
      rw [← hindex] at hrest
      have hlength := length_of_drop_eq hi hdrop
      simp only [List.length_append] at hlength
      obtain ⟨hordered, hfits, hplaced⟩ := ih (by omega) (drop_of_drop_eq hrest)
      refine ⟨⟨by omega, hordered⟩, ?_, ?_⟩
      · rintro hunk hhunk
        rcases List.mem_cons.mp hhunk with rfl | hhunk
        · exact ⟨by omega, hrest ▸ List.prefix_append _ _⟩
        · exact hfits hunk hhunk
      · rw [placed, hplaced, hdrop, hindex, Nat.add_sub_cancel_left, List.take_left]
  · rintro ⟨hordered, hfits, rfl⟩
    induction hunks generalizing i with
    | nil => exact .rest i _
    | cons h hunks ih =>
      obtain ⟨hwithin, rest, hrest⟩ := hfits h List.mem_cons_self
      have hlength := length_of_drop_eq hwithin hrest.symm
      simp only [List.length_append] at hlength
      have hold : old.drop i = (old.drop i).take (index h - i) ++ (olds (lines h) ++ rest) := by
        have hdrop : (old.drop i).drop (index h - i) = old.drop (index h) := by
          rw [List.drop_drop, Nat.add_sub_cancel' hordered.1]
        rw [hrest, ← hdrop, List.take_append_drop]
      have hkept : ((old.drop i).take (index h - i)).length = index h - i := by
        rw [List.length_take, List.length_drop]
        omega
      have hplaces := ih (by omega) hordered.2 fun hunk hhunk => hfits hunk (List.mem_cons_of_mem _ hhunk)
      rw [drop_of_drop_eq hrest.symm] at hplaces
      rw [hold, placed]
      exact .hunk _ (by have := hordered.1; omega) hplaces

/-- A line that the next hunk is behind of is kept. -/
theorem placed_of_lt {old : List α} {i : Nat} {a : α} {hunks : List H} (ha : old[i]? = some a)
    (h : ∀ hunk ∈ hunks, i < index hunk) : placed index lines old i hunks = a :: placed index lines old (i + 1) hunks := by
  obtain ⟨hi, rfl⟩ := List.getElem?_eq_some_iff.mp ha
  cases hunks with
  | nil => rw [placed, placed, List.drop_eq_getElem_cons hi]
  | cons hunk hunks =>
    have hsub : index hunk - i = (index hunk - (i + 1)) + 1 := by
      have := h hunk List.mem_cons_self
      omega
    rw [placed, placed, List.drop_eq_getElem_cons hi, hsub, List.take_succ_cons, List.cons_append]

end Place

end Nerve.LineDiff
