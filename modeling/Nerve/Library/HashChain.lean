import Mathlib.Data.List.Chain
import Mathlib.Data.List.Infix
import Mathlib.Tactic.Common

/-!
# Hash chains

A chain of records in which each record carries the digest of the one before
it. Going back along two chains from one record, the digests force the records: as long as
no two records have one digest, a chain that ends in a record of another chain is the end of
what precedes that record there (`Linked.suffix`). Where the other chain starts
with a record that carries no digest, nothing can be in front of its first record.
-/

namespace Nerve.HashChain

variable {γ δ : Type*} (back : γ → Option δ) (digest : γ → δ)

/-- Each record carries the digest of the one before it. -/
def Linked (l : List γ) : Prop := l.IsChain fun x y => back y = some (digest x)

/-- The first record carries no digest. -/
def Rooted (l : List γ) : Prop := ∀ x ∈ l.head?, back x = none

variable {back digest}

@[simp] theorem linked_nil : Linked back digest [] := List.IsChain.nil

theorem linked_concat {l : List γ} {x : γ} :
    Linked back digest (l ++ [x]) ↔ Linked back digest l ∧ ∀ y ∈ l.getLast?, back x = some (digest y) := by
  simp [Linked, List.isChain_append]

theorem Linked.of_append_left {l l' : List γ} (h : Linked back digest (l ++ l')) : Linked back digest l :=
  List.IsChain.left_of_append h

theorem Linked.of_append_right {l l' : List γ} (h : Linked back digest (l ++ l')) : Linked back digest l' :=
  List.IsChain.right_of_append h

/-- A rooted chain that is extended: the new record carries the digest of the
last one, or nothing if there is none. -/
theorem linked_rooted_concat {l : List γ} {x : γ} :
    Linked back digest (l ++ [x]) ∧ Rooted back (l ++ [x]) ↔
      (Linked back digest l ∧ Rooted back l) ∧ back x = l.getLast?.map digest := by
  rw [linked_concat]
  rcases l.eq_nil_or_concat with rfl | ⟨l, y, rfl⟩
  · simp [Rooted]
  · simp [Rooted, and_left_comm, and_comm]

/-- In a rooted chain only the first record carries no digest. -/
theorem Linked.back_ne_none {l l' : List γ} {x : γ} (h : Linked back digest (l ++ x :: l')) (hl : l ≠ []) :
    back x ≠ none := by
  obtain ⟨y, hy⟩ := Option.ne_none_iff_exists'.mp (mt List.getLast?_eq_none_iff.mp hl)
  have hprefix : Linked back digest ((l ++ [x]) ++ l') := by simpa using h
  have := (linked_concat.mp hprefix.of_append_left).2 y hy
  rw [this]
  exact Option.some_ne_none _

/-- **Going back from one record**: a chain is the end of any rooted chain with the same last record. -/
theorem Linked.suffix {a g : List γ} (ha : Linked back digest a) (hg : Linked back digest g) (hroot : Rooted back g)
    (hinj : ∀ x ∈ a, ∀ y ∈ g, digest x = digest y → x = y) (hlast : a.getLast? = g.getLast?) : a <:+ g := by
  induction a using List.reverseRecOn generalizing g with
  | nil => exact List.nil_suffix
  | append_singleton a x ih =>
    -- both end in `x`
    obtain ⟨g, rfl⟩ : ∃ g', g = g' ++ [x] := by
      rcases g.eq_nil_or_concat with rfl | ⟨g', y, rfl⟩
      · simp at hlast
      · simp only [List.getLast?_concat, List.concat_eq_append, Option.some.injEq] at hlast
        exact ⟨g', by rw [hlast, List.concat_eq_append]⟩
    obtain ⟨ha, hax⟩ := linked_concat.mp ha
    obtain ⟨⟨hg, hroot⟩, hgx⟩ := linked_rooted_concat.mp ⟨hg, hroot⟩
    rw [List.suffix_append_self_iff]
    rcases hla : a.getLast? with _ | y
    · rw [List.getLast?_eq_none_iff.mp hla]
      exact List.nil_suffix
    · -- what `x` carries is the digest of the record before it in either chain
      have hy := hax y hla
      rw [hgx] at hy
      obtain ⟨z, hz, hdig⟩ := Option.map_eq_some_iff.mp hy
      have hyz : y = z := hinj y (List.mem_append_left _ (List.mem_of_getLast? hla)) z
        (List.mem_append_left _ (List.mem_of_getLast? hz)) hdig.symm
      refine ih ha hg hroot (fun u hu v hv => hinj u (List.mem_append_left _ hu) v (List.mem_append_left _ hv)) ?_
      rw [hla, hz, hyz]

end Nerve.HashChain
