import Mathlib.Data.List.Nodup
import Mathlib.Logic.Function.Basic
import Mathlib.Tactic.Common

/-!
# Forests that grow

A forest whose nodes have names: a node knows its parent and its children, and carries a payload.
The two directions of the same relation are kept apart, as a program keeps them, and
`Sound` says that they agree, that no child is listed twice and that every chain of parents ends at a
root. A forest grows by a new root (`plant`) or a new child (`graft`). Both keep it sound, and nothing that
was there changes, except that a node may have more children (`Extends`).
-/

namespace Nerve

universe u v

structure Forest.Node (ν : Type u) (β : Type v) where
  parent : Option ν
  children : List ν
  payload : β

abbrev Forest (ν : Type u) (β : Type v) := ν → Option (Forest.Node ν β)

namespace Forest

variable {ν : Type u} {β : Type v}

/-- The chain of parents of the node ends at a root. `parent` gives each node that is there its
parent, if it has one. -/
inductive Rooted (parent : ν → Option (Option ν)) : ν → Prop
  | root {a : ν} (h : parent a = some none) : Rooted parent a
  | child {a b : ν} (h : parent a = some (some b)) (hb : Rooted parent b) : Rooted parent a

theorem Rooted.mono {parent parent' : ν → Option (Option ν)} (hsub : ∀ a b, parent a = some b → parent' a = some b)
    {a : ν} (h : Rooted parent a) : Rooted parent' a := by
  induction h with
  | root h => exact .root (hsub _ _ h)
  | child h _ ih => exact .child (hsub _ _ h) ih

/-- Every node on the chain is there. -/
theorem Rooted.ne_none {parent : ν → Option (Option ν)} {a : ν} (h : Rooted parent a) : parent a ≠ none := by
  cases h with
  | root h | child h _ => rw [h]; nofun

/-- No node on it is its own parent. -/
theorem Rooted.parent_ne {parent : ν → Option (Option ν)} {a : ν} (h : Rooted parent a) : parent a ≠ some (some a) := by
  induction h with
  | root h => rw [h]; nofun
  | @child a b h _ ih =>
    intro hself
    rw [h] at hself
    obtain rfl : b = a := by simpa using hself
    exact ih h

def parents (F : Forest ν β) (a : ν) : Option (Option ν) := (F a).map Node.parent

structure Sound (F : Forest ν β) : Prop where
  nodup : ∀ a n, F a = some n → n.children.Nodup
  children : ∀ a n, F a = some n → ∀ b, b ∈ n.children ↔ F.parents b = some (some a)
  rooted : ∀ a, F a ≠ none → Rooted F.parents a

/-- The second forest has all of the first, with more children perhaps. -/
def Extends (F F' : Forest ν β) : Prop :=
  ∀ a n, F a = some n → ∃ n', F' a = some n' ∧ n'.parent = n.parent ∧ n'.payload = n.payload ∧ n.children <+: n'.children

variable {F F' : Forest ν β} {a b p : ν} {n : Node ν β} {x : β}

theorem Extends.refl (F : Forest ν β) : Extends F F := fun _ n h => ⟨n, h, rfl, rfl, List.prefix_rfl⟩

theorem Extends.parents (h : Extends F F') (b : Option ν) (ha : F.parents a = some b) : F'.parents a = some b := by
  obtain ⟨n, hn, rfl⟩ := Option.map_eq_some_iff.mp ha
  obtain ⟨n', hn', hparent, -⟩ := h a n hn
  rw [Forest.parents, hn', Option.map_some, hparent]

/-- Nobody's parent is a node that is not there. -/
theorem Sound.parents_ne (h : Sound F) (hnew : F a = none) (b : ν) : F.parents b ≠ some (some a) := by
  intro hb
  have hthere : F b ≠ none := fun hnone => by simp [Forest.parents, hnone] at hb
  cases h.rooted b hthere with
  | root hroot =>
    rw [hb] at hroot
    cases hroot
  | child hchild ha =>
    rw [hb] at hchild
    cases hchild
    exact ha.ne_none (by rw [Forest.parents, hnew, Option.map_none])

theorem ne_of_new (hp : F p = some n) (hnew : F a = none) : p ≠ a := by
  rintro rfl
  rw [hp] at hnew
  cases hnew

section Growth

variable [DecidableEq ν]

/-- A new root. -/
def plant (F : Forest ν β) (a : ν) (x : β) : Forest ν β := Function.update F a (some ⟨none, [], x⟩)

/-- A new child `a` of the node `n` at `p`. -/
def graft (F : Forest ν β) (p : ν) (n : Node ν β) (a : ν) (x : β) : Forest ν β :=
  Function.update (Function.update F p (some { n with children := n.children ++ [a] })) a (some ⟨some p, [], x⟩)

theorem plant_self : F.plant a x a = some ⟨none, [], x⟩ := Function.update_self a _ F

theorem plant_of_ne (h : b ≠ a) : F.plant a x b = F b := Function.update_of_ne h _ F

theorem graft_self : F.graft p n a x a = some ⟨some p, [], x⟩ := Function.update_self a _ _

theorem graft_parent (h : p ≠ a) : F.graft p n a x p = some { n with children := n.children ++ [a] } := by
  rw [graft, Function.update_of_ne h, Function.update_self]

theorem graft_of_ne (ha : b ≠ a) (hp : b ≠ p) : F.graft p n a x b = F b := by
  rw [graft, Function.update_of_ne ha, Function.update_of_ne hp]

theorem extends_plant (hnew : F a = none) : Extends F (F.plant a x) := by
  intro b m hb
  exact ⟨m, by rw [plant_of_ne (ne_of_new hb hnew), hb], rfl, rfl, List.prefix_rfl⟩

theorem extends_graft (hp : F p = some n) (hnew : F a = none) : Extends F (F.graft p n a x) := by
  intro b m hb
  by_cases hbp : b = p
  · subst hbp
    rw [hp] at hb
    cases hb
    exact ⟨_, graft_parent (ne_of_new hp hnew), rfl, rfl, List.prefix_append _ _⟩
  · exact ⟨m, by rw [graft_of_ne (ne_of_new hb hnew) hbp, hb], rfl, rfl, List.prefix_rfl⟩

theorem parents_plant (b : ν) : (F.plant a x).parents b = if b = a then some none else F.parents b := by
  rw [parents]
  split_ifs with h
  · rw [h, plant_self, Option.map_some]
  · rw [plant_of_ne h, parents]

theorem parents_graft (hp : F p = some n) (hnew : F a = none) (b : ν) :
    (F.graft p n a x).parents b = if b = a then some (some p) else F.parents b := by
  rw [parents]
  split_ifs with h
  · rw [h, graft_self, Option.map_some]
  · by_cases hbp : b = p
    · rw [hbp, graft_parent (ne_of_new hp hnew), parents, hp]
      rfl
    · rw [graft_of_ne h hbp, parents]

/-- **A new root keeps the forest sound.** -/
theorem Sound.plant (h : Sound F) (hnew : F a = none) : Sound (F.plant a x) := by
  constructor
  · intro b m hb
    by_cases hba : b = a
    · rw [hba, plant_self] at hb
      cases hb
      exact List.nodup_nil
    · rw [plant_of_ne hba] at hb
      exact h.nodup b m hb
  · intro b m hb c
    rw [parents_plant]
    by_cases hba : b = a
    · subst hba
      rw [plant_self] at hb
      cases hb
      refine iff_of_false List.not_mem_nil ?_
      split_ifs
      · nofun
      · exact h.parents_ne hnew c
    · rw [plant_of_ne hba] at hb
      rw [h.children b m hb c]
      split_ifs with hc
      · refine iff_of_false ?_ nofun
        rw [hc, Forest.parents, hnew]
        nofun
      · rfl
  · intro b hb
    by_cases hba : b = a
    · exact .root (by rw [parents_plant, if_pos hba])
    · rw [plant_of_ne hba] at hb
      exact (h.rooted b hb).mono fun _ _ => (extends_plant hnew).parents _

/-- **So does a new child.** -/
theorem Sound.graft (h : Sound F) (hp : F p = some n) (hnew : F a = none) : Sound (F.graft p n a x) := by
  have hfresh : a ∉ n.children := by
    rw [h.children p n hp, Forest.parents, hnew]
    nofun
  have hold {b : ν} (hb : F b ≠ none) : Rooted (F.graft p n a x).parents b :=
    (h.rooted b hb).mono fun _ _ => (extends_graft hp hnew).parents _
  constructor
  · intro b m hb
    by_cases hba : b = a
    · rw [hba, graft_self] at hb
      cases hb
      exact List.nodup_nil
    by_cases hbp : b = p
    · rw [hbp, graft_parent (ne_of_new hp hnew)] at hb
      cases hb
      exact (List.nodup_append.mpr ⟨h.nodup p n hp, List.nodup_singleton a, by
        rintro c hc d hd rfl
        exact hfresh (List.mem_singleton.mp hd ▸ hc)⟩)
    · rw [graft_of_ne hba hbp] at hb
      exact h.nodup b m hb
  · intro b m hb c
    rw [parents_graft hp hnew]
    by_cases hba : b = a
    · subst hba
      rw [graft_self] at hb
      cases hb
      refine iff_of_false List.not_mem_nil ?_
      split_ifs
      · simpa using ne_of_new hp hnew
      · exact h.parents_ne hnew c
    by_cases hbp : b = p
    · rw [hbp, graft_parent (ne_of_new hp hnew)] at hb
      cases hb
      rw [hbp, List.mem_append, List.mem_singleton, h.children p n hp c]
      split_ifs with hc
      · exact iff_of_true (Or.inr hc) rfl
      · exact or_iff_left hc
    · rw [graft_of_ne hba hbp] at hb
      rw [h.children b m hb c]
      split_ifs with hc
      · refine iff_of_false ?_ ?_
        · rw [hc, Forest.parents, hnew]
          nofun
        · simpa using Ne.symm hbp
      · rfl
  · intro b hb
    by_cases hba : b = a
    · subst hba
      refine .child (by rw [parents_graft hp hnew, if_pos rfl]) (hold ?_)
      rw [hp]
      nofun
    · refine hold fun hnone => hb ?_
      by_cases hbp : b = p
      · rw [hbp, hp] at hnone
        cases hnone
      · rw [graft_of_ne hba hbp, hnone]

end Growth

end Forest

end Nerve
