import Nerve.Library.FileTree
import Mathlib.Data.List.Forall2

/-!
# One run after another

Two lists of effects, each of which runs from the same tree, and the second, or a part of it, to be
run where the first has ended. `Independent` effects, neither of which writes at or below the
location of the other, do not stop each other. `run_beside` says what such a run leaves if whatever
is left out of the second list is at locations of the first: there the first list decides, and
everywhere else the second.

What is written does not matter to whether a run succeeds, only where it is written
(`run_of_sameShape`).
-/

namespace Nerve.FileTree

variable {ν β : Type*}

/-- Neither effect writes at or below the location of the other. -/
def Effect.Independent (c d : Effect ν β) : Prop :=
  (c.content.isSome → ¬ d.loc <+: c.loc) ∧ (d.content.isSome → ¬ c.loc <+: d.loc)

instance [DecidableEq ν] (c d : Effect ν β) : Decidable (c.Independent d) := inferInstanceAs (Decidable (_ ∧ _))

/-- Both write, or both clear, the same location. -/
def Effect.SameShape (c d : Effect ν β) : Prop := c.loc = d.loc ∧ c.content.isSome = d.content.isSome

namespace Effect

variable {c c' d : Effect ν β}

/-- At one location, both clear it. -/
theorem Independent.content_eq_none (h : c.Independent d) (hloc : c.loc = d.loc) :
    c.content = none ∧ d.content = none :=
  ⟨Option.not_isSome_iff_eq_none.mp fun hc => h.1 hc (hloc ▸ List.prefix_rfl),
    Option.not_isSome_iff_eq_none.mp fun hd => h.2 hd (hloc ▸ List.prefix_rfl)⟩

theorem Independent.of_sameShape (h : c.Independent d) (hc : c.SameShape c') : c'.Independent d := by
  rw [Independent, ← hc.1, ← hc.2]
  exact h

theorem SameShape.refl (c : Effect ν β) : c.SameShape c := ⟨rfl, rfl⟩

end Effect

variable [DecidableEq ν]

/-! ### Shapes -/

section Shape

variable {E E' : List (Effect ν β)}

omit [DecidableEq ν] in
theorem Tree.clash_congr {s s' : Tree ν β} {c c' : Effect ν β} (hdirs : ∀ u, s'.isDir u = s.isDir u)
    (hfiles : ∀ u, (s'.file u).isSome = (s.file u).isSome) (hc : c.SameShape c') : s'.Clash c' ↔ s.Clash c := by
  simp only [Clash, blocked_iff, hdirs, hfiles, ← hc.1, ← hc.2]

/-- Whether a run succeeds is a matter of its shape. -/
theorem Tree.run_of_sameShape {s s' s₁ : Tree ν β} (hE : List.Forall₂ Effect.SameShape E E')
    (hdirs : ∀ u, s'.isDir u = s.isDir u) (hfiles : ∀ u, (s'.file u).isSome = (s.file u).isSome)
    (h : s.run E = (.ok (), s₁)) : ∃ s₁', s'.run E' = (.ok (), s₁') := by
  induction hE generalizing s s' with
  | nil => exact ⟨s', rfl⟩
  | @cons c c' E E' hc _ ih =>
    simp only [run_cons] at h ⊢
    split at h
    · cases h
    next s₂ h₂ =>
      obtain ⟨hclash, hfile₂, hdir₂⟩ := exec_ok h₂
      obtain ⟨s₂', h₂'⟩ := exec_of_not_clash (mt (clash_congr hdirs hfiles hc).mp hclash)
      obtain ⟨-, hfile₂', hdir₂'⟩ := exec_ok h₂'
      rw [h₂']
      refine ih (fun u => ?_) (fun u => ?_) h
      · rw [Bool.eq_iff_iff, hdir₂, hdir₂', hdirs, hc.1, hc.2]
      · rw [hfile₂, hfile₂', ← hc.1]
        by_cases hu : u = c.loc
        · rw [hu, Function.update_self, Function.update_self, hc.2]
        · rw [Function.update_of_ne hu, Function.update_of_ne hu, hfiles]

/-- Effects that differ only elsewhere leave the same at a location. -/
theorem overlay_congr_at {q : Loc ν} (hE : List.Forall₂ (fun c c' => c = c' ∨ c.loc ≠ q ∧ c'.loc ≠ q) E E')
    {s s' : Loc ν → Option β} (hs : s q = s' q) : overlay s E q = overlay s' E' q := by
  induction hE generalizing s s' with
  | nil => exact hs
  | cons hc _ ih =>
    rw [overlay_cons, overlay_cons]
    refine ih ?_
    obtain rfl | ⟨hc, hc'⟩ := hc
    · simp only [Function.update_apply, hs]
    · rw [Function.update_of_ne hc.symm, Function.update_of_ne hc'.symm, hs]

/-- A location that is only ever cleared is empty. -/
theorem overlay_eq_none {s : Loc ν → Option β} {q : Loc ν} (h : ∃ c ∈ E, c.loc = q)
    (hclear : ∀ c ∈ E, c.loc = q → c.content = none) : overlay s E q = none := by
  induction E generalizing s with
  | nil => simp at h
  | cons c E ih =>
    rw [overlay_cons]
    by_cases hE : ∃ c ∈ E, c.loc = q
    · exact ih hE fun c' hc' => hclear c' (List.mem_cons_of_mem _ hc')
    · have hne : ∀ c' ∈ E, c'.loc ≠ q := fun c' hc' he => hE ⟨c', hc', he⟩
      obtain ⟨c', hc', rfl⟩ := h
      rcases List.mem_cons.mp hc' with rfl | hc'
      · rw [overlay_of_forall_ne hne, Function.update_self]
        exact hclear c' (List.mem_cons_self ..) rfl
      · exact absurd rfl (hne c' hc')

end Shape

/-! ### Beside another run -/

section Beside

variable {t t₁ s s' s₁ : Tree ν β} {L : List (Effect ν β)}

/-- `s'` is as the tree `t₁`, in which `L` has ended, at the locations of `L`, and as `s` at all others. -/
structure Beside (t₁ : Tree ν β) (L : List (Effect ν β)) (s s' : Tree ν β) : Prop where
  named : ∀ q, (∃ c ∈ L, c.loc = q) → s'.file q = t₁.file q
  other : ∀ q, (¬ ∃ c ∈ L, c.loc = q) → s'.file q = s.file q
  dirs : ∀ u, s'.isDir u = true → s.isDir u = true ∨ Lands L u

theorem beside_run (h : t.run L = (.ok (), t₁)) : Beside t₁ L t t₁ where
  named _ _ := rfl
  other q hq := by
    rw [(Tree.run_ok h).1]
    exact overlay_of_forall_ne fun c hc hloc => hq ⟨c, hc, hloc⟩
  dirs u := ((Tree.run_ok h).2 u).mp

/-- An effect independent of `L` can be done in both. -/
theorem Beside.exec (hL : t.run L = (.ok (), t₁)) (h : Beside t₁ L s s') {d : Effect ν β}
    (hd : ∀ c ∈ L, c.Independent d) (hs : s.exec d = .ok s₁) : ∃ s₁', s'.exec d = .ok s₁' ∧ Beside t₁ L s₁ s₁' := by
  obtain ⟨hclash, hfile, hdir⟩ := Tree.exec_ok hs
  have hclash' : ¬ s'.Clash d := by
    rintro (hdir' | ⟨hwrite, hblocked⟩)
    · obtain hdir | ⟨c, hc, hwrite, habove⟩ := h.dirs _ hdir'
      · exact hclash (Or.inl hdir)
      · exact (hd c hc).1 hwrite habove.1
    · obtain ⟨u, habove, hu⟩ := Tree.blocked_iff.mp hblocked
      by_cases hL : ∃ c ∈ L, c.loc = u
      · obtain ⟨c, hc, rfl⟩ := hL
        exact (hd c hc).2 hwrite habove.1
      · rw [h.other u hL] at hu
        exact hclash (Or.inr ⟨hwrite, Tree.blocked_iff.mpr ⟨u, habove, hu⟩⟩)
  obtain ⟨s₁', hs'⟩ := Tree.exec_of_not_clash hclash'
  obtain ⟨-, hfile', hdir'⟩ := Tree.exec_ok hs'
  refine ⟨s₁', hs', fun q hq => ?_, fun q hq => ?_, fun u hu => ?_⟩
  · rw [hfile']
    by_cases hloc : q = d.loc
    · -- what both name, both only clear
      have hclear : ∀ c ∈ L, c.loc = q → c.content = none := fun c hc hcq =>
        ((hd c hc).content_eq_none (hcq.trans hloc)).1
      obtain ⟨c, hc, hcq⟩ := hq
      rw [hloc, Function.update_self, ((hd c hc).content_eq_none (hcq.trans hloc)).2, ← hloc, (Tree.run_ok hL).1,
        overlay_eq_none ⟨c, hc, hcq⟩ hclear]
    · rw [Function.update_of_ne hloc, h.named q hq]
  · rw [hfile', hfile]
    simp only [Function.update_apply, h.other q hq]
  · rw [hdir]
    rcases (hdir' u).mp hu with hu | hu
    · exact (h.dirs u hu).imp_left Or.inl
    · exact Or.inl (Or.inr hu)

theorem Beside.run (hL : t.run L = (.ok (), t₁)) (h : Beside t₁ L s s') {D : List (Effect ν β)}
    (hD : ∀ d ∈ D, ∀ c ∈ L, c.Independent d) (hs : s.run D = (.ok (), s₁)) :
    ∃ s₁', s'.run D = (.ok (), s₁') ∧ Beside t₁ L s₁ s₁' := by
  induction D generalizing s s' with
  | nil =>
    cases hs
    exact ⟨s', rfl, h⟩
  | cons d D ih =>
    simp only [Tree.run_cons] at hs ⊢
    split at hs
    · cases hs
    next s₂ h₂ =>
      obtain ⟨s₂', h₂', hbeside⟩ := h.exec hL (hD d (List.mem_cons_self ..)) h₂
      rw [h₂']
      exact ih hbeside (fun d' hd' => hD d' (List.mem_cons_of_mem _ hd')) hs

/-- Effects at locations of `L` can be left out. -/
theorem Beside.leave (h : Beside t₁ L s s') {D : List (Effect ν β)} (hD : ∀ d ∈ D, ∃ c ∈ L, c.loc = d.loc)
    (hs : s.run D = (.ok (), s₁)) : Beside t₁ L s₁ s' where
  named := h.named
  other q hq := by
    rw [h.other q hq, (Tree.run_ok hs).1, overlay_of_forall_ne]
    rintro d hd rfl
    exact hq (hD d hd)
  dirs u hu := (h.dirs u hu).imp_left fun hu => Tree.isDir_run hs hu

/-- **A part of a run after another.** Of the second run are kept the blocks whose effects are independent of the
first run's; the others are at locations of the first. -/
theorem Tree.run_beside {α : Type*} {f : α → List (Effect ν β)} (keep : α → Bool) {xs : List α} {t₂ : Tree ν β}
    (hL : t.run L = (.ok (), t₁)) (hR : t.run (xs.flatMap f) = (.ok (), t₂))
    (hkept : ∀ x ∈ xs, keep x = true → ∀ d ∈ f x, ∀ c ∈ L, c.Independent d)
    (hleft : ∀ x ∈ xs, keep x = false → ∀ d ∈ f x, ∃ c ∈ L, c.loc = d.loc) :
    ∃ t', t₁.run ((xs.filter keep).flatMap f) = (.ok (), t') ∧ Beside t₁ L t₂ t' := by
  have hblocks : ∀ {s s'}, Beside t₁ L s s' → s.run (xs.flatMap f) = (.ok (), t₂) →
      ∃ t', s'.run ((xs.filter keep).flatMap f) = (.ok (), t') ∧ Beside t₁ L t₂ t' := by
    clear hR
    induction xs with
    | nil =>
      intro s s' h hs
      cases hs
      exact ⟨s', rfl, h⟩
    | cons x xs ih =>
      intro s s' h hs
      have ih := @ih (fun y hy => hkept y (List.mem_cons_of_mem _ hy)) fun y hy => hleft y (List.mem_cons_of_mem _ hy)
      rw [List.flatMap_cons] at hs
      obtain ⟨s₁, h₁, hs⟩ := inOrder_append_ok hs
      rcases hx : keep x with _ | _
      · rw [List.filter_cons_of_neg (by simp [hx])]
        exact ih (h.leave (hleft x (List.mem_cons_self ..) hx) h₁) hs
      · obtain ⟨s₁', h₁', hbeside⟩ := h.run hL (hkept x (List.mem_cons_self ..) hx) h₁
        rw [List.filter_cons_of_pos hx, List.flatMap_cons, Tree.run_append h₁']
        exact ih hbeside hs
  exact hblocks (beside_run hL) hR

end Beside

end Nerve.FileTree
