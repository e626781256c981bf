import Nerve.Run.Gate
import Nerve.Run.MergeFold
import Nerve.Library.TreeMerge
import Nerve.Patch.Atomic
import Nerve.Patch.Rollback

/-!
# Two patches made one

`mergeAttempt_keepsBoth` says that the patch `merge_attempt` makes of two applies and keeps both sides
(`KeepsBoth`), if each patch applies on its own, each has one entry for a path, and where their paths
differ they are `Apart`: they do not write at or below each other's files. A rename names two files
and is matched by one of them, so this is not checked.

An exit status of `git merge-file` up to 127 is taken for success, and so is a merge with conflicts: a
run does with it what it does with a clean one (`runSynapticLoop_unseen`). What goes wrong without
all this is in `conflict_applied`.
-/

namespace Nerve.Run

open Nerve Nerve.Patch Nerve.FileTree Dialogue

/-! ### Entries that do not meet -/

/-- Entries of the two with different paths do nothing to each other's files. -/
def Apart (lead reviewer : NvPatch) : Prop :=
  ∀ f ∈ lead.files, ∀ g ∈ reviewer.files, f.path.same g.path = false →
    ∀ c ∈ f.effects, ∀ d ∈ g.effects, c.Independent d

instance (lead reviewer : NvPatch) : Decidable (Apart lead reviewer) := inferInstanceAs (Decidable (∀ f ∈ _, _))

/-! ### What the merged patch leaves -/

theorem effects_of_writes {f : FilePatch} (h : f.operation = .modify ∨ f.operation = .create) :
    f.effects = [.write f.path.loc f.modified.toByteArray] := by
  rcases h with h | h <;> simp only [FilePatch.effects, h]

theorem writes_of_same {f g : FilePatch} (h : f.operation.same g.operation = true)
    (hwrites : f.operation = .modify ∨ f.operation = .create) : g.operation = .modify ∨ g.operation = .create := by
  rcases hwrites with hf | hf <;> rw [hf] at h
  · exact Or.inl (beq_iff_eq.mp h).symm
  · exact Or.inr (beq_iff_eq.mp h).symm

namespace Fused

variable {X : Externals} {es : Trace} {folded : List FilePatch} {f f' : FilePatch}

theorem locs (h : Fused X es folded f f') : f'.locs = f.locs := by
  cases h <;> rfl

theorem sameShape (h : Fused X es folded f f') : List.Forall₂ Effect.SameShape f.effects f'.effects := by
  cases h with
  | kept => exact List.forall₂_same.mpr fun c _ => .refl c
  | merged hg hpath hoperation hwrites htext =>
    rw [effects_of_writes hwrites, effects_of_writes (f := .withOperation _ _ _ _ _) hwrites]
    exact .cons ⟨rfl, rfl⟩ .nil

theorem exists_sameShape (h : Fused X es folded f f') {c' : Effect String ByteArray} (hc' : c' ∈ f'.effects) :
    ∃ c ∈ f.effects, c.SameShape c' := by
  cases h with
  | kept => exact ⟨c', hc', .refl c'⟩
  | merged hg hpath hoperation hwrites htext =>
    rw [effects_of_writes (f := .withOperation _ _ _ _ _) hwrites, List.mem_singleton] at hc'
    rw [effects_of_writes hwrites, hc']
    exact ⟨_, List.mem_singleton_self _, rfl, rfl⟩

/-- Where the reviewer does nothing, the entry does what it did. -/
theorem effects_elsewhere (h : Fused X es folded f f') {q : Loc String} (hq : ∀ g ∈ folded, q ∉ g.locs) :
    List.Forall₂ (fun c c' => c = c' ∨ c.loc ≠ q ∧ c'.loc ≠ q) f.effects f'.effects := by
  cases h with
  | kept => exact List.forall₂_same.mpr fun c _ => Or.inl rfl
  | @merged g text hg hpath hoperation hwrites htext =>
    have hne : f.path.loc ≠ q := by
      rintro rfl
      exact hq g hg (FilePatch.mem_locs_iff.mpr (Or.inl (loc_eq_of_same hpath)))
    rw [effects_of_writes hwrites, effects_of_writes (f := .withOperation _ _ _ _ _) hwrites]
    exact .cons (Or.inr ⟨hne, hne⟩) .nil

/-- The merged entry is valid where the lead's is. -/
theorem validate (h : Fused X es folded f f') {t : FsTree} (hhash : f.originalSha256 = X.sha256Hex f.original)
    (hv : f.validate X.sha256Hex t false = .ok ()) : f'.validate X.sha256Hex t false = .ok () := by
  cases h with
  | kept => exact hv
  | merged hg hpath hoperation hwrites htext =>
    obtain ⟨hsafe, hstate, current, hread, hcurrent⟩ := FilePatch.validate_eq_ok.mp hv
    rw [if_neg Bool.false_ne_true, hhash] at hcurrent
    exact FilePatch.validate_eq_ok.mpr ⟨hsafe, hstate, current, hread, by rwa [if_neg Bool.false_ne_true]⟩

/-- The merged entry has the lead's paths. -/
theorem plain (h : Fused X es folded f f') (hplain : f.Plain) : f'.Plain := by
  cases h with
  | kept => exact hplain
  | merged => exact hplain

/-- At a common path the entries are equal, or they are two modifications or two creations, merged. -/
theorem meet {g : FilePatch} (h : Fused X es folded f f') (hfolded : OnePerPath folded) (hg : g ∈ folded)
    (hpath : f.path.same g.path = true) :
    f.effects = g.effects ∧ f' = f ∨
      (f.operation = .modify ∨ f.operation = .create) ∧ (g.operation = .modify ∨ g.operation = .create) ∧
        ∃ text, GitMerged es f.original f.modified g.modified text ∧
          f' = .withOperation X.sha256Hex f.path f.operation f.original text := by
  cases h with
  | kept hkept => exact Or.inl ⟨effects_eq_of_same (hkept g hg hpath), rfl⟩
  | @merged g' text hg' hpath' hoperation hwrites htext =>
    rw [same_iff] at hpath hpath'
    obtain rfl := hfolded.eq hg' hg (same_iff.mpr (hpath'.symm.trans hpath))
    exact Or.inr ⟨hwrites, writes_of_same hoperation hwrites, text, htext, rfl⟩

end Fused

namespace FusedFiles

variable {X : Externals} {es : Trace} {lead reviewer files : List FilePatch}

theorem exists_of_mem (h : FusedFiles X es lead reviewer files) {f' : FilePatch} (hf' : f' ∈ files.take lead.length) :
    ∃ f ∈ lead, Fused X es reviewer f f' := by
  obtain ⟨i, hi⟩ := List.mem_iff_getElem?.mp hf'
  obtain ⟨hlt, -⟩ := List.getElem?_eq_some_iff.mp hi
  rw [List.length_take] at hlt
  have hlead := List.getElem?_eq_getElem (hlt.trans_le (Nat.min_le_left _ _))
  rw [List.getElem?_take_of_lt (hlt.trans_le (Nat.min_le_left _ _))] at hi
  exact ⟨_, List.mem_of_getElem? hlead, h.entries i _ f' hlead hi⟩

theorem forall₂ (h : FusedFiles X es lead reviewer files) :
    List.Forall₂ (Fused X es reviewer) lead (files.take lead.length) := by
  refine List.forall₂_iff_get.mpr ⟨by rw [List.length_take, Nat.min_eq_left h.length], fun i hi hi' => ?_⟩
  refine h.entries i _ _ (List.getElem?_eq_getElem hi) ?_
  rw [List.get_eq_getElem, List.getElem_take]
  exact List.getElem?_eq_getElem (hi.trans_le h.length)

theorem exists_fused (h : FusedFiles X es lead reviewer files) {f : FilePatch} (hf : f ∈ lead) :
    ∃ f' ∈ files.take lead.length, Fused X es reviewer f f' := by
  obtain ⟨i, hi⟩ := List.mem_iff_getElem?.mp hf
  have hlt := (List.getElem?_eq_some_iff.mp hi).1
  have hfile := List.getElem?_eq_getElem (hlt.trans_le h.length)
  refine ⟨_, List.mem_of_getElem? (i := i) ?_, h.entries i f _ hi hfile⟩
  rw [List.getElem?_take_of_lt hlt, hfile]

end FusedFiles

/-- The tree holds at a file that one patch alone names what this patch alone leaves there. At a file that both
name, it holds what each alone leaves there, or what `git merge-file` made of their two texts. -/
structure KeepsBoth (es : Trace) (lead reviewer : NvPatch) (tL tR t' : FsTree) : Prop where
  lead_only : ∀ q ∉ reviewer.locs, t'.file q = tL.file q
  reviewer_only : ∀ q ∉ lead.locs, t'.file q = tR.file q
  both : ∀ q ∈ lead.locs, q ∈ reviewer.locs → t'.file q = tL.file q ∧ t'.file q = tR.file q ∨
    ∃ f ∈ lead.files, ∃ g ∈ reviewer.files, f.path.loc = q ∧ g.path.loc = q ∧
      ∃ text, GitMerged es f.original f.modified g.modified text ∧ t'.file q = some text.toByteArray

section Keeps

variable {X : Externals} {es : Trace} {lead reviewer p : NvPatch}

/-- What two entries of different paths both name, both patches only remove. -/
theorem cleared_of_apart (hreviewer : OnePerPath reviewer.files) (hapart : Apart lead reviewer)
    (h : FusedFiles X es lead.files reviewer.files p.files) {f g : FilePatch} (hf : f ∈ lead.files)
    (hg : g ∈ reviewer.files) (hne : f.path.same g.path = false) {q : Loc String} (hqf : q ∈ f.locs)
    (hqg : q ∈ g.locs) :
    (∀ f₁ ∈ lead.files, ∀ c ∈ f₁.effects, c.loc = q → c.content = none) ∧
      ∀ g₁ ∈ reviewer.files, ∀ d ∈ g₁.effects, d.loc = q → d.content = none := by
  obtain ⟨c₀, hc₀, hloc₀⟩ := FilePatch.exists_effect hqf
  obtain ⟨d₀, hd₀, hloc₀'⟩ := FilePatch.exists_effect hqg
  -- an entry that writes at `q` is not the one or the other
  have hclear := (hapart f hf g hg hne c₀ hc₀ d₀ hd₀).content_eq_none (hloc₀.trans hloc₀'.symm)
  constructor
  · intro f₁ hf₁ c hc hloc
    rcases hpath : f₁.path.same g.path with _ | _
    · exact ((hapart f₁ hf₁ g hg hpath c hc d₀ hd₀).content_eq_none (hloc.trans hloc₀'.symm)).1
    · obtain ⟨f₁', -, hfused⟩ := h.exists_fused hf₁
      obtain ⟨heffects, -⟩ | ⟨-, hwrites, -⟩ := hfused.meet hreviewer hg hpath
      · rw [heffects] at hc
        exact ((hapart f hf g hg hne c₀ hc₀ c hc).content_eq_none (hloc₀.trans hloc.symm)).2
      · rw [effects_of_writes hwrites, List.mem_singleton] at hd₀
        rw [hd₀] at hclear
        cases hclear.2
  · intro g₁ hg₁ d hd hloc
    rcases hpath : f.path.same g₁.path with _ | _
    · exact ((hapart f hf g₁ hg₁ hpath c₀ hc₀ d hd).content_eq_none (hloc₀.trans hloc.symm)).2
    · obtain ⟨f', -, hfused⟩ := h.exists_fused hf
      obtain ⟨heffects, -⟩ | ⟨hwrites, -⟩ := hfused.meet hreviewer hg₁ hpath
      · rw [← heffects] at hd
        exact ((hapart f hf g hg hne d hd d₀ hd₀).content_eq_none (hloc.trans hloc₀'.symm)).1
      · rw [effects_of_writes hwrites, List.mem_singleton] at hc₀
        rw [hc₀] at hclear
        cases hclear.1

/-- What the lead's part of the merged patch does. -/
def leadPart (lead p : NvPatch) : List (Effect String ByteArray) :=
  (p.files.take lead.files.length).flatMap FilePatch.effects

theorem mem_locs_iff_leadPart (h : FusedFiles X es lead.files reviewer.files p.files) {q : Loc String} :
    q ∈ lead.locs ↔ ∃ c ∈ leadPart lead p, c.loc = q := by
  rw [NvPatch.mem_locs_iff]
  constructor
  · rintro ⟨f, hf, hq⟩
    obtain ⟨f', hf', hfused⟩ := h.exists_fused hf
    obtain ⟨c, hc, hloc⟩ := FilePatch.exists_effect (hfused.locs ▸ hq)
    exact ⟨c, List.mem_flatMap.mpr ⟨f', hf', hc⟩, hloc⟩
  · rintro ⟨c, hc, rfl⟩
    obtain ⟨f', hf', hc⟩ := List.mem_flatMap.mp hc
    obtain ⟨f, hf, hfused⟩ := h.exists_of_mem hf'
    exact ⟨f, hf, hfused.locs ▸ FilePatch.loc_mem_of_mem_effects hc⟩

variable {t tL tR tF t' : FsTree}

/-- **The merged patch runs**, the lead's part of it and then beside it what is left of the reviewer's. -/
theorem run_fused (hreviewer : OnePerPath reviewer.files) (hapart : Apart lead reviewer)
    (h : FusedFiles X es lead.files reviewer.files p.files) (hL : t.run lead.effects = (.ok (), tL))
    (hR : t.run reviewer.effects = (.ok (), tR)) :
    ∃ tF t', t.run (leadPart lead p) = (.ok (), tF) ∧ t.run p.effects = (.ok (), t') ∧
      Beside tF (leadPart lead p) tR t' := by
  have hshape : List.Forall₂ Effect.SameShape lead.effects (leadPart lead p) :=
    List.rel_flatMap h.forall₂ fun _ _ hfused => hfused.sameShape
  obtain ⟨tF, hF⟩ := Tree.run_of_sameShape hshape (fun _ => rfl) (fun _ => rfl) hL
  obtain ⟨t', ht', hbeside⟩ := Tree.run_beside (fun g => !lead.files.any fun f => f.path.same g.path) hF hR
    (fun g hg hkeep d hd c hc => by
      obtain ⟨f', hf', hc⟩ := List.mem_flatMap.mp hc
      obtain ⟨f, hf, hfused⟩ := h.exists_of_mem hf'
      obtain ⟨c₀, hc₀, hshape⟩ := hfused.exists_sameShape hc
      rw [Bool.not_eq_true', List.any_eq_false] at hkeep
      exact (hapart f hf g hg (Bool.eq_false_iff.mpr (hkeep f hf)) c₀ hc₀ d hd).of_sameShape hshape)
    fun g hg hleft d hd => by
      rw [Bool.not_eq_false', List.any_eq_true] at hleft
      obtain ⟨f, hf, hpath⟩ := hleft
      obtain ⟨f', hf', hfused⟩ := h.exists_fused hf
      have hmem (c : Effect String ByteArray) (hc : c ∈ f'.effects) : c ∈ leadPart lead p :=
        List.mem_flatMap.mpr ⟨f', hf', hc⟩
      obtain ⟨heffects, rfl⟩ | ⟨hwrites, hwrites', text, -, rfl⟩ := hfused.meet hreviewer hg hpath
      · exact ⟨d, hmem d (heffects ▸ hd), rfl⟩
      · rw [effects_of_writes hwrites', List.mem_singleton] at hd
        rw [hd]
        refine ⟨.write f.path.loc text.toByteArray, hmem _ ?_, loc_eq_of_same hpath⟩
        rw [effects_of_writes (f := .withOperation _ _ _ _ _) hwrites]
        exact List.mem_singleton_self _
  refine ⟨tF, t', hF, ?_, hbeside⟩
  rw [NvPatch.effects, ← List.take_append_drop lead.files.length p.files, List.flatMap_append, h.rest]
  exact Tree.run_append hF ▸ ht'

theorem after_eq_none {f : FilePatch} {q : Loc String} (h : ∀ c ∈ f.effects, c.loc = q → c.content = none) :
    f.after q = none := by
  by_cases hq : ∃ c ∈ f.effects, c.loc = q
  · exact overlay_eq_none hq h
  · exact overlay_of_forall_ne fun c hc hloc => hq ⟨c, hc, hloc⟩

/-- At a file that both name. -/
theorem both_of_fused (hlead : OnePerPath lead.files) (hreviewer : OnePerPath reviewer.files)
    (hapart : Apart lead reviewer) (h : FusedFiles X es lead.files reviewer.files p.files)
    (s : Loc String → Option ByteArray) {q : Loc String} (hqL : q ∈ lead.locs) (hqR : q ∈ reviewer.locs) :
    overlay s (leadPart lead p) q = overlay s lead.effects q ∧
        overlay s (leadPart lead p) q = overlay s reviewer.effects q ∨
      ∃ f ∈ lead.files, ∃ g ∈ reviewer.files, f.path.loc = q ∧ g.path.loc = q ∧
        ∃ text, GitMerged es f.original f.modified g.modified text ∧
          overlay s (leadPart lead p) q = some text.toByteArray := by
  -- in each list the last entry to name the file decides
  obtain ⟨pre, f, post, hfiles, hqf, hpost⟩ := NvPatch.exists_last_entry hqL
  obtain ⟨pre', g, post', hfiles', hqg, hpost'⟩ := NvPatch.exists_last_entry hqR
  obtain ⟨f₀, hf₀, hqf₀⟩ := NvPatch.mem_locs_iff.mp hqL
  obtain ⟨f₀', hf₀', hfused₀⟩ := h.exists_fused hf₀
  obtain ⟨pre'', f₁', post'', hfiles'', hqf₁, hpost''⟩ :=
    exists_last (P := fun f => q ∈ f.locs) ⟨f₀', hf₀', hfused₀.locs ▸ hqf₀⟩
  have hf : f ∈ lead.files := by simp [hfiles]
  have hg : g ∈ reviewer.files := by simp [hfiles']
  obtain ⟨f₁, hf₁, hfused⟩ := h.exists_of_mem (show f₁' ∈ p.files.take lead.files.length by simp [hfiles''])
  rw [NvPatch.overlay_effects s hfiles hqf hpost, NvPatch.overlay_effects s hfiles' hqg hpost', leadPart, hfiles'',
    overlay_flatMap_last s (fun _ => none) (fun _ _ => FilePatch.loc_mem_of_mem_effects) (FilePatch.exists_effect hqf₁)
      hpost'', ← FilePatch.after]
  rw [hfused.locs] at hqf₁
  by_cases hpaths : f₁.path.same g.path = true ∧ f.path.same g.path = true
  · obtain ⟨hpath₁, hpath⟩ := hpaths
    obtain rfl : f₁ = f := by
      rw [same_iff] at hpath₁ hpath
      exact hlead.eq hf₁ hf (same_iff.mpr (hpath₁.trans hpath.symm))
    obtain ⟨heffects, rfl⟩ | ⟨hwrites, hwrites', text, htext, rfl⟩ := hfused.meet hreviewer hg hpath
    · exact Or.inl ⟨rfl, by rw [FilePatch.after, FilePatch.after, heffects]⟩
    · obtain ⟨c, hc, hloc⟩ := FilePatch.exists_effect hqf
      obtain ⟨d, hd, hloc'⟩ := FilePatch.exists_effect hqg
      rw [effects_of_writes hwrites, List.mem_singleton] at hc
      rw [effects_of_writes hwrites', List.mem_singleton] at hd
      subst hc hd hloc
      refine Or.inr ⟨f₁, hf, g, hg, rfl, hloc', text, htext, ?_⟩
      rw [FilePatch.after, effects_of_writes (f := .withOperation _ _ _ _ _) hwrites, overlay_cons, overlay_nil]
      exact Function.update_self f₁.path.loc _ _
  · obtain ⟨hclearL, hclearR⟩ : (∀ f₁ ∈ lead.files, ∀ c ∈ f₁.effects, c.loc = q → c.content = none) ∧
        ∀ g₁ ∈ reviewer.files, ∀ d ∈ g₁.effects, d.loc = q → d.content = none := by
      rcases not_and_or.mp hpaths with hne | hne
      · exact cleared_of_apart hreviewer hapart h hf₁ hg (Bool.eq_false_iff.mpr hne) hqf₁ hqg
      · exact cleared_of_apart hreviewer hapart h hf hg (Bool.eq_false_iff.mpr hne) hqf hqg
    have hclear : f₁'.after q = none := by
      refine after_eq_none fun c hc hloc => ?_
      obtain ⟨c₀, hc₀, hshape⟩ := hfused.exists_sameShape hc
      have hnone := hclearL f₁ hf₁ c₀ hc₀ (hshape.1.trans hloc)
      rw [← Option.not_isSome_iff_eq_none, ← hshape.2, hnone]
      exact Bool.false_ne_true
    rw [hclear, after_eq_none (hclearL f hf), after_eq_none (hclearR g hg)]
    exact Or.inl ⟨rfl, rfl⟩

/-- **Both sides are kept.** -/
theorem keepsBoth_of_fused (hlead : OnePerPath lead.files) (hreviewer : OnePerPath reviewer.files)
    (hapart : Apart lead reviewer) (h : FusedFiles X es lead.files reviewer.files p.files)
    (hL : t.run lead.effects = (.ok (), tL)) (hR : t.run reviewer.effects = (.ok (), tR))
    (hF : t.run (leadPart lead p) = (.ok (), tF)) (hbeside : Beside tF (leadPart lead p) tR t') :
    KeepsBoth es lead reviewer tL tR t' := by
  have hfileL := (Tree.run_ok hL).1
  have hfileR := (Tree.run_ok hR).1
  have hfileF := (Tree.run_ok hF).1
  have helsewhere {r : NvPatch} {q : Loc String} (hq : q ∉ r.locs) : overlay t.file r.effects q = t.file q :=
    overlay_of_forall_ne fun c hc hloc => hq (hloc ▸ NvPatch.loc_mem_of_mem_effects hc)
  refine ⟨fun q hq => ?_, fun q hq => hbeside.other q (mt (mem_locs_iff_leadPart h).mpr hq), fun q hqL hqR => ?_⟩
  · by_cases hqL : q ∈ lead.locs
    · have hsame : List.Forall₂ (fun c c' => c = c' ∨ c.loc ≠ q ∧ c'.loc ≠ q) lead.effects (leadPart lead p) :=
        List.rel_flatMap h.forall₂ fun _ _ hfused => hfused.effects_elsewhere fun g hg hqg =>
          hq (NvPatch.mem_locs_iff.mpr ⟨g, hg, hqg⟩)
      rw [hbeside.named q ((mem_locs_iff_leadPart h).mp hqL), hfileF, hfileL, overlay_congr_at hsame rfl]
    · rw [hbeside.other q (mt (mem_locs_iff_leadPart h).mpr hqL), hfileR, hfileL, helsewhere hq, helsewhere hqL]
  · rw [hbeside.named q ((mem_locs_iff_leadPart h).mp hqL), hfileF, hfileL, hfileR]
    exact both_of_fused hlead hreviewer hapart h t.file hqL hqR

end Keeps

/-! ### A run does not see conflicts -/

/-- The answer, with the conflicts that `git merge-file` reports left out of its exit status. -/
def withoutConflicts : (q : Question) → q.Answer → q.Answer
  | .gitMergeFile _ _ _, .ok ⟨.exited code, stdout, stderr⟩ =>
    .ok ⟨.exited (if code < 128 then 0 else code), stdout, stderr⟩
  | _, answer => answer

theorem withoutConflicts_eq {q : Question} (h : q.stage ≠ .merge) (answer : q.Answer) :
    withoutConflicts q answer = answer := by
  cases q <;> first | rfl | exact absurd rfl h

theorem unseen_of_asks {α : Type} {d : RunM α} (h : d.Asks fun q => q.stage ≠ .merge) : d.Blind withoutConflicts :=
  (h.mono fun _ hq => withoutConflicts_eq hq).blind

theorem InStage.unseen {α : Type} {stage : Stage} {d : RunM α} (h : InStage stage d) (hstage : stage ≠ .merge) :
    d.Blind withoutConflicts :=
  unseen_of_asks (h.ne hstage)

theorem gitMergeFile_unseen (base lead reviewer : String) :
    (gitMergeFile base lead reviewer).Blind withoutConflicts := by
  rintro (e | ⟨code | shown, stdout, stderr⟩)
  · exact ⟨rfl, trivial⟩
  · change (if (if code < 128 then 0 else code) < 128 then _ else _) = (if code < 128 then _ else _) ∧
      (if code < 128 then (pure stdout : RunM String) else .fail _).Blind withoutConflicts
    by_cases hcode : code < 128
    · simp only [if_pos hcode]
      exact ⟨rfl, trivial⟩
    · simp only [if_neg hcode]
      exact ⟨trivial, trivial⟩
  · exact ⟨rfl, trivial⟩

theorem selectFinalPatch_unseen (X : Externals) (output : AgentOutput) (feedback : ReviewerFeedback)
    (policy : ConflictPolicy) : (selectFinalPatch X output feedback policy).Blind withoutConflicts := by
  have hentry (f g : FilePatch) : (mergeFilePatch X f g).Blind withoutConflicts := by
    unfold mergeFilePatch
    split_ifs
    · trivial
    · trivial
    · split
      · exact (gitMergeFile_unseen _ _ _).mapError.bind fun _ => blind_pure _
      · exact (gitMergeFile_unseen _ _ _).mapError.bind fun _ => blind_pure _
      · trivial
      · trivial
  have hfiles (files reviewerFiles : List FilePatch) : (mergeFiles X files reviewerFiles).Blind withoutConflicts := by
    induction reviewerFiles generalizing files with
    | nil => exact blind_pure _
    | cons g rest ih =>
      unfold mergeFiles
      split
      · exact ih _
      · split
        · exact ih _
        · split_ifs
          · exact ih _
          · exact (hentry _ _).bind fun _ => ih _
  cases policy with
  | mergeAttempt =>
    refine Blind.mapError ?_
    unfold mergePatches
    split
    · exact blind_pure _
    · exact blind_pure _
    · exact (hfiles _ _).bind fun _ => (Asks.blind (asks_query fun _ => rfl)).bind fun _ => blind_pure _
  | _ => exact blind_pure _

namespace Setting

variable {S : Setting}

theorem runConsensus_unseen (task : Task) : (S.runConsensus task).Blind withoutConflicts := by
  have himplement : InStage .generate (ask (.implement S.lead)) := ask_inStage rfl
  unfold runConsensus
  refine ((collectOutputWithCrossfire_inStage himplement _ _).unseen nofun).mapError.bind fun _ => ?_
  refine ((buildGoalEvaluator_inStage _).unseen nofun).bind fun goal => ?_
  have hloop (s : LoopState) : (S.refinementLoop goal S.maxRefinementRounds 0 s).Asks fun q => q.stage ≠ .merge :=
    S.refinementLoop_asks (P := fun q => q.stage ≠ .merge) (fun _ _ => (S.reviewRound_inStage _ _ _).ne nofun)
      (fun q hq => by rcases hq with hq | hq <;> rw [hq] <;> nofun) _ _ _
  refine (unseen_of_asks (hloop _)).bind fun s => ?_
  exact (selectFinalPatch_unseen _ _ _ _).bind fun _ => (conclude_inStage _ _ _ _ _ _ _).unseen nofun

theorem runTournamentStrategy_unseen (task : Task) : (S.runTournamentStrategy task).Blind withoutConflicts := by
  have himplement (adapter : String) : (withContext "tournament candidate generation failed" do
      orFail (← ask (.implement adapter))).Blind withoutConflicts := unseen_of_asks (askOrFail_asks _ nofun _)
  unfold runTournamentStrategy
  refine (himplement _).bind fun _ => (himplement _).bind fun _ => ?_
  refine ((S.judgeTournament_inStage _ _).unseen nofun).bind fun _ => ?_
  refine ((buildGoalEvaluator_inStage _).unseen nofun).bind fun goal => ?_
  refine ((runGoalCheck_inStage goal).unseen nofun).bind fun _ => ?_
  refine (Asks.blind (asks_query fun _ => rfl)).bind fun _ => ?_
  refine (selectFinalPatch_unseen _ _ _ _).bind fun _ => ?_
  exact ((isCancelled_inStage _).unseen nofun).bind fun _ => (conclude_inStage _ _ _ _ _ _ _).unseen nofun

end Setting

theorem runSynapticLoop_unseen (X : Externals) (task : Task) (config : Config) (adapters : List String)
    (options : RunOptions) : (runSynapticLoop X task config adapters options).Blind withoutConflicts := by
  unfold runSynapticLoop
  refine ((applyBuiltinVerifier_inStage options config).unseen nofun).bind fun _ => ?_
  iterate 3 refine (unseen_of_asks (asks_ofExcept _)).bind fun _ => ?_
  dsimp only
  split
  · exact Setting.runTournamentStrategy_unseen task
  · exact Setting.runConsensus_unseen task
  · exact Setting.runConsensus_unseen task

/-! ### The result -/

/-- **Two patches are made one that keeps both sides,** if where their paths differ they do nothing to each
other's files; and a run does with a merge that git reports as conflicting what it does with a clean one. -/
theorem mergeAttempt_keepsBoth {X : Externals} {t tL tR : FsTree} {lead reviewer p : NvPatch} {rL rR : ApplyReport}
    {es : Trace} (hmerge : Runs (mergePatches X (some lead) (some reviewer)) es (.ok (some p)))
    (hlead : lead.apply X.sha256Hex false t = (.ok rL, tL))
    (hreviewer : reviewer.apply X.sha256Hex false t = (.ok rR, tR))
    (hhash : ∀ f ∈ lead.files, f.originalSha256 = X.sha256Hex f.original)
    (honeL : OnePerPath lead.files) (honeR : OnePerPath reviewer.files) (hapart : Apart lead reviewer) :
    (∃ r t', p.apply X.sha256Hex false t = (.ok r, t') ∧ KeepsBoth es lead reviewer tL tR t') ∧
      ∀ task config adapters options trace r, Runs (runSynapticLoop X task config adapters options) trace r →
        Runs (runSynapticLoop X task config adapters options)
          (trace.map fun x => ⟨x.question, withoutConflicts x.question x.answer⟩) r := by
  refine ⟨?_, fun task config adapters options _ _ h => (runSynapticLoop_unseen X task config adapters options).runs h⟩
  have hfused := mergePatches_fuses honeL honeR hmerge
  obtain ⟨hvalidL, hL⟩ := NvPatch.run_of_apply_ok hlead
  obtain ⟨hvalidR, hR⟩ := NvPatch.run_of_apply_ok hreviewer
  obtain ⟨tF, t', hF, ht', hbeside⟩ := run_fused honeR hapart hfused hL hR
  have hentry : ∀ f' ∈ p.files, f'.validate X.sha256Hex t false = .ok () ∧ f'.Plain := by
    rw [NvPatch.validate_eq_ok] at hvalidL hvalidR
    intro f' hf'
    rw [← List.take_append_drop lead.files.length p.files, List.mem_append, hfused.rest, List.mem_filter] at hf'
    rcases hf' with hf' | ⟨hf', -⟩
    · obtain ⟨f, hf, hentry⟩ := hfused.exists_of_mem hf'
      exact ⟨hentry.validate (hhash f hf) (hvalidL f hf), hentry.plain (NvPatch.plain_of_apply_ok hlead f hf)⟩
    · exact ⟨hvalidR f' hf', NvPatch.plain_of_apply_ok hreviewer f' hf'⟩
  have hserve : t.serve p.requests = (.ok (), t') := by
    rw [NvPatch.serve_requests fun f' hf' => (hentry f' hf').2, ht']
  exact ⟨_, t', NvPatch.apply_of_serve (NvPatch.validate_eq_ok.mpr fun f' hf' => (hentry f' hf').1) hserve, keepsBoth_of_fused honeL honeR hapart hfused hL hR hF hbeside⟩

/-! ### Samples -/

def mergeExternals : Externals := { sampleExternals with sha256Hex := sampleSha256Hex }

/-- A tree with one file. -/
def oneFile : FsTree := (writeString ⟨"a"⟩ "text\n" Tree.empty).2

/-- The lead rewrites the file and adds another. -/
def sampleLead : NvPatch :=
  ⟨"lead", none, [.new sampleSha256Hex ⟨"a"⟩ "text\n" "lead\n", .create sampleSha256Hex ⟨"b"⟩ "text\n"]⟩

def sampleReviewer : NvPatch := ⟨"reviewer", none, [.new sampleSha256Hex ⟨"a"⟩ "text\n" "reviewer\n"]⟩

/-- What git prints when the two rewrites conflict. -/
def conflictText : String := "<<<<<<< lead\nlead\n=======\nreviewer\n>>>>>>> reviewer\n"

/-- A world in which git reports one conflict. -/
def conflictWorld (past : Trace) (q : Question) : q.Answer :=
  match q with
  | .gitMergeFile _ _ _ => .ok ⟨.exited 1, conflictText, ""⟩
  | q => sampleWorld { sampleOutput with proposedPatch := some sampleLead }
    { ReviewerFeedback.lgtm "codex" "LGTM" with suggestedPatch := some sampleReviewer } .pass past q

def conflictRun : RunM RunReport :=
  runSynapticLoop mergeExternals sampleTask (sampleConfig .mergeAttempt) ["claude-code", "codex"] sampleOptions

def conflictPatch : NvPatch :=
  ⟨"patch", none, [.withOperation sampleSha256Hex ⟨"a"⟩ .modify "text\n" conflictText,
    .create sampleSha256Hex ⟨"b"⟩ "text\n"]⟩

/-- The reviewer moves the file that the lead rewrites. -/
def renamingReviewer : NvPatch := ⟨"reviewer", none, [.rename sampleSha256Hex ⟨"a"⟩ ⟨"b"⟩ "text\n" "text\n"]⟩

def rewritingLead : NvPatch := ⟨"lead", none, [.new sampleSha256Hex ⟨"a"⟩ "text\n" "lead\n"]⟩

def conflictOutput : ProcessOutput := ⟨.exited 1, conflictText, ""⟩

theorem mergeAttempt_keepsBoth_sample : ∃ es tL tR r t',
    Runs (mergePatches mergeExternals (some sampleLead) (some sampleReviewer)) es (.ok (some conflictPatch)) ∧
      conflictPatch.apply sampleSha256Hex false oneFile = (.ok r, t') ∧
      KeepsBoth es sampleLead sampleReviewer tL tR t' := by
  have hresult : ((mergePatches mergeExternals (some sampleLead) (some sampleReviewer)).play conflictWorld []).2 =
      .ok (some conflictPatch) := by decide +kernel
  have hmerge := runs_play conflictWorld [] (mergePatches mergeExternals (some sampleLead) (some sampleReviewer))
  rw [hresult] at hmerge
  have hlead : (sampleLead.apply sampleSha256Hex false oneFile).1 = .ok ⟨"lead", [⟨"a"⟩, ⟨"b"⟩], false⟩ := by
    decide +kernel
  have hreviewer : (sampleReviewer.apply sampleSha256Hex false oneFile).1 = .ok ⟨"reviewer", [⟨"a"⟩], false⟩ := by
    decide +kernel
  obtain ⟨r, t', happly, hkeeps⟩ := (mergeAttempt_keepsBoth hmerge (Prod.ext hlead rfl) (Prod.ext hreviewer rfl)
    (by decide +kernel) (by decide +kernel) (by decide +kernel) (by decide +kernel)).1
  exact ⟨_, _, _, r, t', hmerge, happly, hkeeps⟩

/-- A merge with a conflict is applied by the run; what one side rewrites and the other moves is moved as it was;
and two patches that validate need not be applied when they are made one. -/
theorem conflict_applied :
    (∃ trace report, Runs conflictRun trace (.ok report) ∧ report.applied = true ∧
      ⟨.gitMergeFile "text\n" "lead\n" "reviewer\n", .ok conflictOutput⟩ ∈ trace ∧
      ⟨.applyInPlace conflictPatch, .ok ()⟩ ∈ trace) ∧
    (∃ es p, Runs (mergePatches mergeExternals (some rewritingLead) (some renamingReviewer)) es (.ok (some p)) ∧
      rewritingLead.validate sampleSha256Hex oneFile false = .ok () ∧
      renamingReviewer.validate sampleSha256Hex oneFile false = .ok () ∧
      (p.apply sampleSha256Hex false oneFile).1.isOk = true ∧
      (p.apply sampleSha256Hex false oneFile).2.file ["a"] = none ∧
      (p.apply sampleSha256Hex false oneFile).2.file ["b"] = some "text\n".toByteArray) ∧
    ∃ es p,
      Runs (mergePatches mergeExternals (some createBelowCreate) (some ⟨"reviewer", none, []⟩)) es (.ok (some p)) ∧
      createBelowCreate.validate sampleSha256Hex Tree.empty false = .ok () ∧
      (p.apply sampleSha256Hex false Tree.empty).1.isOk = false := by
  refine ⟨⟨_, _, runs_play conflictWorld [] conflictRun, rfl, List.mem_of_getElem? (i := 7) rfl,
    List.mem_of_getElem? (i := 10) rfl⟩, ?_, ?_⟩
  · have hresult : ((mergePatches mergeExternals (some rewritingLead) (some renamingReviewer)).play
        conflictWorld []).2 = .ok (some ⟨"patch", none, rewritingLead.files ++ renamingReviewer.files⟩) := by decide +kernel
    have hmerge := runs_play conflictWorld [] (mergePatches mergeExternals (some rewritingLead) (some renamingReviewer))
    rw [hresult] at hmerge
    exact ⟨_, _, hmerge, by decide +kernel, by decide +kernel, by decide +kernel, by decide +kernel, by decide +kernel⟩
  · have hresult : ((mergePatches mergeExternals (some createBelowCreate) (some ⟨"reviewer", none, []⟩)).play
        conflictWorld []).2 = .ok (some ⟨"patch", none, createBelowCreate.files⟩) := by decide +kernel
    have hmerge := runs_play conflictWorld []
      (mergePatches mergeExternals (some createBelowCreate) (some ⟨"reviewer", none, []⟩))
    rw [hresult] at hmerge
    exact ⟨_, _, hmerge, by decide +kernel, by decide +kernel⟩

end Nerve.Run
