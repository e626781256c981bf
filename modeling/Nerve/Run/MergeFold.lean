import Nerve.Run.Stages
import Nerve.Patch.Effects

/-!
# Folding one patch into another

`merge_patches` folds the reviewer's entries into the lead's, one after the other, and matches them
by target path alone. An entry at another path than all others is put behind them, one that equals
the entry at its path is dropped, two modifications or two creations of one file are merged by
`git merge-file`, and all else at one path is refused. `FusedFiles` says what this makes of the
entries, `mergePatches_fuses` that it is what a merge that returns a patch has made.
-/

namespace Nerve.Run

open Nerve Nerve.Patch Dialogue

/-! ### Paths and entries -/

theorem same_iff {p q : PathBuf} : p.same q = true ↔ p.components = q.components := beq_iff_eq

theorem loc_eq_of_same {p q : PathBuf} (h : p.same q = true) : p.loc = q.loc := by
  rw [PathBuf.loc, PathBuf.loc, same_iff.mp h]

/-- Equal entries do the same. -/
theorem effects_eq_of_same {f g : FilePatch} (h : f.same g = true) : f.effects = g.effects := by
  simp only [FilePatch.same, Bool.and_eq_true, beq_iff_eq] at h
  obtain ⟨⟨⟨⟨⟨hpath, hoperation⟩, -⟩, hmodified⟩, -⟩, -⟩ := h
  have hloc := loc_eq_of_same hpath
  rcases ho : f.operation with _ | _ | _ | origin <;> rcases ho' : g.operation with _ | _ | _ | origin' <;>
    simp only [ho, ho', FileOperation.same, beq_iff_eq, reduceCtorEq] at hoperation <;>
    simp only [FilePatch.effects, ho, ho', hloc, hmodified]
  rw [loc_eq_of_same hoperation]

/-- Each path has one entry. -/
def OnePerPath (files : List FilePatch) : Prop := files.Pairwise fun f g => f.path.same g.path = false

theorem OnePerPath.index {files : List FilePatch} (h : OnePerPath files) {i j : Nat} {f g : FilePatch}
    (hf : files[i]? = some f) (hg : files[j]? = some g) (hpath : f.path.same g.path = true) : i = j := by
  obtain ⟨hi, rfl⟩ := List.getElem?_eq_some_iff.mp hf
  obtain ⟨hj, rfl⟩ := List.getElem?_eq_some_iff.mp hg
  have hne := List.pairwise_iff_getElem.mp h
  rcases lt_trichotomy i j with hlt | heq | hlt
  · rw [hne i j hi hj hlt] at hpath
    cases hpath
  · exact heq
  · rw [same_iff, eq_comm, ← same_iff, hne j i hj hi hlt] at hpath
    cases hpath

theorem OnePerPath.eq {files : List FilePatch} (h : OnePerPath files) {f g : FilePatch} (hf : f ∈ files)
    (hg : g ∈ files) (hpath : f.path.same g.path = true) : f = g := by
  obtain ⟨i, hi⟩ := List.mem_iff_getElem?.mp hf
  obtain ⟨j, hj⟩ := List.mem_iff_getElem?.mp hg
  obtain rfl := h.index hi hj hpath
  exact Option.some.inj (hi.symm.trans hj)

instance (files : List FilePatch) : Decidable (OnePerPath files) := inferInstanceAs (Decidable (List.Pairwise _ _))

/-! ### What the fold makes of the entries -/

section Fold

variable (X : Externals) (es : Trace)

/-- `git merge-file` was run on the three texts and printed this one, with an exit status that is not a failure. -/
def GitMerged (base lead reviewer merged : String) : Prop :=
  ∃ output code, (⟨.gitMergeFile base lead reviewer, .ok output⟩ : Exchange Question Question.Answer) ∈ es ∧
    output.status = .exited code ∧ code < 128 ∧ output.stdout = merged

/-- What has become of a lead's entry, with these of the reviewer's folded in. -/
inductive Fused (folded : List FilePatch) (f : FilePatch) : FilePatch → Prop where
  | kept (h : ∀ g ∈ folded, f.path.same g.path = true → f.same g = true) : Fused folded f f
  | merged {g : FilePatch} {text : String} (hg : g ∈ folded) (hpath : f.path.same g.path = true)
      (hoperation : f.operation.same g.operation = true) (hwrites : f.operation = .modify ∨ f.operation = .create)
      (htext : GitMerged es f.original f.modified g.modified text) :
      Fused folded f (.withOperation X.sha256Hex f.path f.operation f.original text)

/-- The entries after the fold: the lead's, and behind them those of the reviewer at other paths. -/
structure FusedFiles (lead folded files : List FilePatch) : Prop where
  length : lead.length ≤ files.length
  entries : ∀ (i : Nat) f f', lead[i]? = some f → files[i]? = some f' → Fused X es folded f f'
  rest : files.drop lead.length = folded.filter fun g => !lead.any fun f => f.path.same g.path

variable {X es}

theorem Fused.path {folded : List FilePatch} {f f' : FilePatch} (h : Fused X es folded f f') : f'.path = f.path := by
  cases h <;> rfl

theorem GitMerged.mono {es' : Trace} {base lead reviewer merged : String} (h : GitMerged es base lead reviewer merged)
    (hes : es ⊆ es') : GitMerged es' base lead reviewer merged := by
  obtain ⟨output, code, hmem, h⟩ := h
  exact ⟨output, code, hes hmem, h⟩

theorem Fused.mono {folded : List FilePatch} {f f' : FilePatch} {es' : Trace} (h : Fused X es folded f f')
    (hes : es ⊆ es') : Fused X es' folded f f' := by
  cases h with
  | kept h => exact .kept h
  | merged hg hpath hoperation hwrites htext => exact .merged hg hpath hoperation hwrites (htext.mono hes)

/-- Another entry is folded in that does not meet this one, or is equal to it. -/
theorem Fused.next {folded : List FilePatch} {f f' g : FilePatch} {es' : Trace} (h : Fused X es folded f f')
    (hg : f.path.same g.path = true → f.same g = true) (hes : es ⊆ es') : Fused X es' (folded ++ [g]) f f' := by
  cases h.mono hes with
  | kept hkept =>
    refine .kept fun g' hg' hpath => ?_
    rcases List.mem_append.mp hg' with hg' | hg'
    · exact hkept g' hg' hpath
    · obtain rfl := List.mem_singleton.mp hg'
      exact hg hpath
  | merged hg' hpath hoperation hwrites htext =>
    exact .merged (List.mem_append_left _ hg') hpath hoperation hwrites htext

theorem gitMergeFile_ensures (base lead reviewer : String) :
    (gitMergeFile base lead reviewer).Ensures fun es merged => GitMerged es base lead reviewer merged := by
  refine (ensures_query (Φ := fun es a => es = [⟨_, a⟩]) fun _ => rfl).bind fun es₁ answer h₁ => ?_
  refine (ensures_ofExcept (Φ := fun es a => es = [] ∧ answer = .ok a) fun a ha => ⟨rfl, ha⟩).bind
    fun es₂ output h₂ => ?_
  obtain ⟨rfl, rfl⟩ := h₂
  subst h₁
  dsimp only
  split
  · split_ifs with hcode
    · exact ensures_pure ⟨output, _, List.mem_singleton_self _, ‹_›, hcode, rfl⟩
    · exact ensures_fail
  · exact ensures_fail

/-- Only two modifications, or two creations, of one base are merged. -/
theorem mergeFilePatch_ensures (f g : FilePatch) : (mergeFilePatch X f g).Ensures fun es f' =>
    f.operation.same g.operation = true ∧ (f.operation = .modify ∨ f.operation = .create) ∧
      ∃ text, GitMerged es f.original f.modified g.modified text ∧
        f' = .withOperation X.sha256Hex f.path f.operation f.original text := by
  have hmerge (context : String) :
      (withContext context (gitMergeFile f.original f.modified g.modified)).Ensures fun es merged =>
        GitMerged es f.original f.modified g.modified merged := (gitMergeFile_ensures _ _ _).mapError
  unfold mergeFilePatch
  split_ifs with hoperation
  · exact ensures_fail
  · exact ensures_fail
  · rw [Bool.not_eq_true, Bool.not_eq_false'] at hoperation
    split
    · rename_i ho
      exact (hmerge _).bind fun _ text htext => ensures_pure
        ⟨hoperation, Or.inl ho, text, by rwa [List.append_nil], by rw [ho]⟩
    · rename_i ho
      exact (hmerge _).bind fun _ text htext => ensures_pure
        ⟨hoperation, Or.inr ho, text, by rwa [List.append_nil], by rw [ho]⟩
    · exact ensures_fail
    · exact ensures_fail

section Step

variable {lead folded files rest : List FilePatch} {g : FilePatch} {i : Nat} {es' : Trace}

/-- An entry at another path than all others. -/
theorem FusedFiles.append (h : FusedFiles X es lead folded files) (hnone : ∀ f ∈ files, f.path.same g.path = false) :
    FusedFiles X es lead (folded ++ [g]) (files ++ [g]) := by
  have hlead (i : Nat) {f f' : FilePatch} (hf : lead[i]? = some f) (hf' : files[i]? = some f') :
      f.path.same g.path = false := by
    rw [← (h.entries i f f' hf hf').path]
    exact hnone f' (List.mem_of_getElem? hf')
  refine ⟨by rw [List.length_append]; exact h.length.trans (Nat.le_add_right _ _), fun i f f' hf hf' => ?_, ?_⟩
  · rw [List.getElem?_append_left ((List.getElem?_eq_some_iff.mp hf).1.trans_le h.length)] at hf'
    refine (h.entries i f f' hf hf').next (fun hpath => ?_) (List.Subset.refl _)
    rw [hlead i hf hf'] at hpath
    cases hpath
  · have hany : (lead.any fun f => f.path.same g.path) = false := by
      rw [List.any_eq_false]
      intro f hf
      obtain ⟨i, hi⟩ := List.mem_iff_getElem?.mp hf
      have hlt := (List.getElem?_eq_some_iff.mp hi).1.trans_le h.length
      rw [hlead i hi (List.getElem?_eq_getElem hlt)]
      exact Bool.false_ne_true
    rw [List.drop_append_of_le_length h.length, h.rest, List.filter_append, List.filter_cons_of_pos (by simp [hany]),
      List.filter_nil]

/-- An entry that is found at the path is the lead's own, as it was. -/
theorem FusedFiles.found (h : FusedFiles X es lead folded files) (hreviewer : OnePerPath (folded ++ g :: rest))
    {f : FilePatch} (hf : files[i]? = some f) (hpath : f.path.same g.path = true) : lead[i]? = some f := by
  have hother : ∀ g' ∈ folded, g'.path.same g.path = false := fun g' hg' =>
    (List.pairwise_append.mp hreviewer).2.2 g' hg' g (List.mem_cons_self ..)
  rcases lt_or_ge i lead.length with hlt | hge
  · have hi := List.getElem?_eq_getElem hlt
    rcases h.entries i _ f hi hf with _ | ⟨hg', hpath', -⟩
    · exact hi
    · rw [same_iff] at hpath hpath'
      have := hother _ hg'
      rw [same_iff.mpr (hpath'.symm.trans hpath)] at this
      cases this
  · have hdrop : f ∈ files.drop lead.length := by
      refine List.mem_of_getElem? (i := i - lead.length) ?_
      rw [List.getElem?_drop, Nat.add_sub_cancel' hge, hf]
    rw [h.rest] at hdrop
    rw [hother f (List.mem_filter.mp hdrop).1] at hpath
    cases hpath

/-- The lead's entry at the path is replaced. -/
theorem FusedFiles.set (h : FusedFiles X es lead folded files) (hlead : OnePerPath lead) {f f' : FilePatch}
    (hf : lead[i]? = some f) (hpath : f.path.same g.path = true) (hes : es ⊆ es')
    (hf' : Fused X es' (folded ++ [g]) f f') : FusedFiles X es' lead (folded ++ [g]) (files.set i f') := by
  have hlt := (List.getElem?_eq_some_iff.mp hf).1
  refine ⟨by rw [List.length_set]; exact h.length, fun j f₁ f₁' hf₁ hf₁' => ?_, ?_⟩
  · by_cases hij : i = j
    · subst hij
      rw [List.getElem?_set_self (hlt.trans_le h.length)] at hf₁'
      cases hf.symm.trans hf₁
      cases hf₁'
      exact hf'
    · rw [List.getElem?_set_ne hij] at hf₁'
      refine (h.entries j f₁ f₁' hf₁ hf₁').next (fun hpath' => ?_) hes
      rw [same_iff] at hpath hpath'
      exact absurd (hlead.index hf hf₁ (same_iff.mpr (hpath.trans hpath'.symm))) hij
  · have hany : (lead.any fun f => f.path.same g.path) = true :=
      List.any_eq_true.mpr ⟨f, List.mem_of_getElem? hf, hpath⟩
    rw [List.drop_set_of_lt hlt, h.rest, List.filter_append, List.filter_cons_of_neg (by simp [hany]), List.filter_nil,
      List.append_nil]

end Step

/-- **The fold.** -/
theorem mergeFiles_ensures {lead folded files rest : List FilePatch} (hlead : OnePerPath lead)
    (hreviewer : OnePerPath (folded ++ rest)) (h : FusedFiles X es lead folded files) :
    (mergeFiles X files rest).Ensures fun es' files' => FusedFiles X (es ++ es') lead (folded ++ rest) files' := by
  induction rest generalizing es folded files with
  | nil =>
    rw [mergeFiles]
    exact ensures_pure (by rwa [List.append_nil, List.append_nil])
  | cons g rest ih =>
    have hassoc : folded ++ g :: rest = (folded ++ [g]) ++ rest := by rw [List.append_assoc, List.singleton_append]
    have ih {es : Trace} {files : List FilePatch} (h : FusedFiles X es lead (folded ++ [g]) files) :
        (mergeFiles X files rest).Ensures fun es' files' =>
          FusedFiles X (es ++ es') lead (folded ++ g :: rest) files' := by
      rw [hassoc] at hreviewer ⊢
      exact ih hreviewer h
    unfold mergeFiles
    split
    · rename_i hnone
      exact ih (h.append fun f hf => by simpa using List.findIdx?_eq_none_iff.mp hnone f hf)
    · rename_i i hi
      obtain ⟨hlt, hpath, -⟩ := List.findIdx?_eq_some_iff_getElem.mp hi
      have hfile := List.getElem?_eq_getElem hlt
      have hf := h.found hreviewer hfile hpath
      rw [hfile]
      dsimp only
      split_ifs with hsame
      · refine ih ?_
        have hfused := (h.entries i _ _ hf hfile).next (fun _ => hsame) (List.Subset.refl _)
        have hset := h.set hlead hf hpath (List.Subset.refl _) hfused
        rwa [List.set_getElem_self] at hset
      · refine (mergeFilePatch_ensures _ g).bind fun es₁ f' hf' => ?_
        obtain ⟨hoperation, hwrites, text, htext, rfl⟩ := hf'
        have hfused := h.set hlead hf hpath (List.subset_append_left _ es₁) (.merged
          (List.mem_append_right _ (List.mem_singleton_self g)) hpath hoperation hwrites
          (htext.mono (List.subset_append_right _ _)))
        exact (ih hfused).mono fun es₂ _ h => by rwa [List.append_assoc] at h

/-- **What merging two patches makes of them.** -/
theorem mergePatches_fuses {lead reviewer p : NvPatch} (hlead : OnePerPath lead.files)
    (hreviewer : OnePerPath reviewer.files) (h : Runs (mergePatches X (some lead) (some reviewer)) es (.ok (some p))) :
    FusedFiles X es lead.files reviewer.files p.files := by
  have hstart : FusedFiles X [] lead.files [] lead.files := by
    refine ⟨le_rfl, fun i f f' hf hf' => ?_, List.drop_length ..⟩
    cases hf.symm.trans hf'
    exact .kept fun _ hg => absurd hg List.not_mem_nil
  obtain ⟨files, es₁, es₂, rfl, hfiles, hrest⟩ := runs_bind_ok h
  have hfused : FusedFiles X es₁ lead.files reviewer.files files :=
    @mergeFiles_ensures X [] lead.files [] lead.files reviewer.files hlead hreviewer hstart es₁ files hfiles
  cases hrest with
  | ask hrest =>
    cases hrest
    exact ⟨hfused.length, fun i f f' hf hf' =>
      (hfused.entries i f f' hf hf').mono (List.subset_append_left _ _), hfused.rest⟩

end Fold

end Nerve.Run
