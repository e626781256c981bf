import Nerve.Patch.Rollback
import Nerve.Run.Gate
import Nerve.Worktree.Isolator
import Mathlib

/-!
# A worktree and the place itself

An apply with a worktree should leave the main tree as an apply in place leaves it. Between the two
stand a checkout, `git add -A`, a commit and a fast-forward, and the file `main-pre.ref`, in which
the round notes the commit of `HEAD`: it is in the checkout when everything there is staged. So it
is committed with the patch and merged, unless git ignores it (`note_is_merged`).

`worktree_agrees_iff` says exactly when the two trees agree, for every repository, with its ignored
files and its conversions, and every patch: `Carried`. The commands of the round first
(`applyFinalPatchTo_ok`), then path by path what the main tree has in the end: of the note, of a
path that the patch names, and of the others.
-/

namespace Nerve.Worktree

open Nerve.FileTree Nerve.Patch Nerve.Run Dialogue

section Steps

variable {git : Git} {sha256Hex : String → String} {rest : (q : Question) → q.Answer} {patch : NvPatch}
  {main main' : FsTree} {round round' : IsolatedRound}

/-- `?` went on. -/
theorem except_bind_ok {ε α β : Type} {r : Except ε α} {k : α → Except ε β} {b : β} (h : (r >>= k) = .ok b) :
    ∃ a, r = .ok a ∧ k a = .ok b := by
  rcases r with e | a
  · cases h
  · exact ⟨a, rfl, h⟩

theorem toRunError_ok {α : Type} {r : WorktreeResult α} {a : α} (h : toRunError r = .ok a) : r = .ok a := by
  rcases r with e | b
  · cases h
  · cases h
    rfl

theorem prepareRound_ok (h : prepareRound git = .ok round) :
    ∃ headRef wt files, git.worktreeAdd = .ok wt ∧ git.prepare.headOid = .ok headRef ∧
      writeBytes mainPreRef headRef.toByteArray wt = (.ok (), files) ∧ round = ⟨headRef, files, [mainPreRef.loc], none⟩ := by
  unfold prepareRound at h
  obtain ⟨-, -, h⟩ := except_bind_ok h
  obtain ⟨-, -, h⟩ := except_bind_ok h
  obtain ⟨-, -, h⟩ := except_bind_ok h
  obtain ⟨headRef, hheadRef, h⟩ := except_bind_ok h
  obtain ⟨-, -, h⟩ := except_bind_ok h
  obtain ⟨wt, hwt, h⟩ := except_bind_ok h
  rcases hwrite : writeBytes mainPreRef headRef.toByteArray wt with ⟨e | _, files⟩ <;> rw [hwrite] at h
  · cases h
  · cases h
    exact ⟨headRef, wt, files, hwt, hheadRef, hwrite, rfl⟩

theorem applyPatchInWorktree_ok (h : applyPatchInWorktree sha256Hex patch round = .ok round') :
    ∃ report files, patch.apply sha256Hex false round.files = (.ok report, files) ∧
      round' = { round with files := files, written := round.written ++ patch.locs } := by
  unfold applyPatchInWorktree at h
  rcases happly : patch.apply sha256Hex false round.files with ⟨e | report, files⟩ <;> rw [happly] at h
  · cases h
  · cases h
    exact ⟨report, files, rfl, rfl⟩

theorem commitWorktreeRound_ok (h : commitWorktreeRound git round = .ok round') :
    ∃ tip, git.commit round.written round.files = .ok tip ∧ round' = { round with tip := some tip } := by
  obtain ⟨tip, htip, h⟩ := except_bind_ok h
  cases h
  exact ⟨tip, htip, rfl⟩

theorem mergeRound_ok {tip : Commit} (h : mergeRound git round tip main = .ok main') :
    git.fastForward tip main = .ok (.ok main') := by
  unfold mergeRound at h
  obtain ⟨-, -, h⟩ := except_bind_ok h
  obtain ⟨-, -, h⟩ := except_bind_ok h
  obtain ⟨-, -, h⟩ := except_bind_ok h
  obtain ⟨-, -, h⟩ := except_bind_ok h
  obtain ⟨changed, -, h⟩ := except_bind_ok h
  obtain ⟨-, -, h⟩ := except_bind_ok h
  obtain ⟨-, -, h⟩ := except_bind_ok h
  obtain ⟨merged, hmerged, h⟩ := except_bind_ok h
  rcases merged with stderr | main₁
  · obtain ⟨-, -, h⟩ := except_bind_ok h
    cases h
  · cases h
    exact hmerged

theorem serve_ask_ok {σ : Type} {handler : σ → (q : Question) → q.Answer × σ} {s s' : σ} {q : Question} {a : q.Answer}
    (h : (Run.ask q).serve handler s = (.ok a, s')) : (handler s q).1 = a ∧ (handler s q).2 = s' := by
  obtain ⟨ha, hs⟩ := Prod.mk.inj h
  exact ⟨Except.ok.inj ha, hs⟩

/-- A question whose failure is the run's. -/
theorem serve_askOrFail_ok {σ α : Type} {handler : σ → (q : Question) → q.Answer × σ} {s s' : σ} {q : Question}
    {context : String} {r : q.Answer → Except RunError α} {a : α}
    (h : (withContext context do orFail (r (← Run.ask q))).serve handler s = (.ok a, s')) :
    r (handler s q).1 = .ok a ∧ (handler s q).2 = s' := by
  obtain ⟨answer, s₁, hask, h⟩ := serve_bind_ok (serve_mapError_ok h)
  obtain ⟨rfl, rfl⟩ := serve_ask_ok hask
  exact serve_ofExcept_ok h

theorem answer_prepareRound {site : Site} (h : (answer git sha256Hex rest site .prepareRound).1 = .ok ()) :
    ∃ round, prepareRound git = .ok round ∧
      (answer git sha256Hex rest site .prepareRound).2 = { site with round := some round } := by
  unfold answer at h ⊢
  rcases hprepare : prepareRound git with e | round <;> simp only [hprepare] at h ⊢
  · cases h
  · exact ⟨round, rfl, rfl⟩

theorem answer_mergeRound {headRef : String} {files : FsTree} {written : List (Loc String)} {tip : Commit}
    (h : (answer git sha256Hex rest ⟨main, some ⟨headRef, files, written, some tip⟩⟩ .mergeRound).1 = .ok ()) :
    git.fastForward tip main =
      .ok (.ok (answer git sha256Hex rest ⟨main, some ⟨headRef, files, written, some tip⟩⟩ .mergeRound).2.main) := by
  unfold answer at h ⊢
  dsimp only at h ⊢
  rcases hmerge : mergeRound git ⟨headRef, files, written, some tip⟩ tip main with e | main' <;> simp only [hmerge] at h ⊢
  · cases h
  · exact mergeRound_ok hmerge

theorem onRound_ok {site : Site} {step : IsolatedRound → Except RunError IsolatedRound} (hround : site.round = some round)
    (h : (onRound site step).1 = .ok ()) :
    ∃ round', step round = .ok round' ∧ (onRound site step).2 = ⟨site.main, some round'⟩ := by
  unfold onRound at h ⊢
  rw [hround] at h ⊢
  rcases hstep : step round with e | round' <;> simp only [hstep] at h ⊢
  · cases h
  · exact ⟨round', rfl, rfl⟩

/-- The steps of an apply that succeeds. -/
theorem applyFinalPatchTo_ok {site : Site}
    (h : applyFinalPatchTo git sha256Hex rest (some patch) true true main = (.ok true, site)) :
    ∃ headRef wt noted report files tip, git.prepare.headOid = .ok headRef ∧ git.worktreeAdd = .ok wt ∧
      writeBytes mainPreRef headRef.toByteArray wt = (.ok (), noted) ∧
      patch.apply sha256Hex false noted = (.ok report, files) ∧
      git.commit (mainPreRef.loc :: patch.locs) files = .ok tip ∧ git.fastForward tip main = .ok (.ok site.main) := by
  unfold applyFinalPatchTo applyFinalPatch at h
  simp only [Bool.not_true, Bool.false_eq_true, if_false] at h
  unfold applyWithWorktree at h
  obtain ⟨_, s₁, hisolator, h⟩ := serve_bind_ok h
  obtain ⟨-, rfl⟩ := serve_askOrFail_ok hisolator
  -- the round
  obtain ⟨_, s₂, hround, h⟩ := serve_bind_ok h
  obtain ⟨hprepare, hs₂⟩ := serve_askOrFail_ok hround
  obtain ⟨round, hprepare, hsite₂⟩ := answer_prepareRound hprepare
  obtain ⟨headRef, wt, noted, hwt, hheadRef, hnoted, rfl⟩ := prepareRound_ok hprepare
  obtain rfl := hs₂.symm.trans hsite₂
  -- the patch
  obtain ⟨r₃, s₃, hask₃, h⟩ := serve_bind_ok h
  obtain ⟨hr₃, hs₃⟩ := serve_ask_ok hask₃
  rcases r₃ with e | ⟨⟩
  · cases (Prod.mk.inj h).1
  obtain ⟨patched, hpatched, hsite₃⟩ := onRound_ok rfl hr₃
  obtain ⟨report, files, happly, rfl⟩ := applyPatchInWorktree_ok (toRunError_ok hpatched)
  obtain rfl := hs₃.symm.trans hsite₃
  -- the commit
  obtain ⟨r₄, s₄, hask₄, h⟩ := serve_bind_ok h
  obtain ⟨hr₄, hs₄⟩ := serve_ask_ok hask₄
  rcases r₄ with e | ⟨⟩
  · cases (Prod.mk.inj h).1
  obtain ⟨committed, hcommitted, hsite₄⟩ := onRound_ok rfl hr₄
  obtain ⟨tip, htip, rfl⟩ := commitWorktreeRound_ok hcommitted
  obtain rfl := hs₄.symm.trans hsite₄
  -- the merge
  obtain ⟨_, s₅, hask₅, h⟩ := serve_bind_ok h
  obtain ⟨hmerge, rfl⟩ := serve_askOrFail_ok hask₅
  obtain ⟨-, rfl⟩ := Prod.mk.inj h
  exact ⟨headRef, wt, noted, report, files, tip, hheadRef, hwt, hnoted, happly, htip, answer_mergeRound hmerge⟩

end Steps

/-! ### What git carries -/

section Carried

variable (git : Git) (headRef : String) (p : NvPatch)

/-- The files of the checkout after the patch, with the note of `HEAD` among them. -/
def patchedCheckout : Loc String → Option ByteArray :=
  overlay (Function.update (fun q => (git.head.lookup q).map (git.checkout git.head.lookup q)) mainPreRef.loc
    (some headRef.toByteArray)) p.effects

/-- The commit of the round. -/
def roundTip (q : Loc String) : Option ByteArray :=
  if q ∈ mainPreRef.loc :: p.locs then git.staged (patchedCheckout git headRef p) q else git.head.lookup q

/-- A file at the path is staged. -/
def Stages (q : Loc String) : Prop :=
  (git.head.lookup q).isSome ∨ git.leavesOut (patchedCheckout git headRef p) q = false

/-- What the main tree has of a file that is staged: what is checked out of its blob, unless the
blob is that of `HEAD`. -/
def givenBack (main : FsTree) (q : Loc String) (file : ByteArray) : Option ByteArray :=
  if git.head.lookup q = some (git.checkin (patchedCheckout git headRef p) q file) then main.file q
  else some (git.checkout (roundTip git headRef p) q (git.checkin (patchedCheckout git headRef p) q file))

/-- A file that the round writes is above or below the path. -/
def InTheWay (q : Loc String) : Prop :=
  ∃ u, roundTip git headRef p u ≠ git.head.lookup u ∧ (roundTip git headRef p u).isSome ∧ (Above u q ∨ Above q u)

/-- The note of `HEAD` is not staged, and what the patch writes is staged and given back as it was written, or
is in the main tree already; what it removes is tracked, or is not in the main tree. -/
structure Carried (main : FsTree) : Prop where
  noted : mainPreRef.loc ∉ p.locs → Stages git headRef p mainPreRef.loc →
    givenBack git headRef p main mainPreRef.loc headRef.toByteArray = main.file mainPreRef.loc
  written : ∀ q ∈ p.locs, ∀ file, overlay main.file p.effects q = some file →
    (Stages git headRef p q → givenBack git headRef p main q file = some file) ∧
      (¬ Stages git headRef p q → main.file q = some file)
  removed : ∀ q ∈ p.locs, overlay main.file p.effects q = none →
    (git.head.lookup q).isSome ∨ main.file q = none ∨ InTheWay git headRef p q

end Carried

/-- Not below `.git` or `.nerve`. -/
def Outside (q : Loc String) : Prop := q.head? ≠ some ".git" ∧ q.head? ≠ some ".nerve"

instance (q : Loc String) : Decidable (Outside q) := inferInstanceAs (Decidable (_ ∧ _))

section Agreement

/-- No file is above a file. -/
theorem not_above_files {t : FsTree} {u q : Loc String} (hu : (t.file u).isSome) (hq : (t.file q).isSome) :
    ¬ Above u q := by
  intro habove
  rw [Tree.file_eq_none_of_isDir (Tree.isDir_above_file habove hq)] at hu
  cases hu

theorem outside_of_safe {path : PathBuf} (h : ensureSafeRelativePath path = .ok ()) : Outside path.loc := by
  unfold ensureSafeRelativePath at h
  split_ifs at h
  rcases hfind : path.components.find? (fun c => c = .parentDir ∨ c = .rootDir) with _ | c <;> simp only [hfind] at h
  · rcases hloc : path.loc with _ | ⟨name, below⟩
    · exact ⟨nofun, nofun⟩
    · constructor
      · rintro hname
        obtain rfl : name = ".git" := by simpa using hname
        simp [hloc] at h
      · rintro hname
        obtain rfl : name = ".nerve" := by simpa using hname
        simp [hloc] at h
  · rcases c with _ | _ | _ | _ <;> cases h

theorem outside_of_validate {sha256Hex : String → String} {p : NvPatch} {t : FsTree} {q : Loc String}
    (h : p.validate sha256Hex t false = .ok ()) (hq : q ∈ p.locs) : Outside q := by
  obtain ⟨f, hf, hqf⟩ := NvPatch.mem_locs_iff.mp hq
  obtain ⟨path, hpath, rfl⟩ := List.mem_map.mp hqf
  have hsafe := (FilePatch.validate_eq_ok.mp (NvPatch.validate_eq_ok.mp h f hf)).1
  exact outside_of_safe (FilePatch.ensureSafe_eq_ok.mp hsafe path hpath)

theorem file_writeBytes {path : PathBuf} {value : ByteArray} {t t' : FsTree} (h : writeBytes path value t = (.ok (), t')) :
    t'.file = Function.update t.file path.loc (some value) := by
  have hserve := (writeBytes_refines path value t).ok h
  rcases hdir : path.endsInDir with _ | _
  · rw [Name.write_of_file hdir] at hserve
    exact (Tree.serve_ok hserve).1
  · exact absurd (show Request.refused ∈ path.name.write value by simp [Name.write, hdir]) (Tree.refused_not_mem hserve)

/-- What the steps of an apply make of the trees, in the terms of `Carried`. -/
structure Steps (git : Git) (headRef : String) (p : NvPatch) (main files inPlace main' : FsTree) : Prop where
  patched : files.file = patchedCheckout git headRef p
  inPlace : inPlace.file = overlay main.file p.effects
  changed : ∀ q, roundTip git headRef p q ≠ git.head.lookup q →
    main'.file q = (roundTip git headRef p q).map (git.checkout (roundTip git headRef p) q)
  kept : ∀ q, roundTip git headRef p q = git.head.lookup q → ¬ InTheWay git headRef p q → main'.file q = main.file q

variable {git : Git} {headRef : String} {sha256Hex : String → String} {rest : (q : Question) → q.Answer} {p : NvPatch}
  {main main' files inPlace : FsTree} {q : Loc String}

/-- What the patch leaves at a path that it names does not depend on the tree. -/
theorem overlay_locs (hq : q ∈ p.locs) (s s' : Loc String → Option ByteArray) :
    overlay s p.effects q = overlay s' p.effects q := by
  obtain ⟨f, hf, hqf⟩ := NvPatch.mem_locs_iff.mp hq
  obtain ⟨c, hc, hloc⟩ := FilePatch.exists_effect hqf
  exact overlay_congr ⟨c, List.mem_flatMap.mpr ⟨f, hf, hc⟩, hloc⟩

theorem overlay_of_not_mem_locs (hq : q ∉ p.locs) (s : Loc String → Option ByteArray) : overlay s p.effects q = s q :=
  overlay_of_forall_ne fun _ hc hloc => hq (hloc ▸ NvPatch.loc_mem_of_mem_effects hc)

theorem steps_of_applied {site : Site} {report : ApplyReport} (hgit : git.Documented)
    (hplace : p.apply sha256Hex false main = (.ok report, inPlace)) (hoid : git.prepare.headOid = .ok headRef)
    (hok : applyFinalPatchTo git sha256Hex rest (some p) true true main = (.ok true, site)) :
    ∃ files, Steps git headRef p main files inPlace site.main := by
  obtain ⟨headRef', wt, noted, report', files, tip, hheadRef, hwt, hnoted, happly, htip, hmerge⟩ := applyFinalPatchTo_ok hok
  obtain rfl : headRef = headRef' := Except.ok.inj (hoid.symm.trans hheadRef)
  have hpatched : files.file = patchedCheckout git headRef p := by
    rw [(Tree.run_ok (NvPatch.run_of_apply_ok happly).2).1, file_writeBytes hnoted, funext (hgit.checkedOut wt hwt),
      patchedCheckout]
  have hround (q : Loc String) : tip.lookup q = roundTip git headRef p q := by
    rw [hgit.committed _ _ _ htip q, hpatched, roundTip]
  obtain ⟨hchanged, hkept⟩ := hgit.forwarded tip main site.main hmerge
  rw [funext hround] at hchanged
  simp only [hround] at hchanged hkept
  refine ⟨files, hpatched, (Tree.run_ok (NvPatch.run_of_apply_ok hplace).2).1, hchanged, fun q hq hway => ?_⟩
  exact hkept q hq fun u hu hsome => ⟨fun habove => hway ⟨u, hu, hsome, Or.inl habove⟩,
    fun habove => hway ⟨u, hu, hsome, Or.inr habove⟩⟩

section Pointwise

variable (h : Steps git headRef p main files inPlace main')

include h

/-- A path that is not staged anew keeps its file, or is in the way of one that is. -/
theorem Steps.kept_or_none (hq : roundTip git headRef p q = git.head.lookup q) :
    main'.file q = main.file q ∧ ¬ InTheWay git headRef p q ∨ main'.file q = none ∧ InTheWay git headRef p q := by
  by_cases hway : InTheWay git headRef p q
  · obtain ⟨u, hu, hsome, habove⟩ := id hway
    refine .inr ⟨?_, hway⟩
    have hfile : (main'.file u).isSome := by rw [h.changed u hu, Option.isSome_map, hsome]
    by_contra hne
    have hfile' := Option.isSome_iff_ne_none.mpr hne
    rcases habove with habove | habove
    · exact not_above_files hfile hfile' habove
    · exact not_above_files hfile' hfile habove
  · exact .inl ⟨h.kept q hq hway, hway⟩

/-- A file of the checkout is in nobody's way. -/
theorem Steps.not_inTheWay (hq : (patchedCheckout git headRef p q).isSome) : ¬ InTheWay git headRef p q := by
  rintro ⟨u, hu, hsome, habove⟩
  have hmem : u ∈ mainPreRef.loc :: p.locs := by
    by_contra hmem
    exact hu (if_neg hmem)
  rw [roundTip, if_pos hmem, Git.staged] at hsome
  have hfile : (files.file u).isSome := by
    rw [h.patched]
    exact Option.isSome_of_isSome_bind hsome
  rw [← h.patched] at hq
  rcases habove with habove | habove
  · exact not_above_files hfile hq habove
  · exact not_above_files hq hfile habove

theorem Steps.kept_of_file (hq : roundTip git headRef p q = git.head.lookup q)
    (hfile : (patchedCheckout git headRef p q).isSome) : main'.file q = main.file q :=
  h.kept q hq (h.not_inTheWay hfile)

omit h in
theorem roundTip_of_file {file : ByteArray} (hq : q ∈ mainPreRef.loc :: p.locs)
    (hfile : patchedCheckout git headRef p q = some file) :
    (Stages git headRef p q → roundTip git headRef p q = some (git.checkin (patchedCheckout git headRef p) q file)) ∧
      (¬ Stages git headRef p q → roundTip git headRef p q = none ∧ git.head.lookup q = none) := by
  have htip : roundTip git headRef p q = if (git.head.lookup q).isSome || !git.leavesOut (patchedCheckout git headRef p) q
      then some (git.checkin (patchedCheckout git headRef p) q file) else none := by
    rw [roundTip, if_pos hq, Git.staged, hfile, Option.bind_some]
  rw [htip]
  constructor
  · intro hstages
    rw [if_pos]
    simpa [Stages] using hstages
  · intro hstages
    rw [Stages, not_or] at hstages
    exact ⟨if_neg (by simpa using hstages), by simpa using hstages.1⟩

/-- What the main tree has in the end of a file that the round writes. -/
theorem Steps.file_eq_of_file {file : ByteArray} (hq : q ∈ mainPreRef.loc :: p.locs)
    (hfile : patchedCheckout git headRef p q = some file) :
    (Stages git headRef p q → main'.file q = givenBack git headRef p main q file) ∧
      (¬ Stages git headRef p q → main'.file q = main.file q) := by
  have hsome : (patchedCheckout git headRef p q).isSome := by rw [hfile]; rfl
  obtain ⟨hstaged, hnot⟩ := roundTip_of_file hq hfile
  constructor
  · intro hstages
    rw [givenBack]
    split_ifs with hhead
    · exact h.kept_of_file ((hstaged hstages).trans hhead.symm) hsome
    · rw [h.changed q fun heq => hhead (heq.symm.trans (hstaged hstages)), hstaged hstages]
      rfl
  · intro hstages
    obtain ⟨htip, hhead⟩ := hnot hstages
    exact h.kept_of_file (htip.trans hhead.symm) hsome

/-- The note of `HEAD`. -/
theorem Steps.noted_iff (hb : mainPreRef.loc ∉ p.locs) : main'.file mainPreRef.loc = inPlace.file mainPreRef.loc ↔
    (Stages git headRef p mainPreRef.loc →
      givenBack git headRef p main mainPreRef.loc headRef.toByteArray = main.file mainPreRef.loc) := by
  have hfile : patchedCheckout git headRef p mainPreRef.loc = some headRef.toByteArray := by
    rw [patchedCheckout, overlay_of_not_mem_locs hb, Function.update_self]
  obtain ⟨hstaged, hnot⟩ := h.file_eq_of_file (List.mem_cons_self) hfile
  rw [h.inPlace, overlay_of_not_mem_locs hb]
  by_cases hstages : Stages git headRef p mainPreRef.loc
  · rw [hstaged hstages, imp_iff_right hstages]
  · rw [hnot hstages]
    exact iff_of_true rfl fun hstages' => absurd hstages' hstages

/-- A path that the patch names. -/
theorem Steps.named_iff (hq : q ∈ p.locs) : main'.file q = inPlace.file q ↔
    (∀ file, overlay main.file p.effects q = some file →
      (Stages git headRef p q → givenBack git headRef p main q file = some file) ∧
        (¬ Stages git headRef p q → main.file q = some file)) ∧
      (overlay main.file p.effects q = none →
        (git.head.lookup q).isSome ∨ main.file q = none ∨ InTheWay git headRef p q) := by
  have hpatched : patchedCheckout git headRef p q = overlay main.file p.effects q := overlay_locs hq _ _
  have hmem : q ∈ mainPreRef.loc :: p.locs := List.mem_cons_of_mem _ hq
  rw [h.inPlace]
  rcases hfile : overlay main.file p.effects q with _ | file
  · rw [hfile] at hpatched
    have htip : roundTip git headRef p q = none := by rw [roundTip, if_pos hmem, Git.staged, hpatched, Option.bind_none]
    simp only [reduceCtorEq, false_implies, implies_true, true_and, true_implies]
    by_cases hhead : git.head.lookup q = none
    · rw [hhead, Option.isSome_none]
      obtain ⟨hkept, hway⟩ | ⟨hnone, hway⟩ := h.kept_or_none (htip.trans hhead.symm)
      · rw [hkept]
        simp [hway]
      · exact iff_of_true hnone (.inr (.inr hway))
    · rw [h.changed q fun heq => hhead (heq.symm.trans htip), htip]
      exact iff_of_true rfl (.inl (Option.isSome_iff_ne_none.mpr hhead))
  · obtain ⟨hstaged, hnot⟩ := h.file_eq_of_file hmem (hpatched.trans hfile)
    simp only [Option.some.injEq, forall_eq', reduceCtorEq, false_implies, and_true]
    by_cases hstages : Stages git headRef p q
    · rw [hstaged hstages]
      simp [hstages]
    · rw [hnot hstages]
      simp [hstages]

/-- A path that nobody names. It matters only whether the note of `HEAD` is in its way. -/
theorem Steps.file_eq_of_not_mem (hq : q ∉ mainPreRef.loc :: p.locs)
    (hnoted : mainPreRef.loc ∉ p.locs → Stages git headRef p mainPreRef.loc →
      givenBack git headRef p main mainPreRef.loc headRef.toByteArray = main.file mainPreRef.loc) :
    main'.file q = inPlace.file q := by
  have hplace : inPlace.file q = main.file q := by
    rw [h.inPlace, overlay_of_not_mem_locs fun hmem => hq (List.mem_cons_of_mem _ hmem)]
  rw [hplace]
  obtain ⟨hkept, -⟩ | ⟨hnone, u, hu, hsome, habove⟩ := h.kept_or_none (if_neg hq)
  · exact hkept
  rw [hnone]
  by_contra hne
  have hfile : (main.file q).isSome := Option.isSome_iff_ne_none.mpr (Ne.symm hne)
  -- what is in the way is a path of the patch, which is in the way of `apply` too, or the note of `HEAD`
  by_cases hlocs : u ∈ p.locs
  · have hwritten : (inPlace.file u).isSome := by
      rw [roundTip, if_pos (List.mem_cons_of_mem _ hlocs), Git.staged] at hsome
      rw [h.inPlace, overlay_locs hlocs]
      exact Option.isSome_of_isSome_bind hsome
    rw [← hplace] at hfile
    rcases habove with habove | habove
    · exact not_above_files hwritten hfile habove
    · exact not_above_files hfile hwritten habove
  · obtain rfl : u = mainPreRef.loc := by
      by_contra hne
      exact hu (if_neg (by simp [hne, hlocs]))
    have hnote : patchedCheckout git headRef p mainPreRef.loc = some headRef.toByteArray := by
      rw [patchedCheckout, overlay_of_not_mem_locs hlocs, Function.update_self]
    obtain ⟨hstaged, hnot⟩ := roundTip_of_file List.mem_cons_self hnote
    have hstages : Stages git headRef p mainPreRef.loc := by
      by_contra hstages
      obtain ⟨htip, hhead⟩ := hnot hstages
      exact hu (htip.trans hhead.symm)
    have hback := hnoted hlocs hstages
    rw [givenBack, if_neg fun hhead => hu ((hstaged hstages).trans hhead.symm)] at hback
    have hmain : (main.file mainPreRef.loc).isSome := by rw [← hback]; rfl
    rcases habove with habove | habove
    · exact not_above_files hmain hfile habove
    · exact not_above_files hfile hmain habove

/-- All paths together. -/
theorem Steps.agree_iff (hlocs : ∀ q ∈ p.locs, Outside q) :
    (∀ q, Outside q → main'.file q = inPlace.file q) ↔ Carried git headRef p main := by
  constructor
  · intro hagree
    constructor
    · exact fun hb => (h.noted_iff hb).mp (hagree _ (by decide))
    · exact fun q hq => ((h.named_iff hq).mp (hagree q (hlocs q hq))).1
    · exact fun q hq => ((h.named_iff hq).mp (hagree q (hlocs q hq))).2
  · intro hcarried q _
    by_cases hq : q ∈ p.locs
    · exact (h.named_iff hq).mpr ⟨hcarried.written q hq, hcarried.removed q hq⟩
    by_cases hb : q = mainPreRef.loc
    · subst hb
      exact (h.noted_iff hq).mpr (hcarried.noted hq)
    · exact h.file_eq_of_not_mem (by simp [hq, hb]) hcarried.noted

end Pointwise

/-- **Where an isolated apply succeeds, it leaves what an apply in place would leave exactly if git
carries the patch and leaves the note of `HEAD` behind.** -/
theorem worktree_agrees_iff (hgit : git.Documented) {report : ApplyReport} {site : Site}
    (hplace : p.apply sha256Hex false main = (.ok report, inPlace)) (hoid : git.prepare.headOid = .ok headRef)
    (hok : applyFinalPatchTo git sha256Hex rest (some p) true true main = (.ok true, site)) :
    (∀ q, Outside q → site.main.file q = inPlace.file q) ↔ Carried git headRef p main := by
  obtain ⟨files, h⟩ := steps_of_applied hgit hplace hoid hok
  exact h.agree_iff fun q hq => outside_of_validate (NvPatch.run_of_apply_ok hplace).1 hq

end Agreement

/-! ### In an empty repository -/

/-- What the guards find where all is well. -/
def soundGuards : Guards := ⟨.ok (), .ok 1000, .ok [], .ok "8c5b"⟩

/-- A path is staged, or taken out of the index. -/
def stage (staged : Loc String → Option ByteArray) (index : Commit) (q : Loc String) : Commit :=
  match staged q with
  | some b => index.insert q b
  | none => index.erase q

theorem lookup_foldl_stage (staged : Loc String → Option ByteArray) (written : List (Loc String)) (index : Commit)
    (q : Loc String) : (written.foldl (stage staged) index).lookup q = if q ∈ written then staged q else index.lookup q := by
  induction written using List.reverseRecOn with
  | nil => rfl
  | append_singleton written u ih =>
    rw [List.foldl_append, List.foldl_cons, List.foldl_nil, stage]
    by_cases hq : q = u
    · subst hq
      rcases hstaged : staged q with _ | b
      · simp [AList.lookup_erase]
      · simp [AList.lookup_insert]
    · rcases staged u with _ | b
      · simp [AList.lookup_erase_ne hq, ih, hq]
      · simp [AList.lookup_insert_ne hq, ih, hq]

/-- A repository whose only commit is empty, with these paths in `.git/info/exclude`. -/
def emptyRepository (ignored : List (Loc String)) : Git where
  head := ∅
  leavesOut _ q := decide (q ∈ ignored)
  checkin _ _ b := b
  checkout _ _ b := b
  setup := .ok ()
  prepare := soundGuards
  merge := soundGuards
  bundle := .ok ()
  worktreeAdd := .ok .empty
  commit written wt := .ok (written.foldl (stage fun q => (wt.file q).bind fun b => if q ∈ ignored then none else some b) ∅)
  diff tip := .ok (tip.keys.map fun q => ⟨"/".intercalate q⟩)
  inspect _ := .ok ()
  revParse := .ok ()
  fastForward tip main :=
    match main.run (putBack tip.lookup tip.keys) with
    | (.ok (), main) => .ok (.ok main)
    | (.error _, _) => .ok (.error "error: untracked working tree files would be overwritten by merge")
  rewind := .ok ()

theorem file_empty (q : Loc String) : (Tree.empty : FsTree).file q = none := by
  unfold Tree.file Tree.empty
  dsimp only
  split_ifs <;> rfl

theorem emptyRepository_staged (ignored : List (Loc String)) (files : Loc String → Option ByteArray) (q : Loc String) :
    (emptyRepository ignored).staged files q = (files q).bind fun b => if q ∈ ignored then none else some b := by
  unfold Git.staged emptyRepository
  rcases files q with _ | b
  · rfl
  · by_cases hq : q ∈ ignored <;> simp [hq]

theorem emptyRepository_documented (ignored : List (Loc String)) : (emptyRepository ignored).Documented where
  checkedOut wt hwt q := by
    obtain rfl : Tree.empty = wt := Except.ok.inj hwt
    exact file_empty q
  committed written wt tip htip q := by
    obtain rfl := Except.ok.inj htip
    rw [lookup_foldl_stage, emptyRepository_staged]
    rfl
  forwarded tip main main' hmerge := by
    unfold emptyRepository at hmerge
    dsimp only at hmerge
    rcases hrun : main.run (putBack tip.lookup tip.keys) with ⟨e | _, t⟩ <;> rw [hrun] at hmerge
    · cases hmerge
    obtain rfl : t = main' := by simpa using hmerge
    have hfile (q : Loc String) : t.file q = if q ∈ tip.keys then tip.lookup q else main.file q := by
      rw [(Tree.run_ok hrun).1, overlay_putBack]
    have hkeys (q : Loc String) : q ∈ tip.keys ↔ tip.lookup q ≠ none := by
      rw [← Option.isSome_iff_ne_none, AList.lookup_isSome]
      rfl
    refine ⟨fun q hq => ?_, fun q hq _ => ?_⟩
    · rw [hfile, if_pos ((hkeys q).mpr hq)]
      exact Option.map_id'.symm
    · rw [hfile, if_neg fun hmem => (hkeys q).mp hmem hq]

/-- A patch that creates one file. -/
def createText : NvPatch := ⟨"p", none, [FilePatch.create sampleSha256Hex ⟨"c"⟩ "text\n"]⟩

theorem locs_createText : createText.locs = [["c"]] := by decide

/-- If the note is ignored, that patch is carried. -/
theorem carried_createText : Carried (emptyRepository [mainPreRef.loc]) "8c5b" createText .empty where
  noted _ hstages := by
    obtain htracked | hleft := hstages
    · cases htracked
    · exact absurd hleft (by simp [emptyRepository])
  written q hq file hfile := by
    rw [locs_createText, List.mem_singleton] at hq
    subst hq
    refine ⟨fun _ => rfl, fun hstages => absurd (Or.inr ?_) hstages⟩
    decide
  removed q hq hnone := by
    rw [locs_createText, List.mem_singleton] at hq
    subst hq
    cases hnone

/-- An apply of that patch with a worktree, in an empty repository with these paths ignored. -/
def appliedIsolated (ignored : List (Loc String)) : Except RunError Bool × Site :=
  applyFinalPatchTo (emptyRepository ignored) sampleSha256Hex (sampleWorld sampleOutput (.lgtm "codex" "LGTM") .pass [])
    (some createText) true true .empty

theorem worktree_agrees_createText : (appliedIsolated [mainPreRef.loc]).1 = .ok true ∧ ∀ q, Outside q →
    (appliedIsolated [mainPreRef.loc]).2.main.file q = (createText.apply sampleSha256Hex false .empty).2.file q := by
  have hplace : createText.apply sampleSha256Hex false .empty =
      (.ok ⟨"p", [⟨"c"⟩], false⟩, (createText.apply sampleSha256Hex false .empty).2) := Prod.ext (by decide) rfl
  have hok : appliedIsolated [mainPreRef.loc] = (.ok true, (appliedIsolated [mainPreRef.loc]).2) := Prod.ext rfl rfl
  exact ⟨congrArg Prod.fst hok,
    (worktree_agrees_iff (emptyRepository_documented [mainPreRef.loc]) hplace rfl hok).mpr carried_createText⟩

/-- **The note of `HEAD` is committed and merged.** The repository is clean, and the patch applies in it. -/
theorem note_is_merged : (emptyRepository []).Documented ∧ (emptyRepository []).Clean .empty ∧
    (createText.apply sampleSha256Hex false .empty).1.isOk = true ∧ (appliedIsolated []).1 = .ok true ∧
      ¬ ∀ q, Outside q → (appliedIsolated []).2.main.file q = (createText.apply sampleSha256Hex false .empty).2.file q := by
  refine ⟨emptyRepository_documented [], nofun, by decide, rfl, fun h => ?_⟩
  have hnote : (appliedIsolated []).2.main.file mainPreRef.loc = some "8c5b".toByteArray := rfl
  have hplace : (createText.apply sampleSha256Hex false .empty).2.file mainPreRef.loc = none := by decide
  have hsame := h mainPreRef.loc (by decide)
  rw [hnote, hplace] at hsame
  cases hsame

end Nerve.Worktree
