import Nerve.Patch.Effects
import Mathlib.Data.List.Nodup
import Mathlib.Data.List.Pairwise

/-!
# When rollback undoes apply

`apply` validates every entry against the tree it finds, `rollback` every entry against the tree
`apply` left, and both do the entries in the same order. So what decides for each location is the
last entry that names it: what that entry leaves there is what every other entry naming the location
is checked against, and what it puts back is what the location ends with. `rollback_inverse_iff`
says exactly when rollback succeeds and restores every file (`Reversible`): the last entry leaves
what the others expect; it is not a modification of a file that was missing, which undoes to an
empty file (`modify_missing_leaves_empty`); and no rename goes below a path that was a file, which
the rename has made a directory.

`apply` takes snapshots and puts them back when an entry fails; `rollback` has none.
`rollback_atomic_iff` says when a rollback that fails leaves every file as it was: what it did
before the first request that something bars must be nothing (`UndoesNothingFirst`). A rename whose
old directory has become a file is found too late (`rollback_stops_halfway`), and so is a path that
asks for a directory.
-/

namespace Nerve.Patch

open Nerve.FileTree

namespace FilePatch

/-- What the entry leaves at a location it names. -/
def after (f : FilePatch) : Loc String → Option ByteArray := overlay (fun _ => none) f.effects

/-- What undoing the entry leaves at a location it names. -/
def undone (f : FilePatch) : Loc String → Option ByteArray := overlay (fun _ => none) f.undoEffects

/-- The content `c` at `q` is what rollback of the entry is to find there: its
modified text, a missing file reading as empty, and nothing at the source of a rename. -/
def Accepts (f : FilePatch) (q : Loc String) (c : Option ByteArray) : Prop :=
  (q = f.path.loc → c = some f.modified.toByteArray ∨ c = none ∧ f.modified = "") ∧
    ∀ origin, f.operation = .rename origin → q = origin.loc → c = none

theorem loc_of_write {f : FilePatch} {c : Effect String ByteArray} (h : c ∈ f.effects) (hc : c.content.isSome) :
    c.loc = f.path.loc := by
  rcases ho : f.operation with _ | _ | _ | origin <;>
    simp only [effects, ho, List.mem_cons, List.not_mem_nil, or_false] at h
  · rw [h, Effect.loc_write]
  · rw [h, Effect.loc_write]
  · rw [h, Effect.loc_clear]
  · rcases h with rfl | rfl
    · rfl
    · cases hc

theorem exists_effect {f : FilePatch} {q : Loc String} (h : q ∈ f.locs) : ∃ c ∈ f.effects, c.loc = q := by
  rw [mem_locs_iff] at h
  rcases ho : f.operation with _ | _ | _ | origin <;> simpa [effects, ho, eq_comm] using h

theorem exists_undoEffect {f : FilePatch} {q : Loc String} (h : q ∈ f.locs) :
    ∃ c ∈ f.undoEffects, c.loc = q := by
  rw [mem_locs_iff] at h
  rcases ho : f.operation with _ | _ | _ | origin <;> simpa [undoEffects, ho, eq_comm, or_comm] using h

end FilePatch

/-! ### The last entry naming a location -/

/-- Among the elements with a property there is a last one. -/
theorem exists_last {α : Type} {P : α → Prop} {l : List α} (h : ∃ x ∈ l, P x) :
    ∃ pre x post, l = pre ++ x :: post ∧ P x ∧ ∀ y ∈ post, ¬ P y := by
  induction l with
  | nil => simp at h
  | cons a l ih =>
    by_cases hl : ∃ x ∈ l, P x
    · obtain ⟨pre, x, post, rfl, hx, hpost⟩ := ih hl
      exact ⟨a :: pre, x, post, rfl, hx, hpost⟩
    · obtain ⟨x, hx, hP⟩ := h
      rcases List.mem_cons.mp hx with rfl | hx
      · exact ⟨[], x, l, rfl, hP, fun y hy hPy => hl ⟨y, hy, hPy⟩⟩
      · exact absurd ⟨x, hx, hP⟩ hl

/-- The last entry to name a location decides what a run over the entries leaves there. -/
theorem overlay_flatMap_last {g : FilePatch → List (Effect String ByteArray)} {pre post : List FilePatch}
    {f : FilePatch} {q : Loc String} (s s' : Loc String → Option ByteArray)
    (hg : ∀ f, ∀ c ∈ g f, c.loc ∈ f.locs) (hf : ∃ c ∈ g f, c.loc = q) (hpost : ∀ f' ∈ post, q ∉ f'.locs) :
    overlay s ((pre ++ f :: post).flatMap g) q = overlay s' (g f) q := by
  rw [List.flatMap_append, List.flatMap_cons, overlay_append, overlay_append, overlay_of_forall_ne]
  · exact overlay_congr hf
  · intro c hc hloc
    obtain ⟨f', hf', hc⟩ := List.mem_flatMap.mp hc
    exact hpost f' hf' (hloc ▸ hg f' c hc)

namespace NvPatch

/-- No rename of the patch goes below a path that is a file. -/
def RenamesBesideFiles (p : NvPatch) (t : FsTree) : Prop :=
  ∀ f ∈ p.files, ∀ origin, f.operation = .rename origin → ∀ u, Above u f.path.loc → t.file u = none

/-- The condition under which rollback undoes apply. -/
def Reversible (p : NvPatch) (t : FsTree) : Prop :=
  p.RenamesBesideFiles t ∧
    ∀ pre f post, p.files = pre ++ f :: post → ∀ q ∈ f.locs, (∀ f' ∈ post, q ∉ f'.locs) →
      (f.operation = .modify → (t.file q).isSome) ∧ ∀ g ∈ p.files, q ∈ g.locs → g.Accepts q (f.after q)

end NvPatch

/-! ### What validation says of an entry -/

section Validated

variable {sha256Hex : String → String} (hsha : Function.Injective sha256Hex)
include hsha

namespace FilePatch

omit hsha in
theorem Built.sha256 {f : FilePatch} (h : f.Built sha256Hex) :
    f.originalSha256 = sha256Hex f.original ∧ f.modifiedSha256 = sha256Hex f.modified := by
  cases h <;> exact ⟨rfl, rfl⟩

/-- The entry found its original text. -/
theorem reads_original {f : FilePatch} {t : FsTree} (hb : f.Built sha256Hex)
    (h : f.validate sha256Hex t false = .ok ()) : readToString t (f.validationPath false) = .ok f.original := by
  obtain ⟨-, -, current, hr, hc⟩ := validate_eq_ok.mp h
  rw [if_neg Bool.false_ne_true, hb.sha256.1] at hc
  rw [hr, hsha hc]

/-- A validated entry is told by what its locations hold. -/
theorem file_of_validate {f : FilePatch} {t : FsTree} (hb : f.Built sha256Hex) (hplain : f.Plain)
    (h : f.validate sha256Hex t false = .ok ()) :
    match f.operation with
    | .modify => t.file f.path.loc = some f.original.toByteArray ∨ t.file f.path.loc = none ∧ f.original = ""
    | .create => t.file f.path.loc = none
    | .delete => t.file f.path.loc = some f.original.toByteArray
    | .rename origin => t.file origin.loc = some f.original.toByteArray ∧ t.file f.path.loc = none := by
  have hr := readToString_eq_ok.mp (reads_original hsha hb h)
  obtain ⟨-, hs, -⟩ := validate_eq_ok.mp h
  have hpath := targetExists_of_file (t := t) hplain.path
  have hnone {p : PathBuf} (hp : t.exists? p.loc = false) : t.file p.loc = none := by
    by_contra hne
    rw [Tree.exists?_iff.mpr (Or.inr (Option.isSome_iff_ne_none.mpr hne))] at hp
    cases hp
  rcases ho : f.operation with _ | _ | _ | origin <;>
    simp only [validationPath, validateOperationState, hpath, ho] at hr hs ⊢
  · exact hr.imp And.right fun hr => ⟨hnone hr.2.1, hr.1⟩
  · rcases he : t.exists? f.path.loc
    · exact hnone he
    · simp [he] at hs
  · rcases he : t.exists? f.path.loc
    · simp [he] at hs
    · exact (hr.resolve_right fun hr => by simp [he] at hr).2
  · rw [targetExists_of_file (hplain.origin ho)] at hs
    rcases he : t.exists? origin.loc
    · simp [he] at hs
    rcases he' : t.exists? f.path.loc
    · exact ⟨(hr.resolve_right fun hr => by simp [he] at hr).2, hnone he'⟩
    · simp [he, he'] at hs

/-- Undoing puts back what was there, except after modifying a missing file. -/
theorem undone_eq_iff {f : FilePatch} {t : FsTree} (hb : f.Built sha256Hex) (hplain : f.Plain)
    (h : f.validate sha256Hex t false = .ok ()) {q : Loc String} (hq : q ∈ f.locs) :
    f.undone q = t.file q ↔ (f.operation = .modify → (t.file q).isSome) := by
  have hf := file_of_validate hsha hb hplain h
  rw [mem_locs_iff] at hq
  rcases ho : f.operation with _ | _ | _ | origin <;>
    simp only [ho, undone, undoEffects, reduceCtorEq, false_and, exists_false, or_false, false_imp_iff, iff_true,
      overlay_cons, overlay_nil, Effect.loc_write, Effect.loc_clear, Effect.content_write, Effect.content_clear,
      FileOperation.rename.injEq, exists_eq_left', true_imp_iff] at hf hq ⊢
  · subst hq
    rcases hf with hf | ⟨hf, -⟩ <;> simp [hf]
  · subst hq
    simp [hf]
  · subst hq
    simp [hf]
  · by_cases hne : q = f.path.loc
    · subst hne
      simp [hf.2]
    · obtain rfl := hq.resolve_left hne
      simp [hne, hf.1]

/-- An entry writes the locations it names that hold no file. -/
theorem writes_of_file_eq_none {f : FilePatch} {t : FsTree} (hb : f.Built sha256Hex) (hplain : f.Plain)
    (h : f.validate sha256Hex t false = .ok ()) {q : Loc String} (hq : q ∈ f.locs) (hnone : t.file q = none) :
    ∀ c ∈ f.effects, c.loc = q → c.content.isSome := by
  have hf := file_of_validate hsha hb hplain h
  rw [mem_locs_iff] at hq
  rcases ho : f.operation with _ | _ | _ | origin <;>
    simp only [ho, effects, List.mem_cons, List.not_mem_nil, or_false, forall_eq, forall_eq_or_imp, reduceCtorEq,
      false_and, exists_false, Effect.loc_write, Effect.loc_clear, Effect.content_write, Effect.content_clear,
      Option.isSome_some, Option.isSome_none, implies_true, Bool.false_eq_true, imp_false, true_and] at hf hq ⊢
  · subst hq
    rw [hf] at hnone
    cases hnone
  · rintro rfl
    rw [hf.1] at hnone
    cases hnone

/-- Nothing stands in the way of a write, but for the target of a rename. -/
theorem not_above_file {f : FilePatch} {t : FsTree} (hb : f.Built sha256Hex)
    (h : f.validate sha256Hex t false = .ok ()) (hno : ∀ origin, f.operation ≠ .rename origin) {u : Loc String}
    (hu : Above u f.path.loc) : t.file u = none := by
  have hr := readToString_eq_ok.mp (reads_original hsha hb h)
  have hpath : f.validationPath false = f.path := by
    rcases ho : f.operation with _ | _ | _ | origin <;> simp_all [validationPath]
  rw [hpath] at hr
  rcases hr with ⟨-, hr⟩ | ⟨-, -, hblocked⟩
  · exact Tree.file_eq_none_of_isDir (Tree.isDir_above_file hu (by rw [hr]; rfl))
  · by_contra hne
    rw [Tree.blocked_iff.mpr ⟨u, hu, Option.isSome_iff_ne_none.mpr hne⟩] at hblocked
    cases hblocked

/-- With its locations off directories and below directories only, an entry may be
rolled back when they hold what it accepts. -/
theorem validate_rollback_iff {f : FilePatch} {t : FsTree} (hb : f.Built sha256Hex) (hplain : f.Plain)
    (hsafe : f.ensureSafe = .ok ()) (hd : ∀ q ∈ f.locs, t.isDir q = false)
    (habove : ∀ q ∈ f.locs, ∀ u, Above u q → t.isDir u = true) :
    f.validate sha256Hex t true = .ok () ↔ ∀ q ∈ f.locs, f.Accepts q (t.file q) := by
  have hexists {q : Loc String} (hq : q ∈ f.locs) : t.exists? q = false ↔ t.file q = none := by
    rw [Bool.eq_false_iff, ne_eq, Tree.exists?_iff, hd q hq]
    simp
  have hpath : f.path.loc ∈ f.locs := mem_locs_iff.mpr (Or.inl rfl)
  have htext : (∃ current, readToString t (f.validationPath true) = .ok current ∧
        sha256Hex current = if true then f.modifiedSha256 else f.originalSha256) ↔
      (t.file f.path.loc = some f.modified.toByteArray ∨ t.file f.path.loc = none ∧ f.modified = "") := by
    have hp : f.validationPath true = f.path := by unfold validationPath; split <;> simp_all
    simp only [if_true, hp, hb.sha256.2, hsha.eq_iff, exists_eq_right, readToString_eq_ok, hplain.path, hexists hpath,
      Tree.not_blocked (habove _ hpath), and_true, true_and]
    rw [and_comm (a := f.modified = "")]
  have hstate : f.validateOperationState t true = .ok () ↔
      ∀ origin, f.operation = .rename origin → t.file origin.loc = none := by
    rcases ho : f.operation with _ | _ | _ | origin <;> simp only [validateOperationState, ho, reduceCtorEq,
      false_imp_iff, implies_true, FileOperation.rename.injEq, forall_eq']
    rw [← hexists (mem_locs_iff.mpr (Or.inr ⟨origin, ho, rfl⟩)), targetExists_of_file (hplain.origin ho)]
    by_cases he : t.exists? origin.loc = true <;> simp [he]
  rw [validate_eq_ok, htext, hstate]
  constructor
  · rintro ⟨-, ho, ht⟩ q hq
    exact ⟨fun h => h ▸ ht, fun origin horigin h => h ▸ ho origin horigin⟩
  · intro h
    refine ⟨hsafe, fun origin ho => ?_, (h _ hpath).1 rfl⟩
    exact (h _ (mem_locs_iff.mpr (Or.inr ⟨origin, ho, rfl⟩))).2 origin ho rfl

end FilePatch

end Validated

/-! ### What apply leaves -/

namespace NvPatch

variable {sha256Hex : String → String}

theorem serve_of_apply_ok {p : NvPatch} {t t₁ : FsTree} {r : ApplyReport}
    (h : p.apply sha256Hex false t = (.ok r, t₁)) :
    p.validate sha256Hex t false = .ok () ∧ t.serve p.requests = (.ok (), t₁) := by
  have hrefines := forEach_refines FilePatch.apply_refines p.files t
  unfold apply at h
  rcases hv : p.validate sha256Hex t false with e | ⟨⟨⟩⟩ <;> simp only [hv, Bool.false_eq_true, if_false] at h
  · cases h
  rcases hc : p.captureSnapshots t with e | snapshots <;> simp only [hc] at h
  · cases h
  rcases hf : forEach FilePatch.apply p.files t with ⟨e | ⟨⟨⟩⟩, t'⟩ <;> simp only [hf] at h
  · rcases hr : restoreSnapshots snapshots t' with ⟨e' | ⟨⟨⟩⟩, t''⟩ <;> simp only [hr] at h <;> cases h
  · cases h
    exact ⟨rfl, hrefines.ok hf⟩

/-- A patch that is applied is plain: under a path that asks for a directory nothing is deleted, renamed
or written. -/
theorem plain_of_apply_ok {p : NvPatch} {t t₁ : FsTree} {r : ApplyReport}
    (h : p.apply sha256Hex false t = (.ok r, t₁)) : p.Plain := by
  obtain ⟨hv, hserve⟩ := serve_of_apply_ok h
  intro f hf
  refine FilePatch.plain_of_validate (validate_eq_ok.mp hv f hf) fun hrefused => ?_
  exact Tree.refused_not_mem hserve (List.mem_flatMap.mpr ⟨f, hf, hrefused⟩)

theorem run_of_apply_ok {p : NvPatch} {t t₁ : FsTree} {r : ApplyReport}
    (h : p.apply sha256Hex false t = (.ok r, t₁)) :
    p.validate sha256Hex t false = .ok () ∧ t.run p.effects = (.ok (), t₁) := by
  obtain ⟨hv, hserve⟩ := serve_of_apply_ok h
  exact ⟨hv, by rwa [← serve_requests (plain_of_apply_ok h)]⟩

theorem rollback_ok_iff {p : NvPatch} (hplain : p.Plain) {t t' : FsTree} :
    (∃ r, p.rollback sha256Hex false t = (.ok r, t')) ↔
      p.validate sha256Hex t true = .ok () ∧ t.run p.undoEffects = (.ok (), t') := by
  have hrefines := forEach_refines FilePatch.rollback_refines p.files t
  rw [← serve_undoRequests hplain, undoRequests]
  unfold rollback
  rcases hv : p.validate sha256Hex t true with e | ⟨⟨⟩⟩
  · simp
  constructor
  · rintro ⟨r, h⟩
    rcases hf : forEach FilePatch.rollback p.files t with ⟨e | ⟨⟨⟩⟩, t₁⟩ <;>
      simp only [hf, Bool.false_eq_true, if_false] at h <;> cases h
    exact ⟨rfl, hrefines.ok hf⟩
  · rintro ⟨-, h⟩
    simp [refines_of_serve_ok hrefines h]

theorem mem_locs_iff {p : NvPatch} {q : Loc String} : q ∈ p.locs ↔ ∃ f ∈ p.files, q ∈ f.locs := by
  rw [locs_eq, List.mem_flatMap]

/-- The last entry to name a location. -/
theorem exists_last_entry {p : NvPatch} {q : Loc String} (hq : q ∈ p.locs) :
    ∃ pre f post, p.files = pre ++ f :: post ∧ q ∈ f.locs ∧ ∀ f' ∈ post, q ∉ f'.locs :=
  exists_last (mem_locs_iff.mp hq)

/-- The content of a location after a run is what the last entry naming it leaves. -/
theorem overlay_effects {p : NvPatch} {pre post : List FilePatch} {f : FilePatch} {q : Loc String}
    (s : Loc String → Option ByteArray) (hp : p.files = pre ++ f :: post) (hq : q ∈ f.locs)
    (hpost : ∀ f' ∈ post, q ∉ f'.locs) : overlay s p.effects q = f.after q := by
  rw [effects, hp]
  exact overlay_flatMap_last _ _ (fun _ _ => FilePatch.loc_mem_of_mem_effects) (FilePatch.exists_effect hq) hpost

theorem overlay_undoEffects {p : NvPatch} {pre post : List FilePatch} {f : FilePatch} {q : Loc String}
    (s : Loc String → Option ByteArray) (hp : p.files = pre ++ f :: post) (hq : q ∈ f.locs)
    (hpost : ∀ f' ∈ post, q ∉ f'.locs) : overlay s p.undoEffects q = f.undone q := by
  rw [undoEffects, hp]
  exact overlay_flatMap_last _ _ (fun _ _ => FilePatch.loc_mem_of_mem_undoEffects) (FilePatch.exists_undoEffect hq)
    hpost

theorem loc_mem_of_mem_undoEffects {p : NvPatch} {c : Effect String ByteArray} (h : c ∈ p.undoEffects) :
    c.loc ∈ p.locs := by
  obtain ⟨f, hf, hc⟩ := List.mem_flatMap.mp h
  exact mem_locs_iff.mpr ⟨f, hf, FilePatch.loc_mem_of_mem_undoEffects hc⟩

/-- A run back that restores every file shows that no rename went below one. -/
theorem renamesBesideFiles_of_restored {p : NvPatch} {t t₁ t₂ : FsTree} (hrun : t.run p.effects = (.ok (), t₁))
    (hundo : t₁.run p.undoEffects = (.ok (), t₂)) (hfile : t₂.file = t.file) : p.RenamesBesideFiles t := by
  intro f hf origin ho u hu
  have hlands : Lands p.effects u :=
    ⟨.write f.path.loc f.modified.toByteArray, List.mem_flatMap.mpr ⟨f, hf, by simp [FilePatch.effects, ho]⟩, rfl, hu⟩
  rw [← hfile]
  exact Tree.file_eq_none_of_isDir (Tree.isDir_run hundo (((Tree.run_ok hrun).2 u).mpr (Or.inr hlands)))

section Applied

variable (hsha : Function.Injective sha256Hex) {p : NvPatch} (built : ∀ f ∈ p.files, f.Built sha256Hex)
  (hplain : p.Plain) {t t₁ : FsTree} (hv : p.validate sha256Hex t false = .ok ())
  (hrun : t.run p.effects = (.ok (), t₁))
include hsha built hplain hv hrun

omit hrun in
/-- The run writes a named location that held no file, and nothing else. -/
theorem written_of_file_eq_none {q : Loc String} (hq : q ∈ p.locs) (hnone : t.file q = none) :
    (∃ c ∈ p.effects, c.loc = q) ∧ ∀ c ∈ p.effects, c.loc = q → c.content.isSome := by
  constructor
  · obtain ⟨f, hf, hqf⟩ := mem_locs_iff.mp hq
    obtain ⟨c, hc, hloc⟩ := FilePatch.exists_effect hqf
    exact ⟨c, List.mem_flatMap.mpr ⟨f, hf, hc⟩, hloc⟩
  · rintro c hc rfl
    obtain ⟨f, hf, hcf⟩ := List.mem_flatMap.mp hc
    exact FilePatch.writes_of_file_eq_none hsha (built f hf) (hplain f hf) (validate_eq_ok.mp hv f hf)
      (FilePatch.loc_mem_of_mem_effects hcf) hnone c hcf rfl

/-- Where no rename goes below a file, the run turns no named location into a directory. -/
theorem not_isDir_after (hbeside : p.RenamesBesideFiles t) {q : Loc String} (hq : q ∈ p.locs) :
    t₁.isDir q = false := by
  rw [Bool.eq_false_iff, ne_eq, (Tree.run_ok hrun).2, not_isDir_of_validate hv q hq]
  simp only [Bool.false_eq_true, false_or]
  by_cases hnone : t.file q = none
  · obtain ⟨hex, hw⟩ := written_of_file_eq_none hsha built hplain hv hq hnone
    exact Tree.not_lands_of_written hrun hex hw
  · rintro ⟨c, hc, hsome, habove⟩
    obtain ⟨f, hf, hcf⟩ := List.mem_flatMap.mp hc
    -- a write is at the path of its entry
    have hloc : c.loc = f.path.loc := FilePatch.loc_of_write hcf hsome
    rw [hloc] at habove
    by_cases ho : ∃ origin, f.operation = .rename origin
    · obtain ⟨origin, ho⟩ := ho
      exact hnone (hbeside f hf origin ho q habove)
    · exact hnone (FilePatch.not_above_file hsha (built f hf) (validate_eq_ok.mp hv f hf)
        (not_exists.mp ho) habove)

/-- Above every named location is a directory afterwards. -/
theorem isDir_above_after {q u : Loc String} (hq : q ∈ p.locs) (hu : Above u q) : t₁.isDir u = true := by
  by_cases hnone : t.file q = none
  · obtain ⟨⟨c, hc, rfl⟩, hw⟩ := written_of_file_eq_none hsha built hplain hv hq hnone
    exact ((Tree.run_ok hrun).2 u).mpr (Or.inr ⟨c, hc, hw c hc rfl, hu⟩)
  · exact Tree.isDir_run hrun (Tree.isDir_above_file hu (Option.isSome_iff_ne_none.mpr hnone))

/-- Where no rename goes below a file, the patch may be rolled back when every location
holds what the entries naming it accept. -/
theorem validate_rollback_iff (hbeside : p.RenamesBesideFiles t) :
    p.validate sha256Hex t₁ true = .ok () ↔ ∀ g ∈ p.files, ∀ q ∈ g.locs, g.Accepts q (t₁.file q) := by
  rw [validate_eq_ok]
  refine forall₂_congr fun g hg => ?_
  have hmem : ∀ q ∈ g.locs, q ∈ p.locs := fun q hq => mem_locs_iff.mpr ⟨g, hg, hq⟩
  exact FilePatch.validate_rollback_iff hsha (built g hg) (hplain g hg)
    (FilePatch.validate_eq_ok.mp (validate_eq_ok.mp hv g hg)).1
    (fun q hq => not_isDir_after hsha built hplain hv hrun hbeside (hmem q hq))
    (fun q hq u hu => isDir_above_after hsha built hplain hv hrun (hmem q hq) hu)

end Applied

end NvPatch

/-! ### The result -/

/-- **Apply and rollback**: after an apply that succeeds, rollback succeeds and restores every file
exactly when the patch is reversible on the tree it was applied to. -/
theorem rollback_inverse_iff {sha256Hex : String → String} (hsha : Function.Injective sha256Hex) {p : NvPatch}
    (built : ∀ f ∈ p.files, f.Built sha256Hex) {t t₁ : FsTree} {r : ApplyReport}
    (h : p.apply sha256Hex false t = (.ok r, t₁)) :
    (∃ r' t₂, p.rollback sha256Hex false t₁ = (.ok r', t₂) ∧ t₂.file = t.file) ↔ p.Reversible t := by
  obtain ⟨hv, hrun⟩ := NvPatch.run_of_apply_ok h
  have hplain := NvPatch.plain_of_apply_ok h
  have hfile₁ : t₁.file = overlay t.file p.effects := (Tree.run_ok hrun).1
  constructor
  · rintro ⟨r', t₂, hrollback, hfile⟩
    obtain ⟨hv₁, hundo⟩ := (NvPatch.rollback_ok_iff hplain).mp ⟨r', hrollback⟩
    have hbeside := NvPatch.renamesBesideFiles_of_restored hrun hundo hfile
    refine ⟨hbeside, fun pre f post hp q hq hpost => ?_⟩
    have hf : f ∈ p.files := by simp [hp]
    constructor
    · rw [← FilePatch.undone_eq_iff hsha (built f hf) (hplain f hf) (NvPatch.validate_eq_ok.mp hv f hf) hq,
        ← NvPatch.overlay_undoEffects t₁.file hp hq hpost, ← (Tree.run_ok hundo).1, hfile]
    · intro g hg hqg
      have haccepts := (NvPatch.validate_rollback_iff hsha built hplain hv hrun hbeside).mp hv₁ g hg q hqg
      rwa [hfile₁, NvPatch.overlay_effects t.file hp hq hpost] at haccepts
  · rintro ⟨hbeside, hlast⟩
    have hv₁ : p.validate sha256Hex t₁ true = .ok () := by
      rw [NvPatch.validate_rollback_iff hsha built hplain hv hrun hbeside]
      intro g hg q hqg
      obtain ⟨pre, f, post, hp, hq, hpost⟩ := NvPatch.exists_last_entry (NvPatch.mem_locs_iff.mpr ⟨g, hg, hqg⟩)
      rw [hfile₁, NvPatch.overlay_effects t.file hp hq hpost]
      exact (hlast pre f post hp q hq hpost).2 g hg hqg
    obtain ⟨t₂, hundo, hfile₂, -⟩ := Tree.run_of_settled
      (fun c hc => NvPatch.not_isDir_after hsha built hplain hv hrun hbeside (NvPatch.loc_mem_of_mem_undoEffects hc))
      (fun c hc _ u hu => NvPatch.isDir_above_after hsha built hplain hv hrun (NvPatch.loc_mem_of_mem_undoEffects hc) hu)
    obtain ⟨r', hr'⟩ := (NvPatch.rollback_ok_iff hplain).mpr ⟨hv₁, hundo⟩
    refine ⟨r', t₂, hr', ?_⟩
    rw [hfile₂]
    funext q
    by_cases hq : q ∈ p.locs
    · obtain ⟨pre, f, post, hp, hq, hpost⟩ := NvPatch.exists_last_entry hq
      have hf : f ∈ p.files := by simp [hp]
      rw [NvPatch.overlay_undoEffects t₁.file hp hq hpost,
        FilePatch.undone_eq_iff hsha (built f hf) (hplain f hf) (NvPatch.validate_eq_ok.mp hv f hf) hq]
      exact (hlast pre f post hp q hq hpost).1
    · have hundone : ∀ c ∈ p.undoEffects, c.loc ≠ q := fun c hc he => hq (he ▸ NvPatch.loc_mem_of_mem_undoEffects hc)
      have hdone : ∀ c ∈ p.effects, c.loc ≠ q := fun c hc he => hq (he ▸ NvPatch.loc_mem_of_mem_effects hc)
      rw [overlay_of_forall_ne hundone, hfile₁, overlay_of_forall_ne hdone]

/-- What an entry leaves is what it accepts, if it names no location twice. -/
theorem FilePatch.accepts_after {sha256Hex : String → String} {f : FilePatch} (hb : f.Built sha256Hex)
    (hlocs : f.locs.Nodup) {q : Loc String} (hq : q ∈ f.locs) : f.Accepts q (f.after q) := by
  rw [mem_locs_iff] at hq
  cases hb with
  | new path original modified =>
    obtain rfl : q = path.loc := by simpa [FilePatch.new, withOperation] using hq
    simp [Accepts, after, effects, FilePatch.new, withOperation]
  | create path modified =>
    obtain rfl : q = path.loc := by simpa [FilePatch.create, withOperation] using hq
    simp [Accepts, after, effects, FilePatch.create, withOperation]
  | delete path original =>
    obtain rfl : q = path.loc := by simpa [FilePatch.delete, withOperation] using hq
    simp [Accepts, after, effects, FilePatch.delete, withOperation]
  | rename origin target original modified =>
    have hne : origin.loc ≠ target.loc := by simpa [locs, changedPaths, FilePatch.rename, withOperation] using hlocs
    constructor
    · rintro rfl
      simp [after, effects, FilePatch.rename, withOperation, hne.symm]
    · rintro _ ⟨⟩ rfl
      simp [after, effects, FilePatch.rename, withOperation]

/-- A patch that names each location once is reversible, if what it modifies is there and no rename goes
below a file. -/
theorem NvPatch.reversible_of_nodup {sha256Hex : String → String} {p : NvPatch} {t : FsTree}
    (built : ∀ f ∈ p.files, f.Built sha256Hex) (hlocs : p.locs.Nodup) (hbeside : p.RenamesBesideFiles t)
    (hmodified : ∀ f ∈ p.files, f.operation = .modify → (t.file f.path.loc).isSome) : p.Reversible t := by
  rw [locs_eq, List.nodup_flatMap] at hlocs
  refine ⟨hbeside, fun pre f post hp q hq _ => ⟨fun ho => ?_, fun g hg hqg => ?_⟩⟩
  · obtain rfl : q = f.path.loc := by simpa [FilePatch.mem_locs_iff, ho] using hq
    exact hmodified f (by simp [hp]) ho
  · -- one entry names the location
    have hf : f ∈ p.files := by simp [hp]
    have : Std.Symm (Function.onFun List.Disjoint FilePatch.locs) := ⟨fun _ _ h => List.disjoint_symm h⟩
    obtain rfl : g = f := by
      by_contra hne
      exact hlocs.2.forall hg hf hne hqg hq
    exact FilePatch.accepts_after (built g hg) (hlocs.1 g hg) hqg

/-- One file is rewritten, one moved, one deleted and one created. -/
def fourEntries : NvPatch where
  id := "patch"
  baseCommit := none
  files := [.new sampleSha256Hex ⟨"c"⟩ "text\n" "line\n", .rename sampleSha256Hex ⟨"d/f"⟩ ⟨"e/g"⟩ "text\n" "line\n",
    .delete sampleSha256Hex ⟨"h"⟩ "line\n", .create sampleSha256Hex ⟨"a/b"⟩ "text\n"]

/-- A tree that they validate on. -/
def threeFiles : FsTree :=
  (writeString ⟨"h"⟩ "line\n" (writeString ⟨"d/f"⟩ "text\n" (writeString ⟨"c"⟩ "text\n" Tree.empty).2).2).2

theorem rollback_inverse_iff_fourEntries :
    ∃ r t₁, fourEntries.apply sampleSha256Hex false threeFiles = (.ok r, t₁) ∧
      ∃ r' t₂, fourEntries.rollback sampleSha256Hex false t₁ = (.ok r', t₂) ∧ t₂.file = threeFiles.file := by
  have built : ∀ f ∈ fourEntries.files, f.Built sampleSha256Hex := by
    simp only [fourEntries, List.forall_mem_cons]
    exact ⟨.new _ _ _, .rename _ _ _ _, .delete _ _, .create _ _, nofun⟩
  have happly : (fourEntries.apply sampleSha256Hex false threeFiles).1 =
      .ok ⟨"patch", fourEntries.changedFiles, false⟩ := by decide +kernel
  have hbeside : fourEntries.RenamesBesideFiles threeFiles := by
    have hempty : ∀ k < 2, threeFiles.file ((PathBuf.mk "e/g").loc.take k) = none := by decide +kernel
    intro f hf origin ho u hu
    obtain ⟨k, hk, rfl⟩ := above_iff.mp hu
    simp only [fourEntries, List.mem_cons, List.not_mem_nil, or_false] at hf
    rcases hf with rfl | rfl | rfl | rfl <;> cases ho
    exact hempty k hk
  refine ⟨_, _, Prod.ext happly rfl, (rollback_inverse_iff sampleSha256Hex_injective built (Prod.ext happly rfl)).mpr ?_⟩
  exact NvPatch.reversible_of_nodup built (by decide +kernel) hbeside (by decide +kernel)

/-! ### Patches that are not reversible -/

/-- A modification of a file that is not there. -/
def modifyMissing : NvPatch where
  id := "patch"
  baseCommit := none
  files := [.new sampleSha256Hex ⟨"a"⟩ "" "text\n"]

/-- Rollback leaves the empty file `a` where there was none. -/
theorem modify_missing_leaves_empty :
    ¬ ∀ (sha256Hex : String → String) (p : NvPatch) (t t₁ : FsTree) (r : ApplyReport),
      Function.Injective sha256Hex → (∀ f ∈ p.files, f.Built sha256Hex) →
      p.apply sha256Hex false t = (.ok r, t₁) →
      ∃ r' t₂, p.rollback sha256Hex false t₁ = (.ok r', t₂) ∧ t₂.file = t.file := by
  intro h
  rcases ha : modifyMissing.apply sampleSha256Hex false Tree.empty with ⟨r, t₁⟩
  have hr : (modifyMissing.apply sampleSha256Hex false Tree.empty).1.isOk = true := by decide
  rcases r with e | r
  · rw [ha] at hr
    cases hr
  · have built : ∀ f ∈ modifyMissing.files, f.Built sampleSha256Hex := by
      intro f hf
      rw [List.mem_singleton.mp hf]
      exact .new _ _ _
    obtain ⟨r', t₂, hrollback, hfile⟩ := h sampleSha256Hex modifyMissing Tree.empty t₁ r sampleSha256Hex_injective built ha
    have hstays : ((modifyMissing.rollback sampleSha256Hex false
        (modifyMissing.apply sampleSha256Hex false Tree.empty).2).2.file ["a"]).isSome := by
      decide
    rw [ha, hrollback, hfile] at hstays
    exact absurd hstays (by decide)

/-! ### When a rollback fails -/

/-- What is undone before the first request that something bars leaves every file as it is. -/
def NvPatch.UndoesNothingFirst (p : NvPatch) (t : FsTree) : Prop :=
  ∀ done r rest, p.undoRequests = done ++ r :: rest → t.Serves done → t.BarsAfter done r →
    overlay t.file (changes done) = t.file

/-- A rollback that validates and fails leaves what it had done up to the request that something bars. -/
theorem NvPatch.rollback_error_iff {sha256Hex : String → String} {p : NvPatch} {t t' : FsTree}
    (hv : p.validate sha256Hex t true = .ok ()) :
    (∃ e, p.rollback sha256Hex false t = (.error e, t')) ↔ ∃ k, t.serve p.undoRequests = (.error k, t') := by
  have hrefines := forEach_refines FilePatch.rollback_refines p.files t
  unfold rollback
  rw [hv]
  rcases hf : forEach FilePatch.rollback p.files t with ⟨e | ⟨⟨⟩⟩, t₁⟩
  · obtain ⟨k, hk⟩ := hrefines.error hf
    rw [show p.undoRequests = p.files.flatMap FilePatch.undoRequests from rfl, hk]
    simp
  · rw [show p.undoRequests = p.files.flatMap FilePatch.undoRequests from rfl, hrefines.ok hf]
    simp

/-- **A rollback that fails leaves every file as it was, just if it undoes nothing before it fails.** -/
theorem rollback_atomic_iff (sha256Hex : String → String) (p : NvPatch) (t : FsTree) :
    (∀ e t', p.rollback sha256Hex false t = (.error e, t') → t'.file = t.file) ↔
      (p.validate sha256Hex t true = .ok () → p.UndoesNothingFirst t) := by
  constructor
  · intro h hv done r rest hsplit hserves hbars
    obtain ⟨t', ht'⟩ := Tree.exists_serve_iff.mpr hserves
    obtain ⟨k, hk⟩ := Tree.serve_stop rest ht' ((Tree.bars_iff_after ht' r).mpr hbars)
    rw [← hsplit] at hk
    obtain ⟨e, he⟩ := (NvPatch.rollback_error_iff hv).mpr ⟨k, hk⟩
    rw [← (Tree.serve_ok ht').1]
    exact h e t' he
  · intro h e t' he
    rcases hv : p.validate sha256Hex t true with e' | ⟨⟨⟩⟩
    · simp only [NvPatch.rollback, hv] at he
      cases he
      rfl
    · obtain ⟨k, hk⟩ := (NvPatch.rollback_error_iff hv).mp ⟨e, he⟩
      obtain ⟨done, r, rest, hsplit, hdone, hbars⟩ := Tree.serve_error hk
      rw [(Tree.serve_ok hdone).1]
      exact h hv done r rest hsplit (Tree.exists_serve_iff.mp ⟨t', hdone⟩) hbars

/-- A modification of `c`, and a rename of `d/f` to `e`. -/
def modifyThenRename : NvPatch where
  id := "patch"
  baseCommit := none
  files := [.new sampleSha256Hex ⟨"c"⟩ "line\n" "text\n", .rename sampleSha256Hex ⟨"d/f"⟩ ⟨"e"⟩ "text\n" "text\n"]

/-- The tree it leaves, but for the directory `d`, which has become a file. -/
def fileForDirectory : FsTree :=
  (writeString ⟨"d"⟩ "text\n" (writeString ⟨"e"⟩ "text\n" (writeString ⟨"c"⟩ "text\n" Tree.empty).2).2).2

/-- The rename cannot be undone, and `c` has its old text by then. -/
theorem rollback_stops_halfway :
    ¬ ∀ (sha256Hex : String → String) (p : NvPatch) (t : FsTree) (e : PatchError) (t' : FsTree),
      p.rollback sha256Hex false t = (.error e, t') → t'.file = t.file := by
  intro h
  rcases hr : modifyThenRename.rollback sampleSha256Hex false fileForDirectory with ⟨r, t'⟩
  have hfails : (modifyThenRename.rollback sampleSha256Hex false fileForDirectory).1.isOk = false := by decide +kernel
  rcases r with e | r
  · have hfile := congrFun (h sampleSha256Hex modifyThenRename fileForDirectory e t' hr) ["c"]
    have hold : (modifyThenRename.rollback sampleSha256Hex false fileForDirectory).2.file ["c"] =
        some "line\n".toByteArray := by
      decide +kernel
    rw [hr, hfile] at hold
    exact absurd hold (by decide +kernel)
  · rw [hr] at hfails
    cases hfails

/-- A modification of `c`, and one of `n/`, where nothing is. -/
def modifyBesideDirectory : NvPatch where
  id := "patch"
  baseCommit := none
  files := [.new sampleSha256Hex ⟨"c"⟩ "line\n" "text\n", .new sampleSha256Hex ⟨"n/"⟩ "line\n" ""]

/-- The old text of `n/` cannot be written, and `c` has its own by then. -/
example :
    let t := (writeString ⟨"c"⟩ "text\n" Tree.empty).2
    (modifyBesideDirectory.rollback sampleSha256Hex false t).1 = .error (.io ⟨"n/"⟩ .notADirectory) ∧
      (modifyBesideDirectory.rollback sampleSha256Hex false t).2.file ["c"] = some "line\n".toByteArray := by
  decide +kernel

end Nerve.Patch
