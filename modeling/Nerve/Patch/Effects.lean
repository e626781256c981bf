import Nerve.Library.TreeRequests
import Nerve.Patch.Model

/-!
# A patch as a list of effects

Applying an entry is one or two effects on the tree, and so is undoing it (`FilePatch.effects`,
`FilePatch.undoEffects`), if no path of it asks for a directory (`FilePatch.Plain`). In any case it is
a list of requests, by the names that the paths are (`FilePatch.requests`, `FilePatch.undoRequests`).
`Refines` says that an operation of the model ends as serving requests does, in the same tree and
with an error exactly when that has one; the loops of `apply`, `rollback` and `restoreSnapshots`
refine the requests of their entries one after another. What validation establishes about the tree
is here too, and with it that a patch that is applied is plain (`NvPatch.plain_of_apply_ok`).
-/

namespace Nerve.Patch

open Nerve.FileTree

/-! ### Refinement -/

/-- The operation ends as the requests do. -/
def Refines (r : Outcome Unit) : Except IoErrorKind Unit × FsTree → Prop
  | (.ok (), t) => r = (.ok (), t)
  | (.error _, t) => ∃ e, r = (.error e, t)

section Refinement

variable {r : Outcome Unit} {t t' : FsTree} {R R' : List (Request String ByteArray)}

theorem Refines.ok (h : Refines r (t.serve R)) (hr : r = (.ok (), t')) : t.serve R = (.ok (), t') := by
  rcases hx : t.serve R with ⟨_ | ⟨⟩, t₁⟩
  · rw [hx] at h
    obtain ⟨e, he⟩ := h
    rw [hr] at he
    cases he
  · rw [hx] at h
    rw [hr] at h
    cases h
    rfl

theorem Refines.error {e : PatchError} (h : Refines r (t.serve R)) (hr : r = (.error e, t')) :
    ∃ k, t.serve R = (.error k, t') := by
  rcases hx : t.serve R with ⟨k | ⟨⟩, t₁⟩
  · rw [hx] at h
    obtain ⟨e', he⟩ := h
    rw [hr] at he
    cases he
    exact ⟨k, rfl⟩
  · rw [hx] at h
    rw [hr] at h
    cases h

theorem refines_of_serve_ok (h : Refines r (t.serve R)) (hx : t.serve R = (.ok (), t')) : r = (.ok (), t') := by
  rw [hx] at h
  exact h

theorem Refines.andThen {k : FsTree → Outcome Unit} (h : Refines r (t.serve R))
    (hk : ∀ t', Refines (k t') (t'.serve R')) : Refines (r.andThen k) (t.serve (R ++ R')) := by
  rcases hx : t.serve R with ⟨e | ⟨⟩, t₁⟩
  · rw [Tree.serve, inOrder_append_error hx]
    rw [hx] at h
    obtain ⟨e', rfl⟩ := h
    exact ⟨e', rfl⟩
  · rw [Tree.serve, inOrder_append hx]
    rw [hx] at h
    rw [show r = (.ok (), t₁) from h]
    exact hk t₁

/-- A loop refines the requests of its steps. -/
theorem forEach_refines {α : Type} {step : α → FsTree → Outcome Unit} {f : α → List (Request String ByteArray)}
    (h : ∀ x t, Refines (step x t) (t.serve (f x))) (xs : List α) (t : FsTree) :
    Refines (forEach step xs t) (t.serve (xs.flatMap f)) := by
  induction xs generalizing t with
  | nil => rfl
  | cons x xs ih =>
    rw [forEach, List.flatMap_cons]
    exact (h x t).andThen ih

end Refinement

/-- A path as the system takes it. -/
def PathBuf.name (p : PathBuf) : Name String := ⟨p.loc, p.endsInDir⟩

@[simp] theorem PathBuf.name_loc (p : PathBuf) : p.name.loc = p.loc := rfl
@[simp] theorem PathBuf.name_asksDir (p : PathBuf) : p.name.asksDir = p.endsInDir := rfl

theorem fsRename_of_endsInDir {p : PathBuf} (h : p.endsInDir = true) (value : ByteArray) (t : FsTree) :
    ∃ k, fsRename value p t = .error k := by
  unfold fsRename
  rw [if_neg (by simp [h])]
  split
  · exact ⟨_, rfl⟩
  · split <;> exact ⟨_, rfl⟩

theorem writeBytes_refines (p : PathBuf) (value : ByteArray) (t : FsTree) :
    Refines (writeBytes p value t) (t.serve (p.name.write value)) := by
  unfold writeBytes Name.write
  rcases hdir : p.endsInDir with _ | _
  · have hrename (t₁ : FsTree) : fsRename value p t₁ = t₁.replace p.loc value := if_pos (by simp [hdir])
    simp only [PathBuf.name_asksDir, PathBuf.name_loc, hdir, Bool.false_eq_true, if_false, Tree.serve_cons, Tree.ask,
      Tree.exec, hrename]
    rcases h : t.createDirAll p.loc.dropLast with k | t₁
    · exact ⟨_, rfl⟩
    · rcases h' : t₁.replace p.loc value with k | t₂
      · have := Tree.eq_of_replace_error h h'
        subst this
        simp only [h']
        exact ⟨_, rfl⟩
      · simp only [h']
        rfl
  · simp only [PathBuf.name_asksDir, PathBuf.name_loc, hdir, if_true, Tree.serve_cons, Tree.ask]
    rcases t.createDirAll p.loc.dropLast with k | t₁
    · exact ⟨_, rfl⟩
    · obtain ⟨k, hk⟩ := fsRename_of_endsInDir hdir value t₁
      simp only [hk]
      exact ⟨_, rfl⟩

theorem removeFile_refines (p : PathBuf) (t : FsTree) : Refines (removeFile p t) (t.serve [p.name.clear]) := by
  unfold removeFile fsRemoveFile Name.clear
  rcases hdir : p.endsInDir with _ | _
  · simp only [PathBuf.name_asksDir, PathBuf.name_loc, hdir, Bool.false_eq_true, if_false, Tree.serve_cons, Tree.ask,
      Tree.exec]
    rcases t.unlink p.loc with (_ | _ | _ | _ | _) | t₁
    all_goals first | rfl | exact ⟨_, rfl⟩
  · simp only [PathBuf.name_asksDir, PathBuf.name_loc, hdir, if_true, Tree.serve_cons, Tree.ask, Tree.unlink]
    -- a file is not found either, and what is not there is removed
    by_cases hd : t.isDir p.loc = true
    · simp only [hd, dite_true, if_true]
      exact ⟨_, rfl⟩
    · simp only [hd, dite_false, Bool.false_eq_true, if_false]
      split_ifs <;> rfl

/-! ### Effects of entries -/

namespace FilePatch

/-- What applying the entry asks for. -/
def requests (f : FilePatch) : List (Request String ByteArray) :=
  match f.operation with
  | .delete => [f.path.name.clear]
  | .rename origin => f.path.name.write f.modified.toByteArray ++ [origin.name.clear]
  | .modify | .create => f.path.name.write f.modified.toByteArray

/-- What undoing the entry asks for. -/
def undoRequests (f : FilePatch) : List (Request String ByteArray) :=
  match f.operation with
  | .create => [f.path.name.clear]
  | .rename origin => origin.name.write f.original.toByteArray ++ [f.path.name.clear]
  | .modify | .delete => f.path.name.write f.original.toByteArray

theorem apply_refines (f : FilePatch) (t : FsTree) : Refines (f.apply t) (t.serve f.requests) := by
  rcases ho : f.operation with _ | _ | _ | origin <;> simp only [apply, requests, ho]
  · exact writeBytes_refines _ _ t
  · exact writeBytes_refines _ _ t
  · exact removeFile_refines _ t
  · exact (writeBytes_refines _ _ t).andThen (removeFile_refines origin)

theorem rollback_refines (f : FilePatch) (t : FsTree) : Refines (f.rollback t) (t.serve f.undoRequests) := by
  rcases ho : f.operation with _ | _ | _ | origin <;> simp only [rollback, undoRequests, ho]
  · exact writeBytes_refines _ _ t
  · exact removeFile_refines _ t
  · exact writeBytes_refines _ _ t
  · exact (writeBytes_refines _ _ t).andThen (removeFile_refines f.path)

/-- An entry has its own path and, if it is a rename, the path of the origin. -/
theorem mem_changedPaths {f : FilePatch} {p : PathBuf} :
    p ∈ f.changedPaths ↔ p = f.path ∨ f.operation = .rename p := by
  unfold changedPaths
  rcases f.operation with _ | _ | _ | origin <;> simp [eq_comm, or_comm]

theorem path_mem (f : FilePatch) : f.path ∈ f.changedPaths := mem_changedPaths.mpr (Or.inl rfl)

theorem origin_mem {f : FilePatch} {origin : PathBuf} (ho : f.operation = .rename origin) : origin ∈ f.changedPaths :=
  mem_changedPaths.mpr (Or.inr ho)

/-- Everything that applying the entry asks for is asked for under one of its paths. -/
theorem asks_of_mem_requests {f : FilePatch} {r : Request String ByteArray} (h : r ∈ f.requests) :
    ∃ path ∈ f.changedPaths, path.name.Asks r := by
  rcases ho : f.operation with _ | _ | _ | origin <;> simp only [requests, ho] at h
  · exact ⟨f.path, f.path_mem, Or.inl ⟨_, h⟩⟩
  · exact ⟨f.path, f.path_mem, Or.inl ⟨_, h⟩⟩
  · exact ⟨f.path, f.path_mem, Or.inr (List.mem_singleton.mp h)⟩
  · rcases List.mem_append.mp h with h | h
    · exact ⟨f.path, f.path_mem, Or.inl ⟨_, h⟩⟩
    · exact ⟨origin, origin_mem ho, Or.inr (List.mem_singleton.mp h)⟩

/-- No path of the entry asks for a directory. -/
def Plain (f : FilePatch) : Prop := ∀ p ∈ f.changedPaths, p.endsInDir = false

theorem Plain.path {f : FilePatch} (h : f.Plain) : f.path.endsInDir = false := h f.path f.path_mem

theorem Plain.origin {f : FilePatch} {origin : PathBuf} (h : f.Plain) (ho : f.operation = .rename origin) :
    origin.endsInDir = false := h origin (origin_mem ho)

/-- What applying the entry changes, where it is plain. -/
def effects (f : FilePatch) : List (Effect String ByteArray) :=
  match f.operation with
  | .delete => [.clear f.path.loc]
  | .rename origin => [.write f.path.loc f.modified.toByteArray, .clear origin.loc]
  | .modify | .create => [.write f.path.loc f.modified.toByteArray]

/-- What undoing the entry changes, where it is plain. -/
def undoEffects (f : FilePatch) : List (Effect String ByteArray) :=
  match f.operation with
  | .create => [.clear f.path.loc]
  | .rename origin => [.write origin.loc f.original.toByteArray, .clear f.path.loc]
  | .modify | .delete => [.write f.path.loc f.original.toByteArray]

theorem requests_of_plain {f : FilePatch} (h : f.Plain) : f.requests = f.effects.map .change := by
  rcases ho : f.operation with _ | _ | _ | origin <;> simp only [requests, effects, ho]
  · exact Name.write_of_file h.path _
  · exact Name.write_of_file h.path _
  · exact congrArg ([·]) (Name.clear_of_file h.path)
  · rw [Name.write_of_file h.path, Name.clear_of_file (h.origin ho)]
    rfl

theorem undoRequests_of_plain {f : FilePatch} (h : f.Plain) : f.undoRequests = f.undoEffects.map .change := by
  rcases ho : f.operation with _ | _ | _ | origin <;> simp only [undoRequests, undoEffects, ho]
  · exact Name.write_of_file h.path _
  · exact congrArg ([·]) (Name.clear_of_file h.path)
  · exact Name.write_of_file h.path _
  · rw [Name.write_of_file (h.origin ho), Name.clear_of_file h.path]
    rfl

/-- The locations the entry names. -/
def locs (f : FilePatch) : List (Loc String) := f.changedPaths.map PathBuf.loc

theorem mem_locs_iff {f : FilePatch} {q : Loc String} :
    q ∈ f.locs ↔ q = f.path.loc ∨ ∃ origin, f.operation = .rename origin ∧ q = origin.loc := by
  constructor
  · intro h
    obtain ⟨p, hp, rfl⟩ := List.mem_map.mp h
    exact (mem_changedPaths.mp hp).imp (congrArg PathBuf.loc) fun ho => ⟨p, ho, rfl⟩
  · rintro (rfl | ⟨origin, ho, rfl⟩)
    · exact List.mem_map_of_mem f.path_mem
    · exact List.mem_map_of_mem (origin_mem ho)

theorem loc_mem_of_mem_effects {f : FilePatch} {c : Effect String ByteArray} (h : c ∈ f.effects) :
    c.loc ∈ f.locs := by
  rw [mem_locs_iff]
  rcases ho : f.operation with _ | _ | _ | origin <;>
    simp only [effects, ho, List.mem_cons, List.not_mem_nil, or_false] at h
  · exact Or.inl (by rw [h, Effect.loc_write])
  · exact Or.inl (by rw [h, Effect.loc_write])
  · exact Or.inl (by rw [h, Effect.loc_clear])
  · exact h.imp (fun h => by rw [h, Effect.loc_write]) fun h => ⟨origin, rfl, by rw [h, Effect.loc_clear]⟩

theorem loc_mem_of_mem_undoEffects {f : FilePatch} {c : Effect String ByteArray} (h : c ∈ f.undoEffects) :
    c.loc ∈ f.locs := by
  rw [mem_locs_iff]
  rcases ho : f.operation with _ | _ | _ | origin <;>
    simp only [undoEffects, ho, List.mem_cons, List.not_mem_nil, or_false] at h
  · exact Or.inl (by rw [h, Effect.loc_write])
  · exact Or.inl (by rw [h, Effect.loc_clear])
  · exact Or.inl (by rw [h, Effect.loc_write])
  · exact h.symm.imp (fun h => by rw [h, Effect.loc_clear]) fun h => ⟨origin, rfl, by rw [h, Effect.loc_write]⟩

end FilePatch

/-! ### Reading -/

theorem fromUTF8?_eq_some {b : ByteArray} {s : String} : String.fromUTF8? b = some s ↔ b = s.toByteArray := by
  unfold String.fromUTF8?
  constructor
  · intro h
    split_ifs at h with hv
    · cases h
      rfl
  · rintro rfl
    rw [dif_pos s.isValidUTF8]
    rfl

/-- A path reads as `s` when it names a file that holds `s`, or when nothing is there and `s` is empty. -/
theorem readToString_eq_ok {t : FsTree} {p : PathBuf} {s : String} :
    readToString t p = .ok s ↔ p.endsInDir = false ∧ t.file p.loc = some s.toByteArray ∨
      s = "" ∧ t.exists? p.loc = false ∧ t.blocked p.loc = false := by
  unfold readToString fsRead Tree.read Tree.exists? Tree.file
  rcases hn : t.node p.loc with _ | b | _
  · rcases hb : t.blocked p.loc <;> simp [@eq_comm _ "" s]
  · have hiff : some b = some s.toByteArray ↔ String.fromUTF8? b = some s := by
      rw [fromUTF8?_eq_some, Option.some.injEq]
    rcases hdir : p.endsInDir
    · simp only [hiff, Bool.false_eq_true, if_false, true_and]
      rcases String.fromUTF8? b with _ | s' <;> simp
    · simp
  · simp

theorem not_isDir_of_readToString {t : FsTree} {p : PathBuf} {s : String} (h : readToString t p = .ok s) :
    t.isDir p.loc = false := by
  rw [Bool.eq_false_iff]
  intro hd
  rcases readToString_eq_ok.mp h with ⟨-, hf⟩ | ⟨-, he, -⟩
  · rw [Tree.file_eq_none_of_isDir hd] at hf
    cases hf
  · rw [Tree.exists?_iff.mpr (Or.inl hd)] at he
    cases he

/-- Where a directory stands something exists, however it is named. -/
theorem targetExists_of_isDir {t : FsTree} {p : PathBuf} (h : t.isDir p.loc = true) : targetExists t p = true := by
  unfold targetExists
  split_ifs
  · exact h
  · exact Tree.exists?_iff.mpr (Or.inl h)

/-- Under a name that asks for a directory nothing else is found. -/
theorem isDir_of_targetExists {t : FsTree} {p : PathBuf} (hp : p.endsInDir = true) (h : targetExists t p = true) :
    t.isDir p.loc = true := by
  rwa [targetExists, if_pos hp] at h

theorem targetExists_of_file {t : FsTree} {p : PathBuf} (hp : p.endsInDir = false) :
    targetExists t p = t.exists? p.loc := if_neg (by simp [hp])

/-! ### What validation establishes -/

section Validation

variable {sha256Hex : String → String}

namespace FilePatch

theorem validate_eq_ok {f : FilePatch} {t : FsTree} {rollback : Bool} :
    f.validate sha256Hex t rollback = .ok () ↔ f.ensureSafe = .ok () ∧ f.validateOperationState t rollback = .ok () ∧
      ∃ current, readToString t (f.validationPath rollback) = .ok current ∧
        sha256Hex current = if rollback then f.modifiedSha256 else f.originalSha256 := by
  unfold validate
  rcases f.ensureSafe with e | ⟨⟨⟩⟩
  · simp
  rcases f.validateOperationState t rollback with e | ⟨⟨⟩⟩
  · simp
  rcases readToString t (f.validationPath rollback) with e | current
  · simp
  · simp

theorem ensureSafe_eq_ok {f : FilePatch} :
    f.ensureSafe = .ok () ↔ ∀ p ∈ f.changedPaths, ensureSafeRelativePath p = .ok () := by
  unfold ensureSafe changedPaths
  rcases f.operation with _ | _ | _ | origin
  all_goals rcases h : ensureSafeRelativePath f.path with e | ⟨⟨⟩⟩ <;> simp [h]

/-- An entry that validates names no directory. -/
theorem not_isDir_of_validate {f : FilePatch} {t : FsTree} (h : f.validate sha256Hex t false = .ok ()) :
    ∀ p ∈ f.changedPaths, t.isDir p.loc = false := by
  obtain ⟨-, hs, current, hr, -⟩ := validate_eq_ok.mp h
  have hd := not_isDir_of_readToString hr
  rcases ho : f.operation with _ | _ | _ | origin <;>
    simp only [changedPaths, validationPath, validateOperationState, ho, List.mem_cons, List.not_mem_nil, or_false,
      forall_eq_or_imp, forall_eq] at hd hs ⊢
  · exact hd
  · exact hd
  · exact hd
  · refine ⟨hd, Bool.eq_false_iff.mpr fun hdir => ?_⟩
    split_ifs at hs with _ hex
    exact hex (targetExists_of_isDir hdir)

/-- A validated entry is plain, unless it asks for what is always refused. -/
theorem plain_of_validate {f : FilePatch} {t : FsTree} (h : f.validate sha256Hex t false = .ok ())
    (hrefused : .refused ∉ f.requests) : f.Plain := by
  obtain ⟨-, hs, current, hr, -⟩ := validate_eq_ok.mp h
  have hd := not_isDir_of_readToString hr
  have hwrite {p : PathBuf} {b : ByteArray} (hp : .refused ∉ p.name.write b) : p.endsInDir = false := by
    rw [Bool.eq_false_iff]
    intro hdir
    simp [Name.write, hdir] at hp
  -- what is to be there, and is read, is no directory
  have hfound {p : PathBuf} (hex : targetExists t p = true) (hp : t.isDir p.loc = false) : p.endsInDir = false := by
    rw [Bool.eq_false_iff]
    intro hdir
    rw [isDir_of_targetExists hdir hex] at hp
    cases hp
  rcases ho : f.operation with _ | _ | _ | origin <;>
    simp only [Plain, changedPaths, requests, validationPath, validateOperationState, ho, List.mem_cons, List.not_mem_nil,
      or_false, forall_eq_or_imp, forall_eq, List.mem_append, not_or] at hd hs hrefused ⊢
  · exact hwrite hrefused
  · exact hwrite hrefused
  · split_ifs at hs with hex
    exact hfound (by simpa using hex) hd
  · split_ifs at hs with hex _
    exact ⟨hfound (by simpa using hex) hd, hwrite hrefused.1⟩

end FilePatch

namespace NvPatch

/-- What applying the patch asks for. -/
def requests (p : NvPatch) : List (Request String ByteArray) := p.files.flatMap FilePatch.requests

/-- What undoing the patch asks for. -/
def undoRequests (p : NvPatch) : List (Request String ByteArray) := p.files.flatMap FilePatch.undoRequests

/-- No path of the patch asks for a directory. -/
def Plain (p : NvPatch) : Prop := ∀ f ∈ p.files, f.Plain

/-- What applying the patch changes, where it is plain. -/
def effects (p : NvPatch) : List (Effect String ByteArray) := p.files.flatMap FilePatch.effects

/-- What undoing the patch changes, where it is plain. -/
def undoEffects (p : NvPatch) : List (Effect String ByteArray) := p.files.flatMap FilePatch.undoEffects

theorem serve_requests {p : NvPatch} (h : p.Plain) (t : FsTree) : t.serve p.requests = t.run p.effects := by
  rw [← Tree.serve_map_change, requests, effects, List.map_flatMap]
  exact congrArg t.serve (List.flatMap_congr fun f hf => FilePatch.requests_of_plain (h f hf))

theorem serve_undoRequests {p : NvPatch} (h : p.Plain) (t : FsTree) : t.serve p.undoRequests = t.run p.undoEffects := by
  rw [← Tree.serve_map_change, undoRequests, undoEffects, List.map_flatMap]
  exact congrArg t.serve (List.flatMap_congr fun f hf => FilePatch.undoRequests_of_plain (h f hf))

/-- The names of the paths, in the order of the snapshots. -/
def names (p : NvPatch) : List (Name String) := p.changedFiles.map PathBuf.name

/-- The locations the patch names, in the order of its snapshots. -/
def locs (p : NvPatch) : List (Loc String) := p.changedFiles.map PathBuf.loc

theorem locs_eq (p : NvPatch) : p.locs = p.files.flatMap FilePatch.locs := by
  rw [locs, changedFiles, List.map_flatMap]
  rfl

theorem validate_eq_ok {p : NvPatch} {t : FsTree} {rollback : Bool} :
    p.validate sha256Hex t rollback = .ok () ↔ ∀ f ∈ p.files, f.validate sha256Hex t rollback = .ok () := by
  unfold validate
  induction p.files with
  | nil => simp [List.forM, pure, Except.pure]
  | cons f fs ih =>
    rw [List.forM, List.forall_mem_cons, ← ih]
    rcases f.validate sha256Hex t rollback with e | ⟨⟨⟩⟩ <;> simp [bind, Except.bind]

theorem loc_mem_of_mem_effects {p : NvPatch} {c : Effect String ByteArray} (h : c ∈ p.effects) :
    c.loc ∈ p.locs := by
  obtain ⟨f, hf, hc⟩ := List.mem_flatMap.mp h
  rw [locs_eq]
  exact List.mem_flatMap.mpr ⟨f, hf, FilePatch.loc_mem_of_mem_effects hc⟩

/-- A patch that validates names no directory. -/
theorem not_isDir_of_validate {p : NvPatch} {t : FsTree} (h : p.validate sha256Hex t false = .ok ()) :
    ∀ q ∈ p.locs, t.isDir q = false := by
  intro q hq
  rw [locs_eq, List.mem_flatMap] at hq
  obtain ⟨f, hf, hq⟩ := hq
  obtain ⟨path, hp, rfl⟩ := List.mem_map.mp hq
  exact FilePatch.not_isDir_of_validate (validate_eq_ok.mp h f hf) path hp

end NvPatch

end Validation

end Nerve.Patch
