import Nerve.Store.Model

/-!
# A stored patch and its records

`apply_patch` changes the working tree first and the records after it: the record in the patch index, then
the report of the session. An update of the records can be refused, because the patch is not in the
index, the index or the report cannot be read, a lock is left over, or the disk is full; the tree is
not put back then (`unindexed_patch_applied`). `changePatch_inStep_iff` says of every store exactly when
tree and records stay in step, with applying and rolling back as its two cases (`inStep_iff`).
-/

namespace Nerve.Store

open Nerve.Patch

/-! ### In step -/

/-- The record of the patch in the index. -/
def recordOf (w : Workspace) (id : String) : Option PatchRecord :=
  match loadIndex w with
  | .error _ => none
  | .ok index => index.patches.find? fun record => record.id = id

/-- The report of the session, if there is one, can be read and says so. -/
def SessionSays (w : Workspace) (sessionId : String) (applied : Bool) : Prop :=
  exists? w .sessions (jsonName sessionId) = true →
    ∃ r, readJson w .sessions (jsonName sessionId) Stored.asReport = .ok r ∧ r.report.applied = applied

/-- What `changePatch` returns agrees with what it leaves: the tree changed and both records say so,
or everything as it was. -/
structure InStep (change : NvPatch → FsTree → Outcome ApplyReport) (applied : Bool) (id : String) (w : Workspace)
    (r : Result ApplyReport) : Prop where
  ok : ∀ report, r.1 = .ok report → ∃ patch record, loadPatch w id = .ok patch ∧
    change patch w.tree = (.ok report, r.2.tree) ∧ recordOf r.2 id = some record ∧ record.applied = applied ∧
    SessionSays r.2 record.sessionId applied
  error : ∀ e, r.1 = .error e → r.2.tree = w.tree ∧ ∀ dir name, r.2.files.read dir name = w.files.read dir name

/-- The record that the update of the index changes, if it is made. -/
def marked (disk : Disk) (w : Workspace) (id : String) : Option PatchRecord :=
  match lockIndex disk w with
  | .error _ => none
  | .ok () => if disk .patches indexName then recordOf w id else none

/-- The update of the session's report is made, or there is none to make. -/
def SessionFollows (disk : Disk) (w : Workspace) (sessionId : String) : Prop :=
  exists? w .sessions (jsonName sessionId) = true →
    (∃ r, readJson w .sessions (jsonName sessionId) Stored.asReport = .ok r) ∧ disk .sessions (jsonName sessionId) = true

/-- The patch is not there, or it fails and leaves the tree alone, or it succeeds and both records follow; or
nothing changes in any of the three. -/
def Follows (change : NvPatch → FsTree → Outcome ApplyReport) (applied : Bool) (disk : Disk) (id : String)
    (w : Workspace) : Prop :=
  ∀ patch, loadPatch w id = .ok patch →
    match change patch w.tree with
    | (.error _, tree) => tree = w.tree
    | (.ok _, tree) =>
      (∃ record, marked disk w id = some record ∧ SessionFollows disk w record.sessionId) ∨
        tree = w.tree ∧ ∀ record, marked disk w id = some record → record.applied = applied

/-! ### The updates of the records -/

section Records

variable {disk : Disk} {w w' : Workspace} {id : String} {applied : Bool} {dir dir' : Dir} {name name' : String}
  {stored : Stored}

theorem read_writeJson (h : writeJson w dir name disk stored = (.ok (), w')) : disk dir name = true ∧ w'.tree = w.tree ∧
    ∀ dir' name', w'.files.read dir' name' = if dir' = dir ∧ name' = name then some stored
      else w.files.read dir' name' := by
  unfold writeJson at h
  split_ifs at h with hdisk
  · obtain ⟨-, rfl⟩ := Prod.mk.inj h
    exact ⟨hdisk, rfl, fun _ _ => FileStore.read_write⟩
  · cases (Prod.mk.inj h).1

theorem writeJson_error {e : StoreError} (h : writeJson w dir name disk stored = (.error e, w')) :
    disk dir name = false ∧ w' = w := by
  unfold writeJson at h
  split_ifs at h with hdisk
  · cases (Prod.mk.inj h).1
  · exact ⟨by simpa using hdisk, (Prod.mk.inj h).2.symm⟩

/-- Readers see no difference between stores that hold the same in the file. -/
theorem readJson_congr {α : Type} {reads : Stored → Option α} (h : w'.files.read dir name = w.files.read dir name) :
    readJson w' dir name reads = readJson w dir name reads := by
  unfold readJson
  rw [h]

theorem exists?_congr (h : w'.files.read dir name = w.files.read dir name) :
    exists? w' dir name = exists? w dir name := by
  unfold exists?
  rw [h]

theorem loadIndex_congr (h : w'.files.read .patches indexName = w.files.read .patches indexName) :
    loadIndex w' = loadIndex w := by
  unfold loadIndex
  rw [exists?_congr h, readJson_congr h]

theorem recordOf_congr (h : w'.files.read .patches indexName = w.files.read .patches indexName) :
    recordOf w' id = recordOf w id := by
  unfold recordOf
  rw [loadIndex_congr h]

theorem find?_markRecord {record : PatchRecord} : ∀ {records : List PatchRecord},
    (records.find? fun record => record.id = id) = some record →
    ((markRecord id applied records).find? fun record => record.id = id) = some { record with applied := applied }
  | [], h => by cases h
  | first :: records, h => by
    by_cases hfirst : first.id = id
    · have hrecord : first = record := by simpa [hfirst] using h
      simp [markRecord, hfirst, ← hrecord]
    · have hrest : (records.find? fun record => record.id = id) = some record := by simpa [hfirst] using h
      simp [markRecord, hfirst, find?_markRecord hrest]

/-- A record that says so already is left as it is. -/
theorem markRecord_eq_self_iff {record : PatchRecord} : ∀ {records : List PatchRecord},
    (records.find? fun record => record.id = id) = some record →
    (markRecord id applied records = records ↔ record.applied = applied)
  | [], h => by cases h
  | first :: records, h => by
    by_cases hfirst : first.id = id
    · have hrecord : first = record := by simpa [hfirst] using h
      rw [markRecord, if_pos hfirst, hrecord]
      constructor
      · intro heq
        have hsame : { record with applied := applied } = record := (List.cons.inj heq).1
        rw [← hsame]
      · rintro rfl
        rfl
    · have hrest : (records.find? fun record => record.id = id) = some record := by simpa [hfirst] using h
      rw [markRecord, if_neg hfirst, ← markRecord_eq_self_iff hrest]
      simp

variable (applied) in
/-- The session's report is updated where it follows, and nothing else changes. -/
theorem setSessionApplied_ok {sessionId : String} (h : SessionFollows disk w sessionId) :
    ∃ w', setSessionApplied disk sessionId applied w = (.ok (), w') ∧ w'.tree = w.tree ∧
      w'.files.read .patches indexName = w.files.read .patches indexName ∧ SessionSays w' sessionId applied := by
  unfold setSessionApplied
  by_cases hexists : exists? w .sessions (jsonName sessionId) = true
  · obtain ⟨⟨r, hr⟩, hdisk⟩ := h hexists
    rw [if_pos hexists, hr]
    dsimp only
    rw [writeJson, if_pos hdisk]
    refine ⟨_, rfl, rfl, FileStore.read_write.trans (if_neg (by simp)), fun _ => ?_⟩
    refine ⟨{ r with report := { r.report with applied := applied } }, ?_, rfl⟩
    rw [readJson, FileStore.read_write, if_pos ⟨rfl, rfl⟩]
    rfl
  · rw [if_neg hexists]
    exact ⟨w, rfl, rfl, rfl, fun h => absurd h hexists⟩

variable (applied) in
/-- Where it does not follow, it stays. -/
theorem setSessionApplied_error {sessionId : String} (h : ¬ SessionFollows disk w sessionId) :
    ∃ e, setSessionApplied disk sessionId applied w = (.error e, w) := by
  unfold SessionFollows at h
  rw [Classical.not_imp, not_and] at h
  obtain ⟨hexists, h⟩ := h
  unfold setSessionApplied
  rw [if_pos hexists]
  rcases hr : readJson w .sessions (jsonName sessionId) Stored.asReport with e | r
  · exact ⟨e, rfl⟩
  · dsimp only
    rw [writeJson, if_neg (h ⟨r, hr⟩)]
    exact ⟨_, rfl⟩

/-- The index is readable where it has a record. -/
theorem exists_index {record : PatchRecord} (h : recordOf w id = some record) :
    ∃ index, loadIndex w = .ok index ∧ (index.patches.find? fun record => record.id = id) = some record ∧
      w.files.read .patches indexName = some (.patchIndex index) := by
  unfold recordOf at h
  rcases hindex : loadIndex w with e | index <;> simp only [hindex] at h
  · cases h
  refine ⟨index, rfl, h, ?_⟩
  unfold loadIndex readJson exists? at hindex
  rcases hread : w.files.read .patches indexName with _ | stored <;> simp only [hread] at hindex
  · obtain rfl := Except.ok.inj hindex
    cases h
  · cases stored <;> simp [Stored.asPatchIndex] at hindex
    rw [hindex]

variable (applied) in
/-- **The update of the records**: without a record to change nothing happens, and it is refused;
with one the index says so, and what is left is the session. -/
theorem setPatchApplied_unmarked (h : marked disk w id = none) :
    ∃ e, setPatchApplied disk id applied w = (.error e, w) := by
  unfold marked at h
  unfold setPatchApplied
  rcases hlock : lockIndex disk w with e | _ <;> simp only [hlock] at h ⊢
  · exact ⟨e, rfl⟩
  unfold recordOf at h
  rcases hindex : loadIndex w with e | index <;> simp only [hindex] at h ⊢
  · exact ⟨e, rfl⟩
  rcases hrecord : index.patches.find? fun record => record.id = id with _ | record <;> simp only [hrecord] at h ⊢
  · exact ⟨_, rfl⟩
  have hdisk : disk .patches indexName ≠ true := fun hdisk => by simp [hdisk] at h
  rw [writeJson, if_neg hdisk]
  exact ⟨_, rfl⟩

variable (applied) in
theorem setPatchApplied_marked {record : PatchRecord} (h : marked disk w id = some record) :
    ∃ index w', (index.patches.find? fun record => record.id = id) = some record ∧
      w.files.read .patches indexName = some (.patchIndex index) ∧ w'.tree = w.tree ∧
      (∀ dir name, w'.files.read dir name = if dir = .patches ∧ name = indexName
        then some (.patchIndex ⟨markRecord id applied index.patches⟩) else w.files.read dir name) ∧
      setPatchApplied disk id applied w = setSessionApplied disk record.sessionId applied w' := by
  unfold marked at h
  rcases hlock : lockIndex disk w with e | _ <;> simp only [hlock] at h
  · cases h
  split_ifs at h with hdisk
  obtain ⟨index, hindex, hfind, hread⟩ := exists_index h
  have hwrite : ∃ w', writeJson w .patches indexName disk (.patchIndex ⟨markRecord id applied index.patches⟩) =
      (.ok (), w') := by
    rw [writeJson, if_pos hdisk]
    exact ⟨_, rfl⟩
  obtain ⟨w', hwrite⟩ := hwrite
  obtain ⟨-, htree, hfiles⟩ := read_writeJson hwrite
  refine ⟨index, w', hfind, hread, htree, hfiles, ?_⟩
  unfold setPatchApplied
  rw [hlock, hindex]
  dsimp only
  rw [hfind]
  dsimp only
  rw [hwrite]
  rfl

end Records

/-! ### The result -/

section InStep

variable {change : NvPatch → FsTree → Outcome ApplyReport} {applied : Bool} {disk : Disk} {id : String} {w w' : Workspace}

/-- An error keeps the step if nothing has changed. -/
theorem inStep_error_iff {e : StoreError} : InStep change applied id w (.error e, w') ↔
    w'.tree = w.tree ∧ ∀ dir name, w'.files.read dir name = w.files.read dir name :=
  ⟨fun h => h.error e rfl, fun h => ⟨nofun, fun _ _ => h⟩⟩

theorem sessionFollows_congr {sessionId : String} (h : ∀ name, w'.files.read .sessions name = w.files.read .sessions name) :
    SessionFollows disk w' sessionId ↔ SessionFollows disk w sessionId := by
  unfold SessionFollows
  rw [exists?_congr (h _), readJson_congr (h _)]

/-- The case that the change succeeds and the index is updated. -/
theorem inStep_marked_iff {patch : NvPatch} {report : ApplyReport} {tree : FsTree} {record : PatchRecord}
    (hload : loadPatch w id = .ok patch) (hchange : change patch w.tree = (.ok report, tree))
    (hmarked : marked disk w id = some record) :
    InStep change applied id w
        ((setPatchApplied disk id applied { w with tree := tree }).andThen fun () w => (.ok report, w)) ↔
      SessionFollows disk w record.sessionId ∨ tree = w.tree ∧ record.applied = applied := by
  have hmarked' : marked disk { w with tree := tree } id = some record := hmarked
  obtain ⟨index, w', hfind, hread, htree, hfiles, hset⟩ := setPatchApplied_marked applied hmarked'
  have hread : w.files.read .patches indexName = some (.patchIndex index) := hread
  have hindex : w'.files.read .patches indexName = some (.patchIndex ⟨markRecord id applied index.patches⟩) := by
    rw [hfiles, if_pos ⟨rfl, rfl⟩]
  have hsessions : SessionFollows disk w' record.sessionId ↔ SessionFollows disk w record.sessionId :=
    sessionFollows_congr fun name => by rw [hfiles, if_neg (by simp)]
  rw [hset]
  by_cases hfollows : SessionFollows disk w record.sessionId
  · obtain ⟨w'', hsession, htree', hindex', hsays⟩ := setSessionApplied_ok applied (hsessions.mpr hfollows)
    rw [hsession]
    refine iff_of_true ⟨fun report' hreport => ?_, nofun⟩ (Or.inl hfollows)
    obtain rfl : report = report' := Except.ok.inj hreport
    refine ⟨patch, { record with applied := applied }, hload, ?_, ?_, rfl, hsays⟩
    · rw [hchange, Result.andThen, htree', htree]
    · rw [Result.andThen, recordOf_congr hindex']
      unfold recordOf loadIndex readJson exists?
      rw [hindex]
      exact find?_markRecord hfind
  · obtain ⟨e, hsession⟩ := setSessionApplied_error applied fun h => hfollows (hsessions.mp h)
    rw [hsession, Result.andThen, inStep_error_iff, htree, or_iff_right hfollows, ← markRecord_eq_self_iff hfind]
    refine and_congr_right fun _ => ⟨fun h => ?_, fun h dir name => ?_⟩
    · have hsame := h .patches indexName
      rw [hindex, hread] at hsame
      cases index
      simpa using hsame
    · rw [hfiles]
      split_ifs with hname
      · rw [hname.1, hname.2, hread, h]
      · rfl

/-- **Tree and records stay in step exactly if the records follow**, whatever the store holds and whatever the
change is. -/
theorem changePatch_inStep_iff :
    InStep change applied id w (changePatch change applied disk id w) ↔ Follows change applied disk id w := by
  unfold changePatch Follows
  rcases hload : loadPatch w id with e | patch
  · exact iff_of_true (inStep_error_iff.mpr ⟨rfl, fun _ _ => rfl⟩) nofun
  have honly (P : NvPatch → Prop) : (∀ patch', Except.ok (ε := StoreError) patch = .ok patch' → P patch') ↔ P patch :=
    ⟨fun h => h patch rfl, fun h patch' heq => Except.ok.inj heq ▸ h⟩
  rw [honly]
  dsimp only
  rcases hchange : change patch w.tree with ⟨e | report, tree⟩
  · rw [inStep_error_iff]
    exact and_iff_left fun _ _ => rfl
  · dsimp only
    rcases hmarked : marked disk w id with _ | record
    · have hmarked' : marked disk { w with tree := tree } id = none := hmarked
      obtain ⟨e, hset⟩ := setPatchApplied_unmarked applied hmarked'
      rw [hset, Result.andThen, inStep_error_iff]
      simp
    · rw [inStep_marked_iff hload hchange hmarked]
      simp

end InStep

/-- Applying a stored patch and rolling it back, each in every store. -/
theorem inStep_iff (sha256Hex : String → String) (disk : Disk) (id : String) (w : Workspace) :
    (InStep (fun patch => patch.apply sha256Hex false) true id w (applyPatch sha256Hex disk id w) ↔
      Follows (fun patch => patch.apply sha256Hex false) true disk id w) ∧
    (InStep (fun patch => patch.rollback sha256Hex false) false id w (rollbackPatch sha256Hex disk id w) ↔
      Follows (fun patch => patch.rollback sha256Hex false) false disk id w) :=
  ⟨changePatch_inStep_iff, changePatch_inStep_iff⟩

/-- A patch that creates one file, in a store without an index. -/
def unindexed : Workspace where
  tree := .empty
  files := FileStore.write ∅ .patches (jsonName "p")
    (.patch ⟨"p", none, [FilePatch.create sampleSha256Hex ⟨"c"⟩ "text\n"]⟩)

/-- **It is applied, and the call fails.** -/
theorem unindexed_patch_applied :
    (applyPatch sampleSha256Hex (fun _ _ => true) "p" unindexed).1 = .error (.notIndexed "p") ∧
      ¬ InStep (fun patch => patch.apply sampleSha256Hex false) true "p" unindexed
        (applyPatch sampleSha256Hex (fun _ _ => true) "p" unindexed) := by
  have herror : (applyPatch sampleSha256Hex (fun _ _ => true) "p" unindexed).1 = .error (.notIndexed "p") := by decide
  refine ⟨herror, fun h => ?_⟩
  have htree := (h.error _ herror).1
  have hfile : (applyPatch sampleSha256Hex (fun _ _ => true) "p" unindexed).2.tree.exists? ["c"] = true := by decide
  rw [htree] at hfile
  cases hfile

end Nerve.Store
