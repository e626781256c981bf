import Nerve.Library.FileStore
import Nerve.Library.Text
import Nerve.Run.ApplyGate

/-!
# The store below `.nerve/`

The records of `store.rs`: the reports of finished runs with their names and parents, the patches with
their index, checkpoints and plans. Each is a JSON file, replaced as a whole. Patches do not
reach below `.nerve/` (they are refused), so the records and the working tree are apart.

A file holds what was written to it, and `Stored` says which reader takes which file; what no
reader takes is `other`. Ids are taken for names of files, as UUIDs and ULIDs are (`IsFileName`); an
id with a separator in it would lead to another directory, which is not followed. Directories that
nothing removes are always there. What the disk makes of a write is not up to the store (`Disk`), and
the advisory locks matter only where a file left behind keeps one taken.
-/

namespace Nerve.Store

open Nerve.Patch Nerve.Run

/-! ### The documents -/

/-- A report as it is saved: with the time its task started, which the loop does not read. -/
structure SavedReport where
  report : RunReport
  startedAt : String
  deriving DecidableEq, Repr

def SavedReport.id (r : SavedReport) : String := r.report.task.id

structure SessionMetadata where
  name : Option String
  parentSessionId : Option String
  updatedAt : Option String
  deriving DecidableEq, Repr

def SessionMetadata.default : SessionMetadata := ⟨none, none, none⟩

structure PatchRecord where
  id : String
  sessionId : String
  prompt : String
  createdAt : String
  fileCount : Nat
  changedFiles : List PathBuf
  verdict : Verdict
  applied : Bool
  deriving DecidableEq, Repr

structure PatchIndex where
  patches : List PatchRecord
  deriving DecidableEq, Repr

inductive RunStatus where
  | running
  | finished
  deriving DecidableEq, Repr

structure RunCheckpoint where
  task : Task
  selection : ProfileSelection
  status : RunStatus
  rounds : List RoundRecord
  updatedAt : String
  deriving DecidableEq, Repr

structure PlanReport where
  taskId : String
  planMarkdown : String
  reviewerFeedback : String
  estimatedLoc : Option Nat
  estimatedFiles : List PathBuf
  cost : Option UsageStats
  finishedAt : String
  deriving DecidableEq, Repr

/-- A node of the tree of forks. -/
structure SessionTree where
  id : String
  name : Option String
  parentId : Option String
  branchedAtRound : Option Nat
  branchedFromPatchSha : Option String
  forkedAt : Nat
  children : List String
  rounds : List RoundRecord
  deriving DecidableEq, Repr

structure SessionIndexEntry where
  parentId : Option String
  name : Option String
  forkedAt : Nat
  deriving DecidableEq, Repr

structure SessionIndex where
  entries : AList fun _ : String => SessionIndexEntry

/-! ### Files -/

/-- The directories below `.nerve/`. -/
inductive Dir where
  | sessions
  /-- Below `sessions/`: that of a session. -/
  | bucket (id : String)
  | sessionMeta
  | patches
  | checkpoints
  | plans
  deriving DecidableEq, Repr

def Dir.path : Dir → String
  | sessions => ".nerve/sessions"
  | bucket id => s!".nerve/sessions/{id}"
  | sessionMeta => ".nerve/session-meta"
  | patches => ".nerve/patches"
  | checkpoints => ".nerve/checkpoints"
  | plans => ".nerve/plans"

inductive Stored where
  | report (r : SavedReport)
  | metadata (m : SessionMetadata)
  | patch (p : NvPatch)
  | patchIndex (i : PatchIndex)
  | checkpoint (c : RunCheckpoint)
  | plan (p : PlanReport)
  | sessionTree (t : SessionTree)
  | sessionIndex (i : SessionIndex)
  /-- A text that is none of these. -/
  | other (text : String)

namespace Stored

-- a reader asks for the fields that have no default, which tell these documents apart

def asReport : Stored → Option SavedReport
  | report r => some r
  | _ => none

def asPatch : Stored → Option NvPatch
  | patch p => some p
  | _ => none

def asPatchIndex : Stored → Option PatchIndex
  | patchIndex i => some i
  | _ => none

def asSessionTree : Stored → Option SessionTree
  | sessionTree t => some t
  | _ => none

/-- All fields of the metadata have defaults, so that any document will do. -/
def asMetadata : Stored → Option SessionMetadata
  | metadata m => some m
  | sessionTree t => some ⟨t.name, none, none⟩
  | checkpoint c => some ⟨none, none, some c.updatedAt⟩
  | other _ => none
  | _ => some .default

/-- So it is with the index of the sessions, and a blank file is an empty one. -/
def asSessionIndex : Stored → Option SessionIndex
  | sessionIndex i => some i
  | other text => if text.toList.all Text.isWhitespace then some ⟨∅⟩ else none
  | _ => some ⟨∅⟩

end Stored

/-- What the operations change: the working tree, and the files below `.nerve/`. -/
structure Workspace where
  tree : FsTree
  files : FileStore Dir String Stored

/-- Which files the disk takes a write of. -/
abbrev Disk := Dir → String → Bool

inductive StoreError where
  | read (dir : Dir) (name : String)
  | invalidJson (dir : Dir) (name : String)
  | write (dir : Dir) (name : String)
  | remove (dir : Dir) (name : String)
  | lock (dir : Dir) (name : String)
  | lockTimeout (dir : Dir) (name : String)
  | noSession (id : String)
  | notIndexed (id : String)
  | invalidId (kind id : String)
  | patch (e : PatchError)
  deriving DecidableEq, Repr

/-- The outermost message of an error. -/
def StoreError.toText (cwd : String) : StoreError → String
  | read dir name => s!"failed to read `{cwd}/{dir.path}/{name}`"
  | invalidJson dir name => s!"invalid JSON in `{cwd}/{dir.path}/{name}`"
  | write dir name => s!"failed to move temp JSON to `{cwd}/{dir.path}/{name}`"
  | remove dir name => s!"failed to remove `{cwd}/{dir.path}/{name}`"
  | lock dir name => s!"failed to create `{cwd}/{dir.path}/{name}`"
  | lockTimeout dir name => s!"timed out waiting for `{cwd}/{dir.path}/{name}`"
  | noSession id => s!"session `{id}` does not exist"
  | notIndexed id => s!"patch `{id}` is not indexed"
  | invalidId kind id => s!"invalid {kind} `{id}`: must be 1..=128 chars of [A-Za-z0-9_-]"
  | patch e => e.toText

/-- What an operation returns, and what it leaves. -/
abbrev Result (α : Type) := Except StoreError α × Workspace

/-- `r?` and then `k`. -/
def Result.andThen {α β : Type} (r : Result α) (k : α → Workspace → Result β) : Result β :=
  match r with
  | (.ok a, w) => k a w
  | (.error e, w) => (.error e, w)

/-- The name of the file of an id. -/
def jsonName (id : String) : String := id ++ ".json"

/-- The file of the id is in the directory that it is looked for in. -/
def IsFileName (id : String) : Prop := '/' ∉ id.toList ∧ '\x00' ∉ id.toList

/-- So is a directory that has the id for its name. -/
def IsDirName (id : String) : Prop := IsFileName id ∧ id ∉ ["", ".", ".."]

instance (id : String) : Decidable (IsFileName id) := inferInstanceAs (Decidable (_ ∧ _))
instance (id : String) : Decidable (IsDirName id) := inferInstanceAs (Decidable (_ ∧ _))

/-- `Path::extension` is `json`: a name that begins with its only dot has none. -/
def hasJsonExtension (name : String) : Bool :=
  ".json".toList.isSuffixOf name.toList && name.toList != ".json".toList

section Files

variable (w : Workspace) (dir : Dir) (name : String)

def exists? : Bool := (w.files.read dir name).isSome

def readJson {α : Type} (reads : Stored → Option α) : Except StoreError α :=
  match w.files.read dir name with
  | none => .error (.read dir name)
  | some stored =>
    match reads stored with
    | none => .error (.invalidJson dir name)
    | some a => .ok a

/-- `write_json_atomic`: the file is replaced, or stays as it is. -/
def writeJson (disk : Disk) (stored : Stored) : Result Unit :=
  if disk dir name then (.ok (), { w with files := w.files.write dir name stored })
  else (.error (.write dir name), w)

end Files

/-! ### The patch index -/

def indexName : String := "index.json"

def indexLockName : String := "index.lock"

/-- `StoreLock::acquire`, when nobody is there to release a lock that is taken. The lock is released when the
operation ends, so it leaves nothing. -/
def lockIndex (disk : Disk) (w : Workspace) : Except StoreError Unit :=
  if exists? w .patches indexLockName then .error (.lockTimeout .patches indexLockName)
  else if disk .patches indexLockName then .ok ()
  else .error (.lock .patches indexLockName)

def loadIndex (w : Workspace) : Except StoreError PatchIndex :=
  if exists? w .patches indexName then readJson w .patches indexName Stored.asPatchIndex else .ok ⟨[]⟩

def PatchRecord.ofReport (r : SavedReport) (patch : NvPatch) : PatchRecord where
  id := patch.id
  sessionId := r.id
  prompt := r.report.task.prompt
  createdAt := r.startedAt
  fileCount := patch.files.length
  changedFiles := patch.changedFiles
  verdict := r.report.finalFeedback.verdict
  applied := r.report.applied

/-- The record replaces the one of its patch. -/
def upsertPatchRecord (disk : Disk) (record : PatchRecord) (w : Workspace) : Result Unit :=
  match lockIndex disk w with
  | .error e => (.error e, w)
  | .ok () =>
    match loadIndex w with
    | .error e => (.error e, w)
    | .ok index =>
      let patches := index.patches.filter fun existing => existing.id != record.id
      writeJson w .patches indexName disk (.patchIndex ⟨patches ++ [record]⟩)

def setSessionApplied (disk : Disk) (id : String) (applied : Bool) (w : Workspace) : Result Unit :=
  if exists? w .sessions (jsonName id) then
    match readJson w .sessions (jsonName id) Stored.asReport with
    | .error e => (.error e, w)
    | .ok r =>
      writeJson w .sessions (jsonName id) disk (.report { r with report := { r.report with applied := applied } })
  else (.ok (), w)

/-- The first record of the patch is changed. -/
def markRecord (id : String) (applied : Bool) : List PatchRecord → List PatchRecord
  | [] => []
  | record :: records =>
    if record.id = id then { record with applied := applied } :: records else record :: markRecord id applied records

def setPatchApplied (disk : Disk) (id : String) (applied : Bool) (w : Workspace) : Result Unit :=
  match lockIndex disk w with
  | .error e => (.error e, w)
  | .ok () =>
    match loadIndex w with
    | .error e => (.error e, w)
    | .ok index =>
      match index.patches.find? fun record => record.id = id with
      | none => (.error (.notIndexed id), w)
      | some record =>
        (writeJson w .patches indexName disk (.patchIndex ⟨markRecord id applied index.patches⟩)).andThen
          fun () => setSessionApplied disk record.sessionId applied

/-! ### The operations -/

def clearCheckpoint (disk : Disk) (id : String) (w : Workspace) : Result Unit :=
  if exists? w .checkpoints (jsonName id) then
    if disk .checkpoints (jsonName id) then
      (.ok (), { w with files := w.files.remove .checkpoints (jsonName id) })
    else (.error (.remove .checkpoints (jsonName id)), w)
  else (.ok (), w)

/-- The patch of a report that is not blocked is saved with it. -/
def savePatch (disk : Disk) (r : SavedReport) (w : Workspace) : Result Unit :=
  match r.report.finalPatch with
  | none => (.ok (), w)
  | some patch =>
    if r.report.blocked then (.ok (), w)
    else
      (writeJson w .patches (jsonName patch.id) disk (.patch patch)).andThen
        fun () => upsertPatchRecord disk (.ofReport r patch)

def saveReport (disk : Disk) (r : SavedReport) (w : Workspace) : Result Unit :=
  ((writeJson w .sessions (jsonName r.id) disk (.report r)).andThen
    fun () => savePatch disk r).andThen
      fun () => clearCheckpoint disk r.id

def saveCheckpoint (disk : Disk) (checkpoint : RunCheckpoint) (w : Workspace) : Result Unit :=
  writeJson w .checkpoints (jsonName checkpoint.task.id) disk (.checkpoint checkpoint)

def isStoreId (id : String) : Bool :=
  !id.isEmpty && id.utf8ByteSize ≤ 128 && id.toList.all fun c => c.isAlphanum || c == '_' || c == '-'

def validateStoreId (kind id : String) : Except StoreError Unit :=
  if isStoreId id then .ok () else .error (.invalidId kind id)

def savePlan (disk : Disk) (plan : PlanReport) (w : Workspace) : Result Unit :=
  match validateStoreId "plan id" plan.taskId with
  | .error e => (.error e, w)
  | .ok () => writeJson w .plans (jsonName plan.taskId) disk (.plan plan)

def loadSessionMetadata (w : Workspace) (id : String) : Except StoreError SessionMetadata :=
  if exists? w .sessionMeta (jsonName id) then readJson w .sessionMeta (jsonName id) Stored.asMetadata
  else .ok .default

def nameSession (disk : Disk) (id name now : String) (w : Workspace) : Result Unit :=
  if exists? w .sessions (jsonName id) then
    match loadSessionMetadata w id with
    | .error e => (.error e, w)
    | .ok m =>
      writeJson w .sessionMeta (jsonName id) disk (.metadata { m with name := some name, updatedAt := some now })
  else (.error (.noSession id), w)

def linkChildSession (disk : Disk) (childId parentId now : String) (w : Workspace) : Result Unit :=
  if !exists? w .sessions (jsonName childId) then (.error (.noSession childId), w)
  else if !exists? w .sessions (jsonName parentId) then (.error (.noSession parentId), w)
  else
    match loadSessionMetadata w childId with
    | .error e => (.error e, w)
    | .ok m =>
      writeJson w .sessionMeta (jsonName childId) disk
        (.metadata { m with parentSessionId := some parentId, updatedAt := some now })

def loadPatch (w : Workspace) (id : String) : Except StoreError NvPatch :=
  readJson w .patches (jsonName id) Stored.asPatch

/-- A patch of the store is applied, or rolled back (`change`), and its records say so. -/
def changePatch (change : NvPatch → FsTree → Outcome ApplyReport) (applied : Bool) (disk : Disk) (id : String)
    (w : Workspace) : Result ApplyReport :=
  match loadPatch w id with
  | .error e => (.error e, w)
  | .ok patch =>
    match change patch w.tree with
    | (.error e, tree) => (.error (.patch e), { w with tree := tree })
    | (.ok report, tree) =>
      (setPatchApplied disk id applied { w with tree := tree }).andThen fun () w => (.ok report, w)

def applyPatch (sha256Hex : String → String) : Disk → String → Workspace → Result ApplyReport :=
  changePatch (fun patch => patch.apply sha256Hex false) true

def rollbackPatch (sha256Hex : String → String) : Disk → String → Workspace → Result ApplyReport :=
  changePatch (fun patch => patch.rollback sha256Hex false) false

/-! ### The list of sessions -/

structure SessionSummary where
  id : String
  name : Option String
  prompt : String
  startedAt : String
  updatedAt : Option String
  cwd : PathBuf
  profile : Option String
  verdict : Verdict
  rounds : Nat
  patchId : Option String
  applied : Bool
  blocked : Bool
  parentSessionId : Option String
  deriving DecidableEq, Repr

def SessionSummary.ofReport (r : SavedReport) (m : SessionMetadata) : SessionSummary where
  id := r.id
  name := m.name
  prompt := r.report.task.prompt
  startedAt := r.startedAt
  updatedAt := m.updatedAt
  cwd := r.report.task.cwd
  profile := r.report.selection.id
  verdict := r.report.finalFeedback.verdict
  rounds := r.report.rounds.length
  patchId := r.report.finalPatch.map NvPatch.id
  applied := r.report.applied
  blocked := r.report.blocked
  parentSessionId := m.parentSessionId

/-- If every one of them goes well, so do all together. `g` tells what each was made from. -/
theorem mapM_ok {ε α β : Type} {f : α → Except ε β} {g : β → α} {P : β → Prop} {as : List α}
    (h : ∀ a ∈ as, ∃ b, f a = .ok b ∧ a = g b ∧ P b) :
    ∃ bs, as.mapM f = .ok bs ∧ as = bs.map g ∧ ∀ b ∈ bs, P b := by
  induction as with
  | nil => exact ⟨[], rfl, rfl, nofun⟩
  | cons a as ih =>
    obtain ⟨b, hb, rfl, hPb⟩ := h a List.mem_cons_self
    obtain ⟨bs, hbs, rfl, hPbs⟩ := ih fun a ha => h a (List.mem_cons_of_mem _ ha)
    refine ⟨b :: bs, ?_, rfl, List.forall_mem_cons.mpr ⟨hPb, hPbs⟩⟩
    rw [List.mapM_cons, hb, hbs]
    rfl

/-- What is in `sessions/`: files, and the directories of the sessions that have files in theirs. -/
def sessionEntries (w : Workspace) : List String :=
  w.files.list .sessions ++ (w.files.keys.filterMap fun key =>
    match key.1 with
    | .bucket id => some id
    | _ => none).dedup

def summarize (w : Workspace) (name : String) : Except StoreError SessionSummary := do
  let r ← readJson w .sessions name Stored.asReport
  let m ← loadSessionMetadata w r.id
  return .ofReport r m

/-- Latest first. -/
def listSessions (w : Workspace) : Except StoreError (List SessionSummary) := do
  let summaries ← ((sessionEntries w).filter hasJsonExtension).mapM (summarize w)
  return summaries.mergeSort fun a b => b.startedAt ≤ a.startedAt

end Nerve.Store
