import Nerve.Queue.OnDisk

/-!
# A claim that fails

`Patrol::claim` moves the first of the pending files into the patrol's directory before it has read
it. The claims that fail earlier leave every file where it is (`claim_of_not_reaches`); those that
fail at what they read, or at whose file it is, leave it in the patrol's directory, from where it
comes back to the head of `pending/` (`corrupt_task_moved`). `claim_iff` has when a claim is safe:
whenever it comes to the rename, the file has to be that of the task in it, and nothing may stand in
its way.

What the directories hold is told by what stands under each name (`entryAt`). That the patrol gets
an empty directory is no file.
-/

namespace Nerve.Queue

/-! ### The claim -/

/-- `trim_end_matches(".json")`, on the characters from the last. -/
def dropJson : List Char → List Char
  | 'n' :: 'o' :: 's' :: 'j' :: '.' :: rest => dropJson rest
  | cs => cs

def trimJson (name : String) : String := String.ofList (dropJson name.toList.reverse).reverse

/-- How a rename goes, as far as this is not up to what stands at its ends. -/
inductive RenameOutcome where
  | free
  | lostRace
  | refused (message : String)

/-- What a claim meets outside the queue's four directories: whether they and the heartbeat could be
written, whether `mayor.lock` came free in time, and how the rename goes. -/
structure ClaimWorld where
  prepared : Except MayorError Unit
  lockFree : Bool
  rename : RenameOutcome

/-- `rename` onto what stands at the destination. -/
def Entry.replaces (src : Entry) : Option Entry → Except MayorError Unit
  | none => .ok ()
  | some (.file _) =>
    match src with
    | .file _ => .ok ()
    | .directory _ => .error (.io "Not a directory (os error 20)")
  | some (.directory names) =>
    match src with
    | .file _ => .error (.io "Is a directory (os error 21)")
    | .directory _ => if names.isEmpty then .ok () else .error (.io "Directory not empty (os error 39)")

namespace QueueDirs

/-- `create_dir_all` of a patrol's directory. -/
def createPatrolDir (patrolId : String) (d : QueueDirs) : Except MayorError QueueDirs :=
  match d.claimed.lookup patrolId with
  | none => .ok { d with claimed := d.claimed.insert patrolId (.directory ∅) }
  | some (.directory _) => .ok d
  | some (.file _) => .error (.io "File exists (os error 17)")

/-- The rename of a pending file into a patrol's directory. -/
def renameToClaimed (outcome : RenameOutcome) (patrolId name : String) (d : QueueDirs) : Except MayorError QueueDirs :=
  match outcome, d.pending.lookup name, d.claimed.lookup patrolId with
  | .refused message, _, _ => .error (.io message)
  | .free, some entry, some (.directory listing) =>
    match entry.replaces (listing.lookup name) with
    | .error e => .error e
    | .ok () =>
      .ok { d with
        pending := d.pending.erase name
        claimed := d.claimed.insert patrolId (.directory (listing.insert name entry)) }
  | _, _, _ => .error (.claimFailed s!"lost race for `{name}`")

/-- The directory of a patrol. -/
def patrolListing (d : QueueDirs) (patrolId : String) : Listing :=
  match d.claimed.lookup patrolId with
  | some (.directory listing) => listing
  | _ => ∅

/-- What stands under a name. -/
def entryAt (d : QueueDirs) : Place → String → Option Entry
  | .pending, name => d.pending.lookup name
  | .claimed patrolId, name => (d.patrolListing patrolId).lookup name
  | .done, name => d.done.lookup name
  | .failed, name => d.failed.lookup name

end QueueDirs

/-- What `claim` makes of the file it has moved. -/
def readMoved (R : Readers) (name : String) (moved : Option Entry) : Except MayorError PatrolTask :=
  match readJson R.task moved with
  | .error e => .error e
  | .ok task => readClaimed (trimJson name) (some task)

/-- `Patrol::claim`: what it returns, and the directories it leaves. -/
def claim (R : Readers) (world : ClaimWorld) (patrolId : String) (d : QueueDirs) :
    Except MayorError PatrolTask × QueueDirs :=
  match validateFileComponent "patrol_id" patrolId with
  | .error e => (.error e, d)
  | .ok () =>
    match world.prepared with
    | .error e => (.error e, d)
    | .ok () =>
      if !world.lockFree then (.error .lockTimeout, d)
      else
        match (sortedJsonFilenames d.pending).head? with
        | none => (.error .queueEmpty, d)
        | some candidate =>
          match d.createPatrolDir patrolId with
          | .error e => (.error e, d)
          | .ok d =>
            match d.renameToClaimed world.rename patrolId candidate with
            | .error e => (.error e, d)
            | .ok d => (readMoved R candidate (d.entryAt (.claimed patrolId) candidate), d)

/-! ### Names -/

theorem dropJson_of_notMem {cs : List Char} (h : '.' ∉ cs) : dropJson cs = cs := by
  unfold dropJson
  split
  · simp at h
  · rfl

theorem trimJson_taskFile {id : String} (h : isValidQueueId id = true) : trimJson (taskFile id) = id := by
  have hdot : '.' ∉ id.toList.reverse := by
    intro hmem
    simp only [isValidQueueId, Bool.and_eq_true, List.all_eq_true] at h
    exact absurd (h.2 '.' (List.mem_reverse.mp hmem)) (by decide)
  have hreverse : (taskFile id).toList.reverse = 'n' :: 'o' :: 's' :: 'j' :: '.' :: id.toList.reverse := by
    simp [taskFile, String.toList_append]
  rw [trimJson, hreverse, dropJson, dropJson_of_notMem hdot, List.reverse_reverse, String.ofList_toList]

/-! ### What a claim moves -/

/-- The same files stand in the directories. -/
structure SameFiles (d d' : QueueDirs) : Prop where
  entries : ∀ place name, d'.entryAt place name = d.entryAt place name
  stray : ∀ patrolId raw, d'.claimed.lookup patrolId = some (.file raw) ↔ d.claimed.lookup patrolId = some (.file raw)

theorem SameFiles.refl (d : QueueDirs) : SameFiles d d := ⟨fun _ _ => rfl, fun _ _ => Iff.rfl⟩

/-- The file of the task, the first of the pending ones, has moved to the patrol's directory, and
nothing else has changed. -/
structure OneMoved (patrolId : String) (task : PatrolTask) (d d' : QueueDirs) : Prop where
  pending : taskFile task.taskId ∈ d.pending
  first : ∀ name ∈ d.pending, (jsonStem name).isSome → taskFile task.taskId ≤ name
  free : d.entryAt (.claimed patrolId) (taskFile task.taskId) = none
  gone : d'.entryAt .pending (taskFile task.taskId) = none
  there : d'.entryAt (.claimed patrolId) (taskFile task.taskId) = d.entryAt .pending (taskFile task.taskId)
  others : ∀ place name, (place ≠ .pending ∧ place ≠ .claimed patrolId) ∨ name ≠ taskFile task.taskId →
    d'.entryAt place name = d.entryAt place name
  stray : ∀ patrolId raw, d'.claimed.lookup patrolId = some (.file raw) ↔ d.claimed.lookup patrolId = some (.file raw)

/-- What a claim that fails, and one that succeeds, should leave. -/
def ClaimKeepsFiles (patrolId : String) (d : QueueDirs) (claimed : Except MayorError PatrolTask × QueueDirs) : Prop :=
  match claimed.1 with
  | .error _ => SameFiles d claimed.2
  | .ok task => OneMoved patrolId task d claimed.2

/-- The claim comes to the rename of this file, and it succeeds. -/
structure Reaches (world : ClaimWorld) (patrolId : String) (d : QueueDirs) (name : String) (entry : Entry) : Prop where
  patrol : isValidQueueId patrolId = true
  prepared : world.prepared = .ok ()
  lockFree : world.lockFree = true
  first : (sortedJsonFilenames d.pending).head? = some name
  held : d.pending.lookup name = some entry
  directory : ∀ raw, d.claimed.lookup patrolId ≠ some (.file raw)
  rename : world.rename = .free
  replaces : entry.replaces (d.entryAt (.claimed patrolId) name) = .ok ()

/-- The directories with the file moved. -/
def QueueDirs.moved (d : QueueDirs) (patrolId name : String) (entry : Entry) : QueueDirs :=
  { d with
    pending := d.pending.erase name
    claimed := d.claimed.insert patrolId (.directory ((d.patrolListing patrolId).insert name entry)) }

section Claim

variable {R : Readers} {world : ClaimWorld} {patrolId name : String} {d : QueueDirs} {entry : Entry}

theorem moved_gone : (d.moved patrolId name entry).entryAt .pending name = none := AList.lookup_erase ..

theorem moved_there : (d.moved patrolId name entry).entryAt (.claimed patrolId) name = some entry := by
  simp [QueueDirs.entryAt, QueueDirs.patrolListing, QueueDirs.moved, AList.lookup_insert]

theorem moved_others {place : Place} {other : String}
    (h : (place ≠ .pending ∧ place ≠ .claimed patrolId) ∨ other ≠ name) :
    (d.moved patrolId name entry).entryAt place other = d.entryAt place other := by
  cases place with
  | pending => exact AList.lookup_erase_ne (h.resolve_left fun h => h.1 rfl)
  | done => rfl
  | failed => rfl
  | claimed patrolId' =>
    show ((d.moved patrolId name entry).patrolListing patrolId').lookup other = (d.patrolListing patrolId').lookup other
    by_cases hpatrol : patrolId' = patrolId
    · subst hpatrol
      have hother : other ≠ name := h.resolve_left fun h => h.2 rfl
      simp [QueueDirs.patrolListing, QueueDirs.moved, AList.lookup_insert, AList.lookup_insert_ne hother]
    · simp only [QueueDirs.patrolListing, QueueDirs.moved, AList.lookup_insert_ne hpatrol]

theorem moved_stray (h : ∀ raw, d.claimed.lookup patrolId ≠ some (.file raw)) (patrolId' : String) (raw : ByteArray) :
    (d.moved patrolId name entry).claimed.lookup patrolId' = some (.file raw) ↔
      d.claimed.lookup patrolId' = some (.file raw) := by
  by_cases hpatrol : patrolId' = patrolId
  · subst hpatrol
    simp [QueueDirs.moved, AList.lookup_insert, h raw]
  · simp only [QueueDirs.moved, AList.lookup_insert_ne hpatrol]

/-- The patrol's directory is made, if there is none: it holds what it held. -/
theorem createPatrolDir_eq (h : ∀ raw, d.claimed.lookup patrolId ≠ some (.file raw)) :
    ∃ claimed, d.createPatrolDir patrolId = .ok { d with claimed := claimed } ∧
      SameFiles d { d with claimed := claimed } ∧
      claimed.lookup patrolId = some (.directory (d.patrolListing patrolId)) ∧
      ∀ entry, claimed.insert patrolId entry = d.claimed.insert patrolId entry := by
  unfold QueueDirs.createPatrolDir QueueDirs.patrolListing
  rcases hdir : d.claimed.lookup patrolId with _ | ⟨raw⟩ | ⟨listing⟩
  · refine ⟨_, rfl, ⟨fun place name => ?_, fun patrolId' raw => ?_⟩, AList.lookup_insert _,
      fun entry => AList.insert_insert _⟩
    · cases place with
      | claimed patrolId' =>
        by_cases hpatrol : patrolId' = patrolId
        · subst hpatrol
          simp [QueueDirs.entryAt, QueueDirs.patrolListing, hdir]
        · simp only [QueueDirs.entryAt, QueueDirs.patrolListing, AList.lookup_insert_ne hpatrol]
      | _ => rfl
    · by_cases hpatrol : patrolId' = patrolId
      · subst hpatrol
        simp [hdir]
      · simp only [AList.lookup_insert_ne hpatrol]
  · exact absurd hdir (h raw)
  · exact ⟨_, rfl, SameFiles.refl d, hdir, fun _ => rfl⟩

theorem forall_ne_of_createPatrolDir {d' : QueueDirs} (h : d.createPatrolDir patrolId = .ok d') (raw : ByteArray) :
    d.claimed.lookup patrolId ≠ some (.file raw) := by
  intro hfile
  simp [QueueDirs.createPatrolDir, hfile] at h

theorem SameFiles.createPatrolDir {d' : QueueDirs} (h : d.createPatrolDir patrolId = .ok d') : SameFiles d d' := by
  obtain ⟨claimed, hcreate, hsame, -⟩ := createPatrolDir_eq (forall_ne_of_createPatrolDir h)
  rw [hcreate] at h
  cases h
  exact hsame

/-- What it takes for the rename to succeed. -/
theorem renameToClaimed_eq_ok {d' d'' : QueueDirs} {outcome : RenameOutcome} (hcreate : d.createPatrolDir patrolId = .ok d')
    (h : d'.renameToClaimed outcome patrolId name = .ok d'') :
    outcome = .free ∧ ∃ entry, d.pending.lookup name = some entry ∧
      entry.replaces (d.entryAt (.claimed patrolId) name) = .ok () := by
  obtain ⟨claimed, hcreate', -, hlisting, -⟩ := createPatrolDir_eq (forall_ne_of_createPatrolDir hcreate)
  rw [hcreate] at hcreate'
  cases hcreate'
  cases outcome with
  | lostRace => cases h
  | refused message => cases h
  | free =>
    rcases hheld : d.pending.lookup name with _ | entry
    · simp [QueueDirs.renameToClaimed, hheld] at h
    · rcases hreplaces : entry.replaces ((d.patrolListing patrolId).lookup name) with e | u
      · simp [QueueDirs.renameToClaimed, hheld, hlisting, hreplaces] at h
      · exact ⟨rfl, entry, rfl, hreplaces⟩

/-- A claim that comes to the rename. -/
theorem claim_of_reaches (h : Reaches world patrolId d name entry) :
    claim R world patrolId d = (readMoved R name (some entry), d.moved patrolId name entry) := by
  obtain ⟨claimed, hcreate, -, hlisting, hinsert⟩ := createPatrolDir_eq h.directory
  have hrename : QueueDirs.renameToClaimed world.rename patrolId name { d with claimed := claimed } =
      .ok (d.moved patrolId name entry) := by
    have hreplaces : entry.replaces ((d.patrolListing patrolId).lookup name) = .ok () := h.replaces
    simp only [QueueDirs.renameToClaimed, h.rename, h.held, hlisting, hreplaces, hinsert]
    rfl
  unfold claim
  simp only [validateFileComponent, h.patrol, if_true, h.prepared, h.lockFree, Bool.not_true, Bool.false_eq_true, if_false,
    h.first, hcreate, hrename, moved_there]

/-- One that does not: it fails, and leaves the files. -/
theorem claim_of_not_reaches (h : ∀ name entry, ¬ Reaches world patrolId d name entry) :
    ∃ e d', claim R world patrolId d = (.error e, d') ∧ SameFiles d d' := by
  unfold claim
  rcases hpatrol : validateFileComponent "patrol_id" patrolId with e | u
  · exact ⟨e, d, rfl, SameFiles.refl d⟩
  rcases hprepared : world.prepared with e | u
  · exact ⟨e, d, rfl, SameFiles.refl d⟩
  rcases hlock : world.lockFree with _ | _
  · exact ⟨_, d, rfl, SameFiles.refl d⟩
  rcases hfirst : (sortedJsonFilenames d.pending).head? with _ | candidate
  · exact ⟨_, d, rfl, SameFiles.refl d⟩
  rcases hcreate : d.createPatrolDir patrolId with e | d'
  · exact ⟨e, d, rfl, SameFiles.refl d⟩
  rcases hrename : d'.renameToClaimed world.rename patrolId candidate with e | d''
  · exact ⟨e, d', by simp [hrename], SameFiles.createPatrolDir hcreate⟩
  -- the rename has succeeded
  have hdirectory := forall_ne_of_createPatrolDir hcreate
  obtain ⟨hfree, entry, hheld, hreplaces⟩ := renameToClaimed_eq_ok hcreate hrename
  have hvalid : isValidQueueId patrolId = true := by
    unfold validateFileComponent at hpatrol
    split_ifs at hpatrol with hvalid
    exact hvalid
  exact absurd ⟨hvalid, hprepared, hlock, hfirst, hheld, hdirectory, hfree, hreplaces⟩ (h candidate entry)

/-! ### When it is safe -/

/-- The file is that of the task in it, and nothing stands in its place. -/
def Sound (R : Readers) (patrolId : String) (d : QueueDirs) (name : String) (entry : Entry) : Prop :=
  d.entryAt (.claimed patrolId) name = none ∧
    ∃ task, readJson R.task (some entry) = .ok task ∧ isValidQueueId task.taskId = true ∧ name = taskFile task.taskId

theorem readMoved_eq_ok {task : PatrolTask} {moved : Option Entry} (h : readMoved R name moved = .ok task) :
    readJson R.task moved = .ok task ∧ isValidQueueId task.taskId = true := by
  unfold readMoved at h
  rcases hread : readJson R.task moved with e | task' <;> rw [hread] at h
  · cases h
  · by_cases hvalid : isValidQueueId task'.taskId = true
    · simp only [readClaimed, validateFileComponent, hvalid, if_true] at h
      split_ifs at h
      cases h
      exact ⟨rfl, hvalid⟩
    · simp [readClaimed, validateFileComponent, hvalid] at h

theorem oneMoved_of_reaches {task : PatrolTask} (h : Reaches world patrolId d (taskFile task.taskId) entry)
    (hfree : d.entryAt (.claimed patrolId) (taskFile task.taskId) = none) :
    OneMoved patrolId task d (d.moved patrolId (taskFile task.taskId) entry) where
  pending := AList.mem_keys.mpr (mem_sortedJsonFilenames.mp (List.mem_of_mem_head? h.first)).1
  first _ hname hjson := le_of_head_sorted h.first (mem_sortedJsonFilenames.mpr ⟨hname, hjson⟩)
  free := hfree
  gone := moved_gone
  there := moved_there.trans h.held.symm
  others _ _ hother := moved_others hother
  stray := moved_stray h.directory

/-- **A claim keeps the files safe** just if, when it comes to the rename, the file it moves is that
of the task in it, and nothing stands in its place in the patrol's directory. -/
theorem claim_iff (R : Readers) (world : ClaimWorld) (patrolId : String) (d : QueueDirs) :
    ClaimKeepsFiles patrolId d (claim R world patrolId d) ↔
      ∀ name entry, Reaches world patrolId d name entry → Sound R patrolId d name entry := by
  constructor
  · intro hkeeps name entry hreaches
    rw [claim_of_reaches hreaches] at hkeeps
    have hheld : d.entryAt .pending name = some entry := hreaches.held
    rcases hread : readMoved R name (some entry) with e | task <;> rw [hread] at hkeeps
    · -- the file is gone from `pending/`
      have hgone := hkeeps.entries .pending name
      rw [moved_gone, hheld] at hgone
      cases hgone
    · have hkeeps : OneMoved patrolId task d (d.moved patrolId name entry) := hkeeps
      have hname : name = taskFile task.taskId := by
        by_contra hne
        have hothers := hkeeps.others .pending name (Or.inr hne)
        rw [moved_gone, hheld] at hothers
        cases hothers
      obtain ⟨hparse, hvalid⟩ := readMoved_eq_ok hread
      exact ⟨hname ▸ hkeeps.free, task, hparse, hvalid, hname⟩
  · intro hsound
    by_cases hreaches : ∃ name entry, Reaches world patrolId d name entry
    · obtain ⟨name, entry, hreaches⟩ := hreaches
      obtain ⟨hfree, task, hparse, hvalid, rfl⟩ := hsound name entry hreaches
      have hread : readMoved R (taskFile task.taskId) (some entry) = .ok task := by
        simp [readMoved, hparse, readClaimed, validateFileComponent, hvalid, trimJson_taskFile hvalid]
      rw [claim_of_reaches hreaches, hread]
      exact oneMoved_of_reaches hreaches hfree
    · simp only [not_exists] at hreaches
      obtain ⟨e, d', hclaim, hsame⟩ := claim_of_not_reaches (R := R) hreaches
      rw [hclaim]
      exact hsame

end Claim

/-! ### A file that is not JSON -/

/-- A pending file that does not parse. -/
def corruptPending : QueueDirs := ⟨AList.singleton "t.json" (.file "x".toByteArray), ∅, ∅, ∅, ∅⟩

/-- The reader, as far as this file goes. -/
def corruptReaders : Readers := ⟨fun _ => .error "expected value at line 1 column 1", fun _ => .error ""⟩

/-- **The claim fails, and the file is no longer pending.** -/
theorem corrupt_task_moved :
    ¬ ∀ (R : Readers) (world : ClaimWorld) (patrolId : String) (d : QueueDirs),
      ClaimKeepsFiles patrolId d (claim R world patrolId d) := by
  intro h
  have hclaim : claim corruptReaders ⟨.ok (), true, .free⟩ "p" corruptPending =
      (.error (.serde "expected value at line 1 column 1"), corruptPending.moved "p" "t.json" (.file "x".toByteArray)) := rfl
  have hkeeps := h corruptReaders ⟨.ok (), true, .free⟩ "p" corruptPending
  rw [hclaim] at hkeeps
  exact absurd (hkeeps.entries .pending "t.json") (by decide +kernel)

end Nerve.Queue
