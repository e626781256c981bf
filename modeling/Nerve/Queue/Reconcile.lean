import Nerve.Queue.OnDisk

/-!
# Rebuilding the ledger

`reconcile` throws the coordination ledger away and writes a new one from what stands in the queue's
directories. They are scanned one after the other, `pending/`, `claimed/*`, `done/` and `failed/`,
and a later row for a task replaces an earlier one (`scanQueueDirs_eq`), so that each task has the
state furthest along (`Reflects.mostTerminal`). The row of a finished task takes what else it says
from the result file, provided that the result's verdict is of the directory's state.

`reconcile_reflects` has what this comes to. The directories of the patrols are scanned in the order
in which they happen to be listed, so of a task that two of them hold the row may be from either. It
is not just the owner that depends on it: the time of creation is read from the file that is there,
and the two files may differ (`reconcile_creation_time`).
-/

namespace Nerve.Queue

def LEDGER_VERSION : Nat := 1

structure LedgerSnapshot where
  version : Nat
  entries : Ledger

/-- `ledger.json`, as it is found. -/
inductive LedgerFile where
  | missing
  | garbled (error : MayorError)
  | written (snapshot : LedgerSnapshot)

/-- `Coordinator::ledger`. -/
def LedgerFile.read : LedgerFile → Except MayorError LedgerSnapshot
  | missing => .ok ⟨LEDGER_VERSION, fun _ => none⟩
  | garbled error => .error error
  | written snapshot => .ok snapshot

section Scan

variable (R : Readers)

/-- When the task in the file was made, as far as the file can be read. -/
def createdAtOf (entry : Entry) : Option Nat := (readJson R.task (some entry)).toOption.bind PatrolTask.createdAt

def readTaskIds (listing : Listing) : List (String × Option Nat) :=
  listing.entries.filterMap fun entry =>
    match jsonStem entry.1 with
    | none => none
    | some taskId => if isValidQueueId taskId then some (taskId, createdAtOf R entry.2) else none

/-- The rows of a directory, over what is there. -/
def insertRows (row : String → Option Nat → LedgerEntry) (rows : List (String × Option Nat)) (entries : Ledger) : Ledger :=
  rows.foldl (fun entries r => Function.update entries r.1 (some (row r.1 r.2))) entries

def pendingRow (taskId : String) (createdAt : Option Nat) : LedgerEntry where
  taskId := taskId
  state := .pending
  owner := none
  createdAt := createdAt
  claimedAt := none
  finishedAt := none
  costMicrousd := none
  verdict := none

def claimedRow (patrolId taskId : String) (createdAt : Option Nat) : LedgerEntry where
  taskId := taskId
  state := .claimed
  owner := some patrolId
  createdAt := createdAt
  claimedAt := none
  finishedAt := none
  costMicrousd := none
  verdict := none

def readResult (results : Listing) (taskId : String) : Option PatrolResult :=
  (readJson R.result (results.lookup (taskFile taskId))).toOption

def finishedRow (results : Listing) (dirState : LedgerState) (taskId : String) (createdAt : Option Nat) : LedgerEntry :=
  let result := (readResult R results taskId).filter fun r => terminalState r.verdict = dirState
  { taskId := taskId
    state := dirState
    owner := result.map PatrolResult.patrolId
    createdAt := createdAt
    claimedAt := none
    finishedAt := result.bind PatrolResult.finishedAt
    costMicrousd := result.map PatrolResult.costMicrousd
    verdict := result.map PatrolResult.verdict }

/-- The rows of a patrol's directory; other things in `claimed/` are passed over. -/
def insertPatrol (entries : Ledger) (dir : Sigma fun _ : String => ClaimedEntry) : Ledger :=
  match dir.2 with
  | .file _ => entries
  | .directory listing => insertRows (claimedRow dir.1) (readTaskIds R listing) entries

def QueueDirs.scanQueueDirs (d : QueueDirs) : Ledger :=
  let entries := insertRows pendingRow (readTaskIds R d.pending) fun _ => none
  let entries := d.claimed.entries.foldl (insertPatrol R) entries
  let entries := insertRows (finishedRow R d.results .done) (readTaskIds R d.done) entries
  insertRows (finishedRow R d.results .failed) (readTaskIds R d.failed) entries

/-- `Coordinator::reconcile`: what it returns, and the ledger it leaves. -/
def reconcile (enabled lockFree : Bool) (d : QueueDirs) (ledger : LedgerFile) :
    Except MayorError LedgerSnapshot × LedgerFile :=
  if !enabled then (ledger.read, ledger)
  else if !lockFree then (.error .lockTimeout, ledger)
  else
    let rebuilt : LedgerSnapshot := ⟨LEDGER_VERSION, d.scanQueueDirs R⟩
    (.ok rebuilt, .written rebuilt)

end Scan

/-! ### One directory -/

section Directory

variable {R : Readers} {listing : Listing} {row : String → Option Nat → LedgerEntry} {entries : Ledger} {id : String}

/-- A task in a directory, with its time of creation. -/
def foundIn (R : Readers) (listing : Listing) (id : String) : Option (Option Nat) :=
  if isValidQueueId id then (listing.lookup (taskFile id)).map (createdAtOf R) else none

theorem foundIn_isSome : (foundIn R listing id).isSome ↔ isValidQueueId id = true ∧ taskFile id ∈ listing := by
  unfold foundIn
  split_ifs with hid
  · rw [Option.isSome_map, AList.lookup_isSome]
    simp [hid]
  · simp [hid]

theorem mem_readTaskIds {createdAt : Option Nat} :
    (id, createdAt) ∈ readTaskIds R listing ↔ foundIn R listing id = some createdAt := by
  unfold readTaskIds foundIn
  rw [List.mem_filterMap]
  constructor
  · rintro ⟨⟨name, entry⟩, hmem, h⟩
    split at h
    · cases h
    · rename_i taskId hstem
      split_ifs at h with hid
      cases h
      rw [if_pos hid, Option.map_eq_some_iff]
      obtain rfl : name = taskFile id := (jsonStem_eq_some.mp hstem).1
      exact ⟨entry, AList.mem_lookup_iff.mpr hmem, rfl⟩
  · intro h
    split_ifs at h with hid
    obtain ⟨entry, hlookup, rfl⟩ := Option.map_eq_some_iff.mp h
    refine ⟨⟨taskFile id, entry⟩, AList.mem_lookup_iff.mp hlookup, ?_⟩
    simp [jsonStem_taskFile hid, hid]

theorem insertRows_of_forall_ne {rows : List (String × Option Nat)} (h : ∀ r ∈ rows, r.1 ≠ id) :
    insertRows row rows entries id = entries id := by
  induction rows generalizing entries with
  | nil => rfl
  | cons r rows ih =>
    rw [insertRows, List.foldl_cons]
    obtain ⟨hr, hrows⟩ := List.forall_mem_cons.mp h
    exact (ih hrows).trans (Function.update_of_ne hr.symm _ _)

/-- A row that is there under one time of creation alone. -/
theorem insertRows_of_mem {rows : List (String × Option Nat)} {createdAt : Option Nat} (hmem : (id, createdAt) ∈ rows)
    (hone : ∀ c, (id, c) ∈ rows → c = createdAt) : insertRows row rows entries id = some (row id createdAt) := by
  induction rows generalizing entries with
  | nil => cases hmem
  | cons r rows ih =>
    rw [insertRows, List.foldl_cons]
    by_cases hlater : ∃ c, (id, c) ∈ rows
    · obtain ⟨c, hc⟩ := hlater
      have hrows : ∀ c, (id, c) ∈ rows → c = createdAt := fun c hc => hone c (List.mem_cons_of_mem _ hc)
      exact ih (hrows c hc ▸ hc) hrows
    · have hne : ∀ r ∈ rows, r.1 ≠ id := by
        rintro ⟨_, c⟩ hr rfl
        exact hlater ⟨c, hr⟩
      obtain rfl := (List.mem_cons.mp hmem).resolve_right fun h => hlater ⟨createdAt, h⟩
      exact (insertRows_of_forall_ne hne).trans (Function.update_self ..)

/-- After a directory its tasks have its rows, and the others those they had. -/
theorem insertRows_readTaskIds :
    insertRows row (readTaskIds R listing) entries id =
      match foundIn R listing id with
      | some createdAt => some (row id createdAt)
      | none => entries id := by
  rcases h : foundIn R listing id with _ | createdAt
  · refine insertRows_of_forall_ne ?_
    rintro ⟨_, c⟩ hr rfl
    rw [mem_readTaskIds, h] at hr
    cases hr
  · refine insertRows_of_mem (mem_readTaskIds.mpr h) fun c hc => ?_
    rw [mem_readTaskIds, h] at hc
    exact (Option.some.inj hc).symm

end Directory

/-! ### All directories -/

section Scanned

variable {R : Readers} {d : QueueDirs} {id : String}

/-- A task in the directory of a patrol, with its time of creation. -/
def QueueDirs.ClaimedBy (R : Readers) (d : QueueDirs) (id patrolId : String) (createdAt : Option Nat) : Prop :=
  ∃ listing, d.claimed.lookup patrolId = some (.directory listing) ∧ foundIn R listing id = some createdAt

/-- After the patrols' directories a task they hold has a row from one of them. -/
theorem foldl_insertPatrol (claimed : List (Sigma fun _ : String => ClaimedEntry)) (entries : Ledger) (id : String) :
    (∃ patrolId listing createdAt, ⟨patrolId, .directory listing⟩ ∈ claimed ∧ foundIn R listing id = some createdAt ∧
        claimed.foldl (insertPatrol R) entries id = some (claimedRow patrolId id createdAt)) ∨
      (∀ patrolId listing, ⟨patrolId, .directory listing⟩ ∈ claimed → foundIn R listing id = none) ∧
        claimed.foldl (insertPatrol R) entries id = entries id := by
  induction claimed generalizing entries with
  | nil => exact Or.inr ⟨nofun, rfl⟩
  | cons dir claimed ih =>
    rw [List.foldl_cons]
    rcases ih (insertPatrol R entries dir) with ⟨patrolId, listing, createdAt, hmem, hfound, h⟩ | ⟨hnone, h⟩
    · exact Or.inl ⟨patrolId, listing, createdAt, List.mem_cons_of_mem _ hmem, hfound, h⟩
    · obtain ⟨patrolId, raw | listing⟩ := dir
      · refine Or.inr ⟨fun p l hmem => ?_, h⟩
        rcases List.mem_cons.mp hmem with heq | hmem
        · cases heq
        · exact hnone p l hmem
      · have hpatrol : insertPatrol R entries ⟨patrolId, .directory listing⟩ id = _ := insertRows_readTaskIds
        rw [hpatrol] at h
        rcases hfound : foundIn R listing id with _ | createdAt <;> rw [hfound] at h
        · refine Or.inr ⟨fun p l hmem => ?_, h⟩
          rcases List.mem_cons.mp hmem with heq | hmem
          · cases heq
            exact hfound
          · exact hnone p l hmem
        · exact Or.inl ⟨patrolId, listing, createdAt, List.mem_cons_self .., hfound, h⟩

/-- **The row of a task**: from the last directory in the order of the states that has it. -/
theorem QueueDirs.scanQueueDirs_eq (R : Readers) (d : QueueDirs) (id : String) :
    match foundIn R d.failed id, foundIn R d.done id with
    | some createdAt, _ => d.scanQueueDirs R id = some (finishedRow R d.results .failed id createdAt)
    | none, some createdAt => d.scanQueueDirs R id = some (finishedRow R d.results .done id createdAt)
    | none, none =>
      (∃ patrolId createdAt, d.ClaimedBy R id patrolId createdAt ∧
          d.scanQueueDirs R id = some (claimedRow patrolId id createdAt)) ∨
        (∀ patrolId createdAt, ¬ d.ClaimedBy R id patrolId createdAt) ∧
          d.scanQueueDirs R id = (foundIn R d.pending id).map (pendingRow id) := by
  unfold scanQueueDirs
  simp only [insertRows_readTaskIds]
  rcases foundIn R d.failed id with _ | createdAt
  · rcases foundIn R d.done id with _ | createdAt
    · rcases foldl_insertPatrol (R := R) d.claimed.entries (insertRows pendingRow (readTaskIds R d.pending) fun _ => none) id
        with ⟨patrolId, listing, createdAt, hmem, hfound, h⟩ | ⟨hnone, h⟩
      · exact Or.inl ⟨patrolId, createdAt, ⟨listing, AList.mem_lookup_iff.mpr hmem, hfound⟩, h⟩
      · refine Or.inr ⟨?_, ?_⟩
        · rintro patrolId createdAt ⟨listing, hlookup, hfound⟩
          rw [hnone patrolId listing (AList.mem_lookup_iff.mp hlookup)] at hfound
          cases hfound
        · rw [h, insertRows_readTaskIds]
          rcases foundIn R d.pending id <;> rfl
    · rfl
  · rfl

end Scanned

/-! ### What the ledger says -/

/-- How far along a task of this state is. -/
def LedgerState.rank : LedgerState → Nat
  | pending => 0
  | claimed => 1
  | done => 2
  | failed => 3

/-- The task has a file in a directory of this state. -/
def QueueDirs.Holds (d : QueueDirs) (id : String) : LedgerState → Prop
  | .pending => taskFile id ∈ d.pending
  | .claimed => ∃ patrolId listing, d.claimed.lookup patrolId = some (.directory listing) ∧ taskFile id ∈ listing
  | .done => taskFile id ∈ d.done
  | .failed => taskFile id ∈ d.failed

/-- The entries are those of the tasks in the directories, each in the state furthest along, with
what its result says if the result's verdict is of that state. -/
structure Reflects (R : Readers) (d : QueueDirs) (entries : Ledger) : Prop where
  keys : ∀ id, (entries id).isSome ↔ isValidQueueId id = true ∧ ∃ state, d.Holds id state
  mostTerminal : ∀ id e, entries id = some e →
    e.taskId = id ∧ d.Holds id e.state ∧ ∀ state, d.Holds id state → state.rank ≤ e.state.rank
  owner : ∀ id e, entries id = some e → e.state = .claimed →
    ∃ patrolId createdAt, d.ClaimedBy R id patrolId createdAt ∧ e.owner = some patrolId
  enriched : ∀ id e verdict, entries id = some e → e.verdict = some verdict →
    terminalState verdict = e.state ∧ ∃ r, readResult R d.results id = some r ∧ r.verdict = verdict ∧
      e.owner = some r.patrolId ∧ e.costMicrousd = some r.costMicrousd ∧ e.finishedAt = r.finishedAt
  bare : ∀ id e, entries id = some e → e.verdict = none →
    e.costMicrousd = none ∧ e.finishedAt = none ∧ (e.state ≠ .claimed → e.owner = none)
  complete : ∀ id e r, entries id = some e → 2 ≤ e.state.rank → readResult R d.results id = some r →
    terminalState r.verdict = e.state → e.verdict = some r.verdict

section Reflects

variable {R : Readers} {d : QueueDirs} {id : String}

theorem claimedBy_iff_holds (hid : isValidQueueId id = true) :
    (∃ patrolId createdAt, d.ClaimedBy R id patrolId createdAt) ↔ d.Holds id .claimed := by
  constructor
  · rintro ⟨patrolId, createdAt, listing, hlookup, hfound⟩
    exact ⟨patrolId, listing, hlookup, (foundIn_isSome.mp (Option.isSome_of_eq_some hfound)).2⟩
  · rintro ⟨patrolId, listing, hlookup, hmem⟩
    obtain ⟨createdAt, hfound⟩ := Option.isSome_iff_exists.mp (foundIn_isSome (R := R) |>.mpr ⟨hid, hmem⟩)
    exact ⟨patrolId, createdAt, listing, hlookup, hfound⟩

/-- What a row of the ledger is. -/
inductive RowOf (R : Readers) (d : QueueDirs) (id : String) : LedgerEntry → Prop where
  | pending (createdAt : Option Nat) : RowOf R d id (pendingRow id createdAt)
  | claimed {patrolId : String} {createdAt : Option Nat} (h : d.ClaimedBy R id patrolId createdAt) :
      RowOf R d id (claimedRow patrolId id createdAt)
  | finished {dirState : LedgerState} (createdAt : Option Nat) (h : dirState = .done ∨ dirState = .failed) :
      RowOf R d id (finishedRow R d.results dirState id createdAt)

/-- A task's row, and the directories it stands for. -/
theorem scanQueueDirs_cases (R : Readers) (d : QueueDirs) (id : String) :
    (d.scanQueueDirs R id = none ∧ ∀ state, isValidQueueId id = true → ¬ d.Holds id state) ∨
      ∃ e, d.scanQueueDirs R id = some e ∧ RowOf R d id e ∧ isValidQueueId id = true ∧ d.Holds id e.state ∧
        ∀ state, d.Holds id state → state.rank ≤ e.state.rank := by
  have hrow := d.scanQueueDirs_eq R id
  have hin {listing : Listing} {c : Option Nat} (h : foundIn R listing id = some c) :=
    foundIn_isSome.mp (Option.isSome_of_eq_some h)
  have hout {listing : Listing} (h : foundIn R listing id = none) (hid : isValidQueueId id = true) : taskFile id ∉ listing :=
    fun hmem => by simpa [h] using foundIn_isSome (R := R) |>.mpr ⟨hid, hmem⟩
  rcases hfailed : foundIn R d.failed id with _ | createdAt
  · rcases hdone : foundIn R d.done id with _ | createdAt
    · rw [hfailed, hdone] at hrow
      rcases hrow with ⟨patrolId, createdAt, hclaimed, hrow⟩ | ⟨hnone, hrow⟩
      · have ⟨listing, hlookup, hfound⟩ := hclaimed
        obtain ⟨hid, hmem⟩ := hin hfound
        refine Or.inr ⟨_, hrow, .claimed hclaimed, hid, ⟨patrolId, listing, hlookup, hmem⟩, fun state hstate => ?_⟩
        cases state with
        | pending => exact Nat.zero_le _
        | claimed => exact Nat.le_refl _
        | done => exact absurd hstate (hout hdone hid)
        | failed => exact absurd hstate (hout hfailed hid)
      · rcases hpending : foundIn R d.pending id with _ | createdAt <;> rw [hpending] at hrow
        · refine Or.inl ⟨hrow, fun state hid hstate => ?_⟩
          cases state with
          | pending => exact hout hpending hid hstate
          | claimed =>
            obtain ⟨patrolId, createdAt, hclaimed⟩ := (claimedBy_iff_holds (R := R) hid).mpr hstate
            exact hnone patrolId createdAt hclaimed
          | done => exact hout hdone hid hstate
          | failed => exact hout hfailed hid hstate
        · obtain ⟨hid, hmem⟩ := hin hpending
          refine Or.inr ⟨_, hrow, .pending createdAt, hid, hmem, fun state hstate => ?_⟩
          cases state with
          | pending => exact Nat.le_refl _
          | claimed =>
            obtain ⟨patrolId, createdAt, hclaimed⟩ := (claimedBy_iff_holds (R := R) hid).mpr hstate
            exact absurd hclaimed (hnone patrolId createdAt)
          | done => exact absurd hstate (hout hdone hid)
          | failed => exact absurd hstate (hout hfailed hid)
    · rw [hfailed, hdone] at hrow
      obtain ⟨hid, hmem⟩ := hin hdone
      refine Or.inr ⟨_, hrow, .finished createdAt (Or.inl rfl), hid, hmem, fun state hstate => ?_⟩
      cases state with
      | failed => exact absurd hstate (hout hfailed hid)
      | _ => simp [finishedRow, LedgerState.rank]
  · rw [hfailed] at hrow
    obtain ⟨hid, hmem⟩ := hin hfailed
    refine Or.inr ⟨_, hrow, .finished createdAt (Or.inr rfl), hid, hmem, fun state hstate => ?_⟩
    cases state <;> simp [finishedRow, LedgerState.rank]

/-- **The scan reflects the directories.** -/
theorem reflects_scanQueueDirs : Reflects R d (d.scanQueueDirs R) := by
  have hrow {id : String} {e : LedgerEntry} (he : d.scanQueueDirs R id = some e) : RowOf R d id e ∧ d.Holds id e.state ∧
      ∀ state, d.Holds id state → state.rank ≤ e.state.rank := by
    rcases scanQueueDirs_cases R d id with ⟨hnone, -⟩ | ⟨e', he', hrow, -, hholds, hmost⟩
    · rw [hnone] at he
      cases he
    · obtain rfl := Option.some.inj (he.symm.trans he')
      exact ⟨hrow, hholds, hmost⟩
  constructor
  · intro id
    rcases scanQueueDirs_cases R d id with ⟨hnone, hout⟩ | ⟨e, he, -, hid, hholds, -⟩
    · rw [hnone]
      refine iff_of_false (by simp) ?_
      rintro ⟨hid, state, hstate⟩
      exact hout state hid hstate
    · rw [he]
      exact iff_of_true rfl ⟨hid, e.state, hholds⟩
  · intro id e he
    obtain ⟨hof, hholds, hmost⟩ := hrow he
    refine ⟨?_, hholds, hmost⟩
    cases hof <;> rfl
  · intro id e he hstate
    cases (hrow he).1 with
    | pending => cases hstate
    | claimed h => exact ⟨_, _, h, rfl⟩
    | finished createdAt h => rcases h with rfl | rfl <;> cases hstate
  · intro id e verdict he hverdict
    cases (hrow he).1 with
    | pending => cases hverdict
    | claimed => cases hverdict
    | finished createdAt h =>
      simp only [finishedRow] at hverdict ⊢
      obtain ⟨r, hr, rfl⟩ := Option.map_eq_some_iff.mp hverdict
      obtain ⟨hread, hterminal⟩ := Option.filter_eq_some_iff.mp hr
      rw [hr]
      exact ⟨by simpa using hterminal, r, hread, rfl, rfl, rfl, rfl⟩
  · intro id e he hverdict
    cases (hrow he).1 with
    | pending => exact ⟨rfl, rfl, fun _ => rfl⟩
    | claimed => exact ⟨rfl, rfl, fun h => absurd rfl h⟩
    | finished createdAt h =>
      simp only [finishedRow, Option.map_eq_none_iff] at hverdict ⊢
      simp [hverdict]
  · intro id e r he hrank hread hterminal
    cases (hrow he).1 with
    | pending => simp [pendingRow, LedgerState.rank] at hrank
    | claimed => simp [claimedRow, LedgerState.rank] at hrank
    | finished createdAt h =>
      simp only [finishedRow] at hterminal ⊢
      rw [hread, Option.filter_some, if_pos (by simpa using hterminal)]
      rfl

end Reflects

/-! ### Another order -/

/-- The same under a name in `claimed/`, the directory of a patrol in whatever order it is listed. -/
def SameClaimed : Option ClaimedEntry → Option ClaimedEntry → Prop
  | some (.directory listing), some (.directory listing') => ∀ name, listing.lookup name = listing'.lookup name
  | entry, entry' => entry = entry'

/-- The same directories, in whatever order they are listed. -/
structure QueueDirs.Same (d d' : QueueDirs) : Prop where
  pending : ∀ name, d.pending.lookup name = d'.pending.lookup name
  claimed : ∀ patrolId, SameClaimed (d.claimed.lookup patrolId) (d'.claimed.lookup patrolId)
  done : ∀ name, d.done.lookup name = d'.done.lookup name
  failed : ∀ name, d.failed.lookup name = d'.failed.lookup name
  results : ∀ name, d.results.lookup name = d'.results.lookup name

section Order

variable {R : Readers} {d d' : QueueDirs} {id : String}

theorem foundIn_congr {listing listing' : Listing} (h : ∀ name, listing.lookup name = listing'.lookup name) :
    foundIn R listing id = foundIn R listing' id := by
  rw [foundIn, foundIn, h]

theorem finishedRow_congr {results results' : Listing} (h : ∀ name, results.lookup name = results'.lookup name) :
    finishedRow R results = finishedRow R results' := by
  funext dirState taskId createdAt
  unfold finishedRow readResult
  rw [h]

theorem QueueDirs.Same.claimedBy_iff (h : d.Same d') {patrolId : String} {createdAt : Option Nat} :
    d.ClaimedBy R id patrolId createdAt ↔ d'.ClaimedBy R id patrolId createdAt := by
  have hclaimed := h.claimed patrolId
  unfold ClaimedBy
  rcases he : d.claimed.lookup patrolId with _ | ⟨raw⟩ | ⟨listing⟩ <;>
    rcases he' : d'.claimed.lookup patrolId with _ | ⟨raw'⟩ | ⟨listing'⟩ <;>
    rw [he, he'] at hclaimed <;> simp only [SameClaimed, reduceCtorEq, Option.some.injEq] at hclaimed <;> try simp
  exact iff_of_eq (congrArg (· = some createdAt) (foundIn_congr hclaimed))

/-- Listed in another order, the directories give a task the same row, or the row from another of
the patrols that hold it. -/
theorem QueueDirs.Same.scanQueueDirs (h : d.Same d') (id : String) :
    d'.scanQueueDirs R id = d.scanQueueDirs R id ∨ ∃ patrolId createdAt patrolId' createdAt', patrolId ≠ patrolId' ∧
      d.ClaimedBy R id patrolId createdAt ∧ d.ClaimedBy R id patrolId' createdAt' ∧
      d.scanQueueDirs R id = some (claimedRow patrolId id createdAt) ∧
      d'.scanQueueDirs R id = some (claimedRow patrolId' id createdAt') := by
  have hrow := d.scanQueueDirs_eq R id
  have hrow' := d'.scanQueueDirs_eq R id
  rw [← foundIn_congr h.failed, ← foundIn_congr h.done, ← foundIn_congr h.pending, ← finishedRow_congr h.results] at hrow'
  rcases hfailed : foundIn R d.failed id with _ | createdAt
  · rcases hdone : foundIn R d.done id with _ | createdAt <;> rw [hfailed, hdone] at hrow hrow'
    · rcases hrow with ⟨patrolId, createdAt, hclaimed, hrow⟩ | ⟨hnone, hrow⟩ <;>
        rcases hrow' with ⟨patrolId', createdAt', hclaimed', hrow'⟩ | ⟨hnone', hrow'⟩
      · have hclaimed' := h.claimedBy_iff.mpr hclaimed'
        by_cases hpatrol : patrolId = patrolId'
        · subst hpatrol
          obtain ⟨listing, hlookup, hfound⟩ := hclaimed
          obtain ⟨listing', hlookup', hfound'⟩ := hclaimed'
          obtain rfl : listing = listing' := by
            rw [hlookup] at hlookup'
            cases hlookup'
            rfl
          obtain rfl := Option.some.inj (hfound.symm.trans hfound')
          exact Or.inl (hrow'.trans hrow.symm)
        · exact Or.inr ⟨patrolId, createdAt, patrolId', createdAt', hpatrol, hclaimed, hclaimed', hrow, hrow'⟩
      · exact absurd (h.claimedBy_iff.mp hclaimed) (hnone' _ _)
      · exact absurd (h.claimedBy_iff.mpr hclaimed') (hnone _ _)
      · exact Or.inl (hrow'.trans hrow.symm)
    · exact Or.inl (hrow'.trans hrow.symm)
  · rw [hfailed] at hrow hrow'
    exact Or.inl (hrow'.trans hrow.symm)

end Order

/-! ### The result -/

/-- **Reconcile** writes a ledger that reflects the directories, whatever the ledger was before. The
directories listed in another order give the same ledger, up to which of the patrols that hold a
task its row is from. With coordination off, nothing is written. -/
theorem reconcile_reflects (R : Readers) (d : QueueDirs) (ledger : LedgerFile) :
    (∃ entries, reconcile R true true d ledger = (.ok ⟨LEDGER_VERSION, entries⟩, .written ⟨LEDGER_VERSION, entries⟩) ∧
      Reflects R d entries ∧
      ∀ ledger' d', d.Same d' → ∃ entries',
        reconcile R true true d' ledger' = (.ok ⟨LEDGER_VERSION, entries'⟩, .written ⟨LEDGER_VERSION, entries'⟩) ∧
        ∀ id, entries' id = entries id ∨ ∃ patrolId createdAt patrolId' createdAt', patrolId ≠ patrolId' ∧
          d.ClaimedBy R id patrolId createdAt ∧ d.ClaimedBy R id patrolId' createdAt' ∧
          entries id = some (claimedRow patrolId id createdAt) ∧ entries' id = some (claimedRow patrolId' id createdAt')) ∧
    (∀ ledger', reconcile R true true d ledger' = reconcile R true true d ledger) ∧
    ∀ lockFree, (reconcile R false lockFree d ledger).2 = ledger := by
  refine ⟨⟨d.scanQueueDirs R, rfl, reflects_scanQueueDirs, fun ledger' d' hsame => ?_⟩, fun _ => rfl, fun _ => rfl⟩
  exact ⟨d'.scanQueueDirs R, rfl, hsame.scanQueueDirs⟩

/-! ### A task that two patrols hold -/

/-- The file of a task made at the given second. -/
def sampleTaskText (second : String) : String :=
  "\x7b\"task_id\":\"t\",\"prompt\":\"p\",\"budget_microusd\":0,\"mcp_servers\":[],\"created_at\":\"1970-01-01T00:00:0" ++
    second ++ "Z\"\x7d"

/-- The reader, as far as these files go. -/
def sampleReaders : Readers where
  task text :=
    if text = sampleTaskText "1" then .ok ⟨"t", "p", 0, [], some 1000000000⟩
    else if text = sampleTaskText "2" then .ok ⟨"t", "p", 0, [], some 2000000000⟩
    else .error "expected value at line 1 column 1"
  result _ := .error "expected value at line 1 column 1"

/-- The directory of a patrol that holds the task, made at the given second. -/
def holdsTask (second : String) : ClaimedEntry :=
  .directory (AList.singleton "t.json" (.file (sampleTaskText second).toByteArray))

/-- Two patrols that hold it. -/
def claimedTwice : QueueDirs := ⟨∅, (AList.singleton "b" (holdsTask "2")).insert "a" (holdsTask "1"), ∅, ∅, ∅⟩

/-- The same, the other one first. -/
def claimedTwice' : QueueDirs := ⟨∅, (AList.singleton "a" (holdsTask "1")).insert "b" (holdsTask "2"), ∅, ∅, ∅⟩

theorem claimedTwice_same : claimedTwice.Same claimedTwice' := by
  have hlookup (patrolId : String) : claimedTwice.claimed.lookup patrolId = claimedTwice'.claimed.lookup patrolId := by
    refine AList.perm_lookup ?_
    exact List.Perm.swap _ _ _
  refine ⟨fun _ => rfl, fun patrolId => ?_, fun _ => rfl, fun _ => rfl, fun _ => rfl⟩
  rw [hlookup]
  rcases claimedTwice'.claimed.lookup patrolId with _ | ⟨raw⟩ | ⟨listing⟩
  · rfl
  · rfl
  · exact fun _ => rfl

/-- **The ledger's time of creation is of the patrol listed last, as the owner is.** -/
theorem reconcile_creation_time :
    ¬ ∀ (R : Readers) (d d' : QueueDirs) (ledger ledger' : LedgerFile) (snapshot snapshot' : LedgerSnapshot), d.Same d' →
      (reconcile R true true d ledger).1 = .ok snapshot → (reconcile R true true d' ledger').1 = .ok snapshot' →
      ∀ id, (snapshot'.entries id).map (fun e => { e with owner := none }) =
        (snapshot.entries id).map fun e => { e with owner := none } := by
  intro h
  have heq := h sampleReaders claimedTwice claimedTwice' .missing .missing _ _ claimedTwice_same rfl rfl "t"
  have hcreated := congrArg (fun e => e.map LedgerEntry.createdAt) heq
  simp only [Option.map_map] at hcreated
  exact absurd hcreated (by decide +kernel)

end Nerve.Queue
