import Nerve.Library.CriticalSection
import Nerve.Store.FilePrograms
import Nerve.Store.PatchRecords

/-!
# The lock of the patch index

`upsert_patch_record` and `set_patch_applied` read the index, change it and replace the file, and while they do they hold
`index.lock`: a file that only one of them can create, and that is removed at the end. In `Nerve.Store.Model` each of them
is one step. Here each goes through the files question by question, and any number of processes take their steps in any
order; a process that dies leaves its lock behind.

`index_in_turn` says of every run that this comes to the same: with the lock free, the files are what the updates make of
them one after the other, and no record is lost (`upserted_kept`).
-/

namespace Nerve.Store

open TransitionSystem CriticalSection

namespace FileProgram

open Dialogue

def loadIndex : FileProgram StoreError PatchIndex :=
  .ask (.exists? .patches indexName) fun (there : Bool) =>
    if there then readJson .patches indexName Stored.asPatchIndex else .done ⟨[]⟩

/-- `upsert_patch_record`, with the lock. -/
def upsertPatchRecord (record : PatchRecord) : FileProgram StoreError Unit := do
  let index ← loadIndex
  let patches := index.patches.filter fun existing => existing.id != record.id
  writeJson .patches indexName (.patchIndex ⟨patches ++ [record]⟩)

def setSessionApplied (id : String) (applied : Bool) : FileProgram StoreError Unit :=
  .ask (.exists? .sessions (jsonName id)) fun (there : Bool) =>
    if there then do
      let r ← readJson .sessions (jsonName id) Stored.asReport
      writeJson .sessions (jsonName id) (.report { r with report := { r.report with applied := applied } })
    else .done ()

/-- `set_patch_applied`, with the lock. -/
def setPatchApplied (id : String) (applied : Bool) : FileProgram StoreError Unit := do
  let index ← loadIndex
  match index.patches.find? fun record => record.id = id with
  | none => .fail (.notIndexed id)
  | some record => do
    writeJson .patches indexName (.patchIndex ⟨markRecord id applied index.patches⟩)
    setSessionApplied record.sessionId applied

section serve

variable {disk : Disk} {w : Workspace} {dir : Dir} {name : String}

theorem serve_loadIndex : loadIndex.serve (answerFile disk) w = (Store.loadIndex w, w) := by
  rw [loadIndex, Dialogue.serve_ask, Store.loadIndex, answerFile]
  cases exists? w .patches indexName with
  | false => rfl
  | true => exact serve_readJson

theorem serve_setSessionApplied {id : String} {applied : Bool} :
    (setSessionApplied id applied).serve (answerFile disk) w = Store.setSessionApplied disk id applied w := by
  rw [setSessionApplied, Dialogue.serve_ask, Store.setSessionApplied, answerFile]
  cases exists? w .sessions (jsonName id) with
  | false => rfl
  | true =>
    dsimp only
    rw [if_pos rfl, if_pos rfl, Dialogue.serve_bind, serve_readJson]
    cases Store.readJson w .sessions (jsonName id) Stored.asReport with
    | error e => rfl
    | ok r => exact serve_writeJson

/-- With the lock, an update of the index is the operation. -/
theorem serve_upsertPatchRecord {record : PatchRecord} (hlock : lockIndex disk w = .ok ()) :
    (upsertPatchRecord record).serve (answerFile disk) w = Store.upsertPatchRecord disk record w := by
  rw [upsertPatchRecord, Dialogue.serve_bind, serve_loadIndex, Store.upsertPatchRecord, hlock]
  cases Store.loadIndex w with
  | error e => rfl
  | ok index => exact serve_writeJson

theorem serve_setPatchApplied {id : String} {applied : Bool} (hlock : lockIndex disk w = .ok ()) :
    (setPatchApplied id applied).serve (answerFile disk) w = Store.setPatchApplied disk id applied w := by
  rw [setPatchApplied, Dialogue.serve_bind, serve_loadIndex, Store.setPatchApplied, hlock]
  cases Store.loadIndex w with
  | error e => rfl
  | ok index =>
    dsimp only
    cases index.patches.find? fun record => record.id = id with
    | none => rfl
    | some record =>
      dsimp only
      rw [Dialogue.serve_bind, serve_writeJson]
      rcases Store.writeJson w .patches indexName disk _ with ⟨_ | _, w'⟩
      · rfl
      · exact serve_setSessionApplied

end serve

section asks

variable {dir dir' : Dir} {name name' : String}

theorem asks_loadIndex : loadIndex.Asks fun q => ¬q.Writes dir name := by
  refine ⟨id, fun there => ?_⟩
  cases there with
  | false => trivial
  | true => exact looks_readJson.mono fun _ h => h.not_writes

/-- It stays in its directory. -/
theorem asks_setSessionApplied {id : String} {applied : Bool} :
    (setSessionApplied id applied).Asks fun q => ¬q.Writes .patches name := by
  refine ⟨fun h => h, fun there => ?_⟩
  cases there with
  | false => trivial
  | true => exact (looks_readJson.mono fun _ h => h.not_writes).bind fun r => asks_writeJson (by simp)

/-- The index is the only file that it changes. -/
theorem asks_upsertPatchRecord {record : PatchRecord} (h : indexName ≠ name) :
    (upsertPatchRecord record).Asks fun q => ¬q.Writes .patches name :=
  asks_loadIndex.bind fun _ => asks_writeJson fun hsame => h hsame.2

theorem asks_setPatchApplied {id : String} {applied : Bool} (h : indexName ≠ name) :
    (setPatchApplied id applied).Asks fun q => ¬q.Writes .patches name := by
  refine asks_loadIndex.bind fun index => ?_
  cases index.patches.find? fun record => record.id = id with
  | none => trivial
  | some record => exact (asks_writeJson fun hsame => h hsame.2).bind fun _ => asks_setSessionApplied

/-- It changes the index once. -/
theorem asksOnce_upsertPatchRecord {record : PatchRecord} :
    (upsertPatchRecord record).AsksOnce fun q => q.Writes .patches indexName :=
  asks_loadIndex.bind_asksOnce fun _ => asksOnce_writeJson

theorem asksOnce_setPatchApplied {id : String} {applied : Bool} :
    (setPatchApplied id applied).AsksOnce fun q => q.Writes .patches indexName := by
  refine asks_loadIndex.bind_asksOnce fun index => ?_
  cases index.patches.find? fun record => record.id = id with
  | none => trivial
  | some record => exact asksOnce_writeJson.bind fun _ => asks_setSessionApplied

end asks

end FileProgram

/-! ### The updates -/

inductive IndexUpdate where
  | upsert (record : PatchRecord)
  | setApplied (id : String) (applied : Bool)

namespace IndexUpdate

def program : IndexUpdate → FileProgram StoreError Unit
  | upsert record => FileProgram.upsertPatchRecord record
  | setApplied id applied => FileProgram.setPatchApplied id applied

/-- It makes a new record of the patch. -/
def Replaces (id : String) : IndexUpdate → Prop
  | upsert record => record.id = id
  | setApplied .. => False

/-- It marks the record of the patch. -/
def Marks (id : String) (applied : Bool) : IndexUpdate → Prop
  | upsert _ => False
  | setApplied id' applied' => id' = id ∧ applied' = applied

theorem asks_program (u : IndexUpdate) {name : String} (h : indexName ≠ name) :
    u.program.Asks fun q => ¬q.Writes .patches name := by
  cases u with
  | upsert record => exact FileProgram.asks_upsertPatchRecord h
  | setApplied id applied => exact FileProgram.asks_setPatchApplied h

theorem asksOnce_program (u : IndexUpdate) : u.program.AsksOnce fun q => q.Writes .patches indexName := by
  cases u with
  | upsert record => exact FileProgram.asksOnce_upsertPatchRecord
  | setApplied id applied => exact FileProgram.asksOnce_setPatchApplied

end IndexUpdate

/-- An update, and the disk that it finds. -/
structure IndexCall where
  update : IndexUpdate
  disk : Disk

/-- The update in one step, with nobody else there. -/
def IndexCall.run (c : IndexCall) (w : Workspace) : Result Unit :=
  match c.update with
  | .upsert record => upsertPatchRecord c.disk record w
  | .setApplied id applied => setPatchApplied c.disk id applied w

/-- `RETRIES` -/
def lockRetries : Nat := 200

/-- The updates under `StoreLock`. The lock is a file: it outlives whoever has created it. -/
def indexOperations : Operations FileQuestion FileQuestion.Answer StoreError Unit Workspace IndexCall where
  program c := c.update.program
  handler c := answerFile c.disk
  tries _ := lockRetries
  timeout _ := .lockTimeout .patches indexLockName
  refusal c := if c.disk .patches indexLockName then none else some (.lock .patches indexLockName)
  frees := false

/-- The processes, the files, and the lock. -/
abbrev IndexState := State FileQuestion FileQuestion.Answer StoreError Unit Workspace IndexCall

abbrev indexStep := CriticalSection.step indexOperations

theorem serve_indexOperations {c : IndexCall} {w : Workspace} (hop : indexOperations.refusal c = none)
    (hfree : exists? w .patches indexLockName = false) :
    (indexOperations.program c).serve (indexOperations.handler c) w = c.run w := by
  have hdisk : c.disk .patches indexLockName = true := by simpa [indexOperations] using hop
  have hlock : lockIndex c.disk w = .ok () := by simp [lockIndex, hfree, hdisk]
  obtain ⟨update, disk⟩ := c
  cases update with
  | upsert record => exact FileProgram.serve_upsertPatchRecord hlock
  | setApplied id applied => exact FileProgram.serve_setPatchApplied hlock

/-! ### One after the other -/

/-- The files after the updates, each in one step. -/
def inTurn (w : Workspace) (cs : List IndexCall) : Workspace := cs.foldl (fun w c => (c.run w).2) w

/-- What they return. -/
def resultsInTurn : Workspace → List IndexCall → List (Except StoreError Unit)
  | _, [] => []
  | w, c :: cs => (c.run w).1 :: resultsInTurn (c.run w).2 cs

theorem inTurn_append {w : Workspace} {cs cs' : List IndexCall} :
    inTurn w (cs ++ cs') = inTurn (inTurn w cs) cs' := List.foldl_append

theorem resultsInTurn_append {w : Workspace} {cs cs' : List IndexCall} :
    resultsInTurn w (cs ++ cs') = resultsInTurn w cs ++ resultsInTurn (inTurn w cs) cs' := by
  induction cs generalizing w with
  | nil => rfl
  | cons c cs ih => exact congrArg _ ih

@[simp]
theorem inTurn_concat {w : Workspace} {cs : List IndexCall} {c : IndexCall} :
    inTurn w (cs ++ [c]) = (c.run (inTurn w cs)).2 := inTurn_append

@[simp]
theorem resultsInTurn_concat {w : Workspace} {cs : List IndexCall} {c : IndexCall} :
    resultsInTurn w (cs ++ [c]) = resultsInTurn w cs ++ [(c.run (inTurn w cs)).1] := resultsInTurn_append

theorem length_resultsInTurn {w : Workspace} {cs : List IndexCall} : (resultsInTurn w cs).length = cs.length := by
  induction cs generalizing w with
  | nil => rfl
  | cons c cs ih => exact congrArg _ ih

def indexFile (w : Workspace) : Option Stored := w.files.read .patches indexName

def indexLockFile (w : Workspace) : Option Stored := w.files.read .patches indexLockName

section Serial

variable {w w' : Workspace} {es : List (Ended StoreError Unit IndexCall)}

theorem indexLockFile_handler (c : IndexCall) (q : FileQuestion) (h : ¬q.Writes .patches indexLockName) (w : Workspace) :
    indexLockFile (indexOperations.handler c w q).2 = indexLockFile w := read_answerFile q h w

/-- No update leaves a lock. -/
theorem unlocked_of_serial (h : Serial indexOperations w es w') (hfree : exists? w .patches indexLockName = false) :
    exists? w' .patches indexLockName = false := by
  have hasks (c : IndexCall) : c.update.program.Asks fun q => ¬q.Writes .patches indexLockName :=
    c.update.asks_program (by decide)
  have hkeeps (c : IndexCall) (w : Workspace) :
      indexLockFile ((indexOperations.program c).serve (indexOperations.handler c) w).2 = indexLockFile w :=
    (hasks c).serve_view (indexLockFile_handler c) w
  induction h with
  | nil => exact hfree
  | @whole es w₁ w₂ i c result h hop ih =>
    have hsame := hkeeps c w₁
    rw [hop] at hsame
    exact (exists?_congr hsame).trans ih
  | @stopped es w₁ w₂ i c d h hop ih =>
    have hsame : indexLockFile w₂ = indexLockFile w₁ := by
      obtain heq | heq := hop.view (indexLockFile_handler c) (hasks c).asksOnce
      · exact heq
      · exact heq.trans (hkeeps c w₁)
    exact (exists?_congr hsame).trans ih

/-- As long as nobody dies the updates come to those in one step. -/
theorem inTurn_of_serial (h : Serial indexOperations w es w') (hfree : exists? w .patches indexLockName = false)
    (hop : ∀ e ∈ es, indexOperations.refusal e.op = none) (hlived : ∀ e ∈ es, e.result ≠ none) :
    w' = inTurn w (es.map Ended.op) ∧ es.map Ended.result = (resultsInTurn w (es.map Ended.op)).map some := by
  induction h with
  | nil => exact ⟨rfl, rfl⟩
  | @whole es w₁ w₂ i c result h hserve ih =>
    have hmem {e : Ended StoreError Unit IndexCall} (he : e ∈ es) : e ∈ es ++ [⟨i, c, some result⟩] :=
      List.mem_append_left _ he
    obtain ⟨rfl, hresults⟩ := ih (fun e he => hop e (hmem he)) fun e he => hlived e (hmem he)
    have hrun : c.run (inTurn w (es.map Ended.op)) = (result, w₂) :=
      (serve_indexOperations (hop ⟨i, c, some result⟩ (by simp)) (unlocked_of_serial h hfree)).symm.trans hserve
    simp [hresults, hrun]
  | stopped h hserve ih => exact absurd rfl (hlived _ (List.mem_append_right _ List.mem_cons_self))

/-- Whoever reads the index during an update reads it as before or as after. -/
theorem indexFile_of_served {c : IndexCall} {d : FileProgram StoreError Unit} {w'' : Workspace}
    (h : Serial indexOperations w es w') (hfree : exists? w .patches indexLockName = false)
    (hes : ∀ e ∈ es, indexOperations.refusal e.op = none) (hlived : ∀ e ∈ es, e.result ≠ none)
    (hop : indexOperations.refusal c = none)
    (hserved : Served (indexOperations.handler c) (indexOperations.program c) w' d w'') :
    indexFile w'' = indexFile (inTurn w (es.map Ended.op)) ∨
      indexFile w'' = indexFile (inTurn w (es.map Ended.op ++ [c])) := by
  have hview : ∀ q, ¬q.Writes .patches indexName → ∀ w, indexFile (indexOperations.handler c w q).2 = indexFile w :=
    fun q hq w => read_answerFile q hq w
  have hrun := serve_indexOperations hop (unlocked_of_serial h hfree)
  obtain ⟨rfl, -⟩ := inTurn_of_serial h hfree hes hlived
  rw [inTurn_concat, ← hrun]
  exact hserved.view hview c.update.asksOnce_program

end Serial

/-! ### Every run -/

/-- The updates that were made whole. -/
def doneIn (s : IndexState) : List IndexCall := s.whole.map Ended.op

/-- The files are what the updates make of them one after the other, each by one caller, who gets its result. -/
structure InTurn (w : Workspace) (s : IndexState) : Prop where
  files : s.shared = inTurn w (s.ended.map Ended.op)
  results : s.ended.map Ended.result = (resultsInTurn w (s.ended.map Ended.op)).map some
  once : (s.ended.map Ended.caller).Nodup
  told : ∀ i c result, s.At i c (.returned result) → ⟨i, c, some result⟩ ∈ s.ended

/-- What every step keeps. -/
structure IndexInv (w : Workspace) (s : IndexState) : Prop where
  ordered : Ordered indexOperations w s
  admitted : Admitted indexOperations s
  stuck : Stuck s
  halted : Halted s

section Run

variable {w : Workspace} {s : IndexState}

theorem indexInv_always (w : Workspace) (as : List (Action IndexCall)) :
    Always indexStep (IndexInv w) (.start w) as := by
  have h := (ordered_always indexOperations w as).and (stuck_always indexOperations rfl w as)
  exact h.mono fun s h => ⟨h.1.1, h.1.2, h.2.1, h.2.2⟩

theorem IndexInv.inTurn (h : IndexInv w s) (hfree : exists? w .patches indexLockName = false) (hlocked : s.locked = false) :
    InTurn w s := by
  have hlived : ∀ e ∈ s.ended, e.result ≠ none := fun e he hdead => by
    have := (h.stuck ⟨e, he, hdead⟩).1
    rw [hlocked] at this
    cases this
  have hidle (i : Nat) (c : IndexCall) (d : FileProgram StoreError Unit) : ¬s.At i c (.inside d) := fun hi => by
    have := h.ordered.locked i (hi.holds rfl)
    rw [hlocked] at this
    cases this
  obtain ⟨hfiles, hresults⟩ := inTurn_of_serial (h.ordered.idle hidle) hfree h.admitted.ended hlived
  exact ⟨hfiles, hresults, h.ordered.nodup, fun i c result hi => h.ordered.told i c result (.inr hi)⟩

/-- What the whole updates return, and where the index is. -/
theorem IndexInv.done (h : IndexInv w s) (hfree : exists? w .patches indexLockName = false) :
    s.whole.map Ended.result = (resultsInTurn w (doneIn s)).map some ∧
      (indexFile s.shared = indexFile (Store.inTurn w (doneIn s)) ∨
        ∃ c, s.Begun c ∧ indexFile s.shared = indexFile (Store.inTurn w (doneIn s ++ [c]))) := by
  have hop : ∀ e ∈ s.whole, indexOperations.refusal e.op = none :=
    fun e he => h.admitted.ended e (List.mem_filter.mp he).1
  have hlived : ∀ e ∈ s.whole, e.result ≠ none := fun e => result_of_mem_whole
  obtain ⟨w', hserial, hshared⟩ := exists_serial_whole h.ordered h.stuck h.halted
  obtain ⟨hfiles, hresults⟩ := inTurn_of_serial hserial hfree hop hlived
  refine ⟨hresults, ?_⟩
  obtain heq | ⟨c, d, hbegun, hserved⟩ := hshared
  · rw [heq, hfiles]
    exact .inl rfl
  · have hc : indexOperations.refusal c = none := by
      obtain ⟨i, d, hi⟩ | ⟨i, hi⟩ := hbegun
      · exact h.admitted.inside i c d hi
      · exact h.admitted.ended _ hi
    exact (indexFile_of_served hserial hfree hop hlived hc hserved).imp_right fun heq => ⟨c, hbegun, heq⟩

end Run

/-- An update that makes a record for the patch. -/
def recordCall (id : String) : IndexCall where
  update := .upsert ⟨id, "a", "p", "2025-01-01T00:00:00Z", 1, [], .lgtm, false⟩
  disk _ _ := true

/-- Two updates: the second process waits while the first is inside. -/
def twoRecords : List (Action IndexCall) :=
  [.call (recordCall "p"), .call (recordCall "q"), .go 0, .go 1, .go 0, .go 0, .go 0, .go 1, .go 0] ++ List.replicate 6 (.go 1)

/-- **The updates of the index go one after the other**, in every run: at most one process has the lock, and
when it is free, the files are what the updates that are over make of them in one step each, and every process that has
returned has the result of its own. -/
theorem index_in_turn (w : Workspace) (hfree : exists? w .patches indexLockName = false) (as : List (Action IndexCall)) :
    Always indexStep (fun s => (∀ i j, s.Holds i → s.Holds j → i = j) ∧ (s.locked = false → InTurn w s)) (.start w) as :=
  (indexInv_always w as).mono fun _ h => ⟨h.ordered.alone, h.inTurn hfree⟩

theorem index_in_turn_twoRecords : ∃ s, run indexStep (.start ⟨.empty, ∅⟩) twoRecords = some s ∧
    Always indexStep (fun s => (∀ i j, s.Holds i → s.Holds j → i = j) ∧ (s.locked = false → InTurn ⟨.empty, ∅⟩ s))
      (.start ⟨.empty, ∅⟩) twoRecords :=
  ⟨_, rfl, index_in_turn ⟨.empty, ∅⟩ rfl twoRecords⟩

/-- **Whoever reads the index without the lock**, at any moment and whoever has died, reads what the finished updates have
made of it, or those and one more. -/
theorem index_seen_whole (w : Workspace) (hfree : exists? w .patches indexLockName = false) (as : List (Action IndexCall)) :
    Always indexStep (fun s => loadIndex s.shared = loadIndex (inTurn w (doneIn s)) ∨
      ∃ c, s.Begun c ∧ loadIndex s.shared = loadIndex (inTurn w (doneIn s ++ [c]))) (.start w) as :=
  (indexInv_always w as).mono fun _ h =>
    (h.done hfree).2.imp loadIndex_congr fun ⟨c, hc, heq⟩ => ⟨c, hc, loadIndex_congr heq⟩

theorem index_seen_whole_twoRecords : ∃ s, run indexStep (.start ⟨.empty, ∅⟩) twoRecords = some s ∧
    Always indexStep (fun s => loadIndex s.shared = loadIndex (inTurn ⟨.empty, ∅⟩ (doneIn s)) ∨
      ∃ c, s.Begun c ∧ loadIndex s.shared = loadIndex (inTurn ⟨.empty, ∅⟩ (doneIn s ++ [c])))
      (.start ⟨.empty, ∅⟩) twoRecords :=
  ⟨_, rfl, index_seen_whole ⟨.empty, ∅⟩ rfl twoRecords⟩

/-! ### No record is lost -/

section Records

variable {w : Workspace}

/-- The record is there as it is, or with one of these marks. -/
def HasRecord (marks : Bool → Prop) (w : Workspace) (record : PatchRecord) : Prop :=
  ∃ applied, recordOf w record.id = some { record with applied := applied } ∧ (applied = record.applied ∨ marks applied)

theorem recordOf_indexFile {index : PatchIndex} {id : String} (h : indexFile w = some (.patchIndex index)) :
    recordOf w id = index.patches.find? fun record => record.id = id := by
  unfold indexFile at h
  unfold recordOf loadIndex readJson exists?
  rw [h]
  rfl

theorem recordOf_writeIndex {disk : Disk} {index : PatchIndex} {w' : Workspace} {id : String}
    (h : writeJson w .patches indexName disk (.patchIndex index) = (.ok (), w')) :
    recordOf w' id = index.patches.find? fun record => record.id = id :=
  recordOf_indexFile (((read_writeJson h).2.2 _ _).trans (if_pos ⟨rfl, rfl⟩))

theorem exists_find?_markRecord (id : String) (applied : Bool) {id' : String} {record : PatchRecord}
    {records : List PatchRecord} (h : (records.find? fun r => r.id = id') = some record) :
    ∃ applied', ((markRecord id applied records).find? fun r => r.id = id') = some { record with applied := applied' } ∧
      (applied' = record.applied ∨ id = id' ∧ applied = applied') := by
  induction records with
  | nil => cases h
  | cons first records ih =>
    by_cases hfirst : first.id = id'
    · obtain rfl : first = record := by simpa [hfirst] using h
      rw [markRecord]
      split_ifs with hid
      · exact ⟨applied, by simp [hfirst], .inr ⟨hid.symm.trans hfirst, rfl⟩⟩
      · exact ⟨first.applied, by rw [List.find?_cons_of_pos (by simpa using hfirst)], .inl rfl⟩
    · have hrest : (records.find? fun r => r.id = id') = some record := by simpa [hfirst] using h
      rw [markRecord]
      split_ifs with hid
      · exact ⟨record.applied, (List.find?_cons_of_neg (by simpa using hfirst)).trans hrest, .inl rfl⟩
      · obtain ⟨applied', ih, hmark⟩ := ih hrest
        exact ⟨applied', (List.find?_cons_of_neg (by simpa using hfirst)).trans ih, hmark⟩

theorem indexFile_setSessionApplied {disk : Disk} {id : String} {applied : Bool} :
    indexFile (setSessionApplied disk id applied w).2 = indexFile w := by
  by_cases h : SessionFollows disk w id
  · obtain ⟨w', heq, -, hindex, -⟩ := setSessionApplied_ok applied h
    rw [heq]
    exact hindex
  · obtain ⟨e, heq⟩ := setSessionApplied_error applied h
    rw [heq]

variable {marks : Bool → Prop}

theorem HasRecord.congr {w' : Workspace} {record : PatchRecord} (h : HasRecord marks w record)
    (heq : indexFile w' = indexFile w) : HasRecord marks w' record := by
  unfold HasRecord
  rwa [recordOf_congr heq]

theorem HasRecord.mono {marks' : Bool → Prop} {record : PatchRecord} (h : HasRecord marks w record)
    (hmarks : ∀ applied, marks applied → marks' applied) : HasRecord marks' w record := by
  obtain ⟨applied, hrecord, hmark⟩ := h
  exact ⟨applied, hrecord, hmark.imp_right (hmarks applied)⟩

/-- The index is replaced, or nothing changes. -/
theorem upsertPatchRecord_cases (disk : Disk) (record : PatchRecord) (w : Workspace) :
    (∃ e, upsertPatchRecord disk record w = (.error e, w)) ∨
      ∃ index w', loadIndex w = .ok index ∧ upsertPatchRecord disk record w = (.ok (), w') ∧
        writeJson w .patches indexName disk
          (.patchIndex ⟨(index.patches.filter fun existing => existing.id != record.id) ++ [record]⟩) = (.ok (), w') := by
  unfold upsertPatchRecord
  cases lockIndex disk w with
  | error e => exact .inl ⟨e, rfl⟩
  | ok =>
    cases loadIndex w with
    | error e => exact .inl ⟨e, rfl⟩
    | ok index =>
      dsimp only
      rcases hwrite : writeJson w .patches indexName disk _ with ⟨e | ⟨⟩, w'⟩
      · rw [(writeJson_error hwrite).2]
        exact .inl ⟨e, rfl⟩
      · exact .inr ⟨index, w', rfl, rfl, hwrite⟩

/-- A new record leaves those of the other patches. -/
theorem HasRecord.upsert {disk : Disk} {record record' : PatchRecord} (h : HasRecord marks w record)
    (hid : record'.id ≠ record.id) : HasRecord marks (upsertPatchRecord disk record' w).2 record := by
  obtain ⟨e, heq⟩ | ⟨index', w', hindex', heq, hwrite⟩ := upsertPatchRecord_cases disk record' w
  · rwa [heq]
  · obtain ⟨applied, hrecord, hmark⟩ := h
    obtain ⟨index, hindex, hfind, -⟩ := exists_index hrecord
    obtain rfl : index = index' := Except.ok.inj (hindex.symm.trans hindex')
    have hsame : (fun existing : PatchRecord => decide ((existing.id != record'.id) = true ∧
        decide (existing.id = record.id) = true)) = fun existing => decide (existing.id = record.id) := by
      funext existing
      by_cases heq : existing.id = record.id
      · simp [heq, hid.symm]
      · simp [heq]
    refine ⟨applied, ?_, hmark⟩
    rw [heq, recordOf_writeIndex hwrite, List.find?_append, List.find?_filter, hsame, hfind, Option.some_or]

theorem HasRecord.setApplied {disk : Disk} {id : String} {applied : Bool} {record : PatchRecord}
    (h : HasRecord marks w record) :
    HasRecord (fun mark => marks mark ∨ id = record.id ∧ applied = mark) (setPatchApplied disk id applied w).2 record := by
  obtain hmarked | ⟨record', hmarked⟩ := (marked disk w id).eq_none_or_eq_some
  · obtain ⟨e, heq⟩ := setPatchApplied_unmarked applied hmarked
    rw [heq]
    exact h.mono fun _ => .inl
  · obtain ⟨applied₀, hrecord, hmark⟩ := h
    obtain ⟨index, hindex, hfind, hfile⟩ := exists_index hrecord
    obtain ⟨index', w', -, hfile', -, hwrite, heq⟩ := setPatchApplied_marked applied hmarked
    obtain rfl : index = index' := by simpa using hfile.symm.trans hfile'
    obtain ⟨applied₁, hfind', hmark₁⟩ := exists_find?_markRecord id applied hfind
    have hfile' : indexFile w' = some (.patchIndex ⟨markRecord id applied index.patches⟩) :=
      (hwrite _ _).trans (if_pos ⟨rfl, rfl⟩)
    have hrecord₀ : HasRecord (fun mark => marks mark ∨ id = record.id ∧ applied = mark) w' record := by
      refine ⟨applied₁, (recordOf_indexFile hfile').trans hfind', ?_⟩
      rcases hmark₁ with rfl | hmark₁
      · exact hmark.imp_right .inl
      · exact .inr (.inr hmark₁)
    rw [heq]
    exact hrecord₀.congr indexFile_setSessionApplied

theorem HasRecord.run {record : PatchRecord} {c : IndexCall} (h : HasRecord marks w record)
    (hc : ¬c.update.Replaces record.id) :
    HasRecord (fun applied => marks applied ∨ c.update.Marks record.id applied) (c.run w).2 record := by
  obtain ⟨record' | ⟨id, applied⟩, disk⟩ := c
  · exact (h.upsert hc).mono fun _ => .inl
  · exact h.setApplied

theorem HasRecord.inTurn {record : PatchRecord} {cs : List IndexCall} (h : HasRecord marks w record)
    (hcs : ∀ c ∈ cs, ¬c.update.Replaces record.id) :
    HasRecord (fun applied => marks applied ∨ ∃ c ∈ cs, c.update.Marks record.id applied) (Store.inTurn w cs) record := by
  induction cs generalizing w marks with
  | nil => exact h.mono fun _ => .inl
  | cons c cs ih =>
    have hrest := ih (h.run (hcs c List.mem_cons_self)) fun c' hc' => hcs c' (List.mem_cons_of_mem _ hc')
    refine hrest.mono fun applied happlied => ?_
    rcases happlied with (happlied | happlied) | ⟨c', hc', happlied⟩
    · exact .inl happlied
    · exact .inr ⟨c, List.mem_cons_self, happlied⟩
    · exact .inr ⟨c', List.mem_cons_of_mem _ hc', happlied⟩

/-- A record that was made is there. -/
theorem hasRecord_upsert {record : PatchRecord} {disk : Disk} (h : (upsertPatchRecord disk record w).1 = .ok ()) :
    HasRecord (fun _ => False) (upsertPatchRecord disk record w).2 record := by
  obtain ⟨e, heq⟩ | ⟨index, w', -, heq, hwrite⟩ := upsertPatchRecord_cases disk record w
  · rw [heq] at h
    cases h
  · have hnone : (index.patches.filter fun existing => existing.id != record.id).find?
        (fun existing => existing.id = record.id) = none := by simp
    refine ⟨record.applied, ?_, .inl rfl⟩
    rw [heq, recordOf_writeIndex hwrite, List.find?_append, hnone]
    simp

/-- A record that an update has made is there after those that follow. -/
theorem hasRecord_of_results {before after : List IndexCall} {record : PatchRecord} {disk : Disk}
    (h : (resultsInTurn w (before ++ ⟨.upsert record, disk⟩ :: after))[before.length]? = some (.ok ()))
    (hafter : ∀ c ∈ after, ¬c.update.Replaces record.id) :
    HasRecord (fun applied => ∃ c ∈ after, c.update.Marks record.id applied)
      (Store.inTurn w (before ++ ⟨.upsert record, disk⟩ :: after)) record := by
  rw [resultsInTurn_append, ← length_resultsInTurn (w := w), List.getElem?_append_right le_rfl, Nat.sub_self] at h
  rw [inTurn_append]
  exact ((hasRecord_upsert (Option.some.inj h)).inTurn hafter).mono fun _ hmark => hmark.resolve_left id

/-- **No record is lost**: once an update has made its record, everybody who reads the index finds it, until another
update begins to make one of the same patch; and finds it as it was made, unless an update has begun to mark it. -/
theorem upserted_kept (w : Workspace) (hfree : exists? w .patches indexLockName = false) (as : List (Action IndexCall)) :
    Always indexStep (fun s => ∀ before after i record disk,
      s.ended = before ++ ⟨i, ⟨.upsert record, disk⟩, some (.ok ())⟩ :: after →
      (∀ e ∈ after, ¬e.op.update.Replaces record.id) → (∀ c, s.Begun c → ¬c.update.Replaces record.id) →
      HasRecord (fun applied => (∃ e ∈ after, e.op.update.Marks record.id applied) ∨
        ∃ c, s.Begun c ∧ c.update.Marks record.id applied) s.shared record) (.start w) as := by
  refine (indexInv_always w as).mono fun s h before after i record disk hended hafter hbegun => ?_
  obtain ⟨hresults, hseen⟩ := h.done hfree
  have hwhole : s.whole = (before.filter fun e => e.result.isSome) ++
      ⟨i, ⟨.upsert record, disk⟩, some (.ok ())⟩ :: after.filter fun e => e.result.isSome := by
    simp [State.whole, hended]
  have hdone : doneIn s = (before.filter fun e => e.result.isSome).map Ended.op ++
      ⟨.upsert record, disk⟩ :: (after.filter fun e => e.result.isSome).map Ended.op := by simp [doneIn, hwhole]
  have hrecord₀ : HasRecord (fun applied => ∃ e ∈ after, e.op.update.Marks record.id applied)
      (Store.inTurn w (doneIn s)) record := by
    have hresult := congrArg (fun results => results[(before.filter fun e => e.result.isSome).length]?) hresults
    rw [hdone] at hresult ⊢
    refine (hasRecord_of_results ?_ fun c hc => ?_).mono fun applied happlied => ?_
    · simpa [hwhole] using hresult.symm
    · obtain ⟨e, he, rfl⟩ := List.mem_map.mp hc
      exact hafter e (List.mem_filter.mp he).1
    · obtain ⟨c, hc, hmark⟩ := happlied
      obtain ⟨e, he, rfl⟩ := List.mem_map.mp hc
      exact ⟨e, (List.mem_filter.mp he).1, hmark⟩
  obtain heq | ⟨c, hc, heq⟩ := hseen
  · exact (hrecord₀.congr heq).mono fun _ => .inl
  · rw [inTurn_concat] at heq
    exact ((hrecord₀.run (hbegun c hc)).congr heq).mono fun _ => Or.imp_right fun hmark => ⟨c, hc, hmark⟩

theorem upserted_kept_twoRecords : ∃ s, run indexStep (.start ⟨.empty, ∅⟩) twoRecords = some s ∧
    Always indexStep (fun s => ∀ before after i record disk,
      s.ended = before ++ ⟨i, ⟨.upsert record, disk⟩, some (.ok ())⟩ :: after →
      (∀ e ∈ after, ¬e.op.update.Replaces record.id) → (∀ c, s.Begun c → ¬c.update.Replaces record.id) →
      HasRecord (fun applied => (∃ e ∈ after, e.op.update.Marks record.id applied) ∨
        ∃ c, s.Begun c ∧ c.update.Marks record.id applied) s.shared record) (.start ⟨.empty, ∅⟩) twoRecords :=
  ⟨_, rfl, upserted_kept ⟨.empty, ∅⟩ rfl twoRecords⟩

end Records

end Nerve.Store
