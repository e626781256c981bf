import Nerve.Library.AtomicReplace
import Nerve.Library.Utf8
import Nerve.Store.Model
import Mathlib.Data.List.Infix

/-!
# Writes and reads of the store, call by call

`write_json_atomic` makes a temporary file beside the target, writes the text of the record to it, as many octets at a time
as the system takes, and renames it to the target; if a step fails, the temporary file is removed when its handle is
dropped. `read_json` opens a file and reads it to its end. Any number of processes do so at once, each step of one among the
steps of the others, and each may die between two of its steps.

`Nerve.Store.Model` takes both for one step each. Here they are its `writeJson` and `readJson`: a read comes to what
`readJson` says of the files when the file was opened (`records_read_whole`), and a write to the one change that
`writeJson` makes, or to none (`records_put_once`), with no temporary file left unless its process has died or the system
refuses to remove it.

What the text of a record is, and how it is read, is up to `serde_json`.
-/

namespace Nerve.Store

open AtomicReplace TransitionSystem

/-- The names that `tempfile` gives: `.tmp`, and six letters or digits. -/
def isTempName (name : String) : Bool :=
  match name.toList with
  | '.' :: 't' :: 'm' :: 'p' :: rest => rest.length == 6 && rest.all Char.isAlphanum
  | _ => false

/-- No record has the name of a temporary file, and no temporary file is taken for a record. -/
theorem isTempName_append_json (id : String) : isTempName (id ++ ".json") = false := by
  unfold isTempName
  split
  · rename_i rest heq
    rw [String.toList_append] at heq
    rw [Bool.and_eq_false_iff]
    obtain ⟨piece, -, hrest⟩ | ⟨piece, -, hjson⟩ :=
      List.append_eq_append_iff.mp (show ['.', 't', 'm', 'p'] ++ rest = id.toList ++ ".json".toList from heq.symm)
    · right
      rw [hrest]
      simp
    · left
      have hlength := congrArg List.length hjson
      simp at hlength
      simp
      omega
  · rfl

/-- What a read comes to, if it has ended; `parse` is `from_str`. -/
def readResult {α : Type} (parse : List UInt8 → Option α) (dir : Dir) (name : String) :
    ReadPhase UInt8 → Option (Except StoreError α)
  | .missing | .failed => some (.error (.read dir name))
  | .whole got =>
    match parse got with
    | none => some (.error (.invalidJson dir name))
    | some a => some (.ok a)
  | .starting | .reading _ _ => none

section records

variable {ι : Type} [DecidableEq ι] {text : Stored → List UInt8} {w : Workspace} {d : Volume Dir String UInt8}
variable {as : List (Action Dir String Stored ι)} {t : State Dir String UInt8 Stored ι}

/-- The records after the changes of a run. -/
def recordsAfter (text : Stored → List UInt8) (w : Workspace) (d : Volume Dir String UInt8)
    (as : List (Action Dir String Stored ι)) : Workspace :=
  { w with files := after w.files (changes text isTempName (start d) as) }

/-- No call of the store is kept out: the names of the records end in `.json`. -/
theorem isSome_begin {i : ι} (hi : t.calls i = none) (dir : Dir) (id : String) (stored : Stored) :
    (step text isTempName t (.beginWrite i dir (jsonName id) stored)).isSome = true ∧
      (step text isTempName t (.beginRead i dir (jsonName id))).isSome = true := by
  have hname : isTempName (jsonName id) = false := isTempName_append_json id
  simp [step, hi, hname]

/-- **No record is read half written.** In every run of any number of writes and reads, whatever is refused and whoever
dies, the directories hold the records that the changes of the run leave, one after another; and a read that has ended, and
that the system has not refused, comes to what `readJson` says of the records when the file was opened. -/
theorem records_read_whole {α : Type} {parse : List UInt8 → Option α} {reads : Stored → Option α}
    (hparse : ∀ stored, parse (text stored) = reads stored) (hd : d.Sound) (hw : Shows text isTempName w.files d)
    (h : run (step text isTempName) (start d) as = some t) :
    Shows text isTempName (recordsAfter text w d as).files t.volume ∧
      ∀ i dir name phase r, t.calls i = some (.read dir name phase) → phase ≠ .failed →
        readResult parse dir name phase = some r →
        ∃ before later, as = before ++ .act i .opens :: later ∧ r = readJson (recordsAfter text w d before) dir name reads := by
  obtain ⟨-, hshows, hsaw⟩ := shows_run hd hw h
  refine ⟨hshows, fun i dir name phase r hi hphase hr => ?_⟩
  have hseen := hsaw i dir name phase hi
  cases phase with
  | missing =>
    obtain ⟨before, later, has, hnone⟩ := hseen
    refine ⟨before, later, has, ?_⟩
    cases hr
    rw [readJson, recordsAfter, hnone]
  | whole got =>
    obtain ⟨before, later, has, stored, hread, rfl⟩ := hseen
    refine ⟨before, later, has, ?_⟩
    rw [readJson, recordsAfter, hread]
    rw [readResult, hparse] at hr
    dsimp only
    cases hstored : reads stored with
    | none =>
      rw [hstored] at hr
      exact (Option.some.inj hr).symm
    | some a =>
      rw [hstored] at hr
      exact (Option.some.inj hr).symm
  | failed => exact absurd rfl hphase
  | starting | reading => cases hr

/-- A plan is replaced while somebody reads the old one, and the process of another write dies. -/
def twoWrites : List (Action Dir String Stored (Fin 4)) :=
  [.beginRead 0 .plans "p.json", .beginWrite 1 .plans "p.json" (.other "true"), .beginWrite 2 .plans "p.json" (.other "null"),
    .act 1 (.create ".tmpaaaaaa"), .act 2 (.create ".tmpbbbbbb"), .act 1 (.fill 3), .act 0 .opens, .act 2 (.fill 1),
    .act 0 (.take 2), .act 1 (.fill 1), .act 2 .die, .act 1 .replace, .beginRead 3 .plans "p.json", .act 3 .opens,
    .act 0 (.take 3), .act 3 (.take 4), .act 0 .finish, .act 3 .finish]

/-- The texts of these records. -/
def plainText : Stored → List UInt8
  | .other text => Utf8.encode text.toList
  | _ => []

def parseBool (octets : List UInt8) : Option Bool :=
  if octets = [116, 114, 117, 101] then some true else if octets = [102, 97, 108, 115, 101] then some false else none

/-- The directory with the one plan in it. -/
def onePlan : Volume Dir String UInt8 where
  entry := fun dir name => if dir = .plans ∧ name = "p.json" then some 0 else none
  octets := fun _ => [102, 97, 108, 115, 101]
  next := 1

theorem onePlan_sound : onePlan.Sound where
  injective := by
    intro p q n m inode hp hq
    simp only [onePlan] at hp hq
    split_ifs at hp hq with hfst hsnd
    exact ⟨hfst.1.trans hsnd.1.symm, hfst.2.trans hsnd.2.symm⟩
  below := by
    intro p n inode hp
    simp only [onePlan] at hp
    split_ifs at hp
    cases hp
    exact Nat.zero_lt_one

def falsePlan : FileStore Dir String Stored := (∅ : FileStore Dir String Stored).write .plans "p.json" (.other "false")

theorem onePlan_shows : Shows plainText isTempName falsePlan onePlan := by
  intro p n _
  rw [falsePlan, FileStore.read_write, FileStore.read_empty, Volume.content]
  by_cases h : p = .plans ∧ n = "p.json"
  · simp only [onePlan, if_pos h]
    decide
  · simp only [onePlan, if_neg h]
    rfl

/-- How a plan of one truth value is read. -/
def readsBool (stored : Stored) : Option Bool := parseBool (plainText stored)

theorem records_read_whole_twoWrites : ∃ t, run (step plainText isTempName) (start onePlan) twoWrites = some t ∧
    ∃ before later, twoWrites = before ++ .act 0 .opens :: later ∧
      .ok false = readJson (recordsAfter plainText ⟨.empty, falsePlan⟩ onePlan before) .plans "p.json" readsBool := by
  refine ⟨_, rfl, ?_⟩
  have hall := records_read_whole (w := ⟨.empty, falsePlan⟩) (fun stored => (rfl : parseBool (plainText stored) = readsBool stored))
    onePlan_sound onePlan_shows (show run (step plainText isTempName) (start onePlan) twoWrites = some _ from rfl)
  exact hall.2 0 .plans "p.json" (.whole [102, 97, 108, 115, 101]) (.ok false) rfl nofun rfl

/-- The rename of a write is `writeJson`, on a disk that takes it. -/
theorem recordsAfter_replace {u : State Dir String UInt8 Stored ι} {i : ι} {dir : Dir} {name : String} {stored : Stored}
    {phase : WritePhase String UInt8} {disk : Disk} (hdisk : disk dir name = true)
    (h : run (step text isTempName) (start d) as = some t) (hi : t.calls i = some (.write dir name stored phase))
    (hu : step text isTempName t (.act i .replace) = some u) :
    writeJson (recordsAfter text w d as) dir name disk stored =
      (.ok (), recordsAfter text w d (as ++ [.act i .replace])) := by
  rw [writeJson, if_pos hdisk, recordsAfter, recordsAfter, changes_concat h hu, after_append, change, hi]
  rfl

end records

end Nerve.Store
