import Nerve.Library.Dialogue
import Nerve.Store.Model

/-!
# Operations on files, step by step

An operation of the store as a dialogue with the files: it looks for a file, reads one or replaces one, and what it asks
next depends on the answer. Against files that nobody else touches, a dialogue is an operation of `Nerve.Store.Model`
(`serve_readJson`, `serve_writeJson`).
-/

namespace Nerve.Store

inductive FileQuestion where
  | exists? (dir : Dir) (name : String)
  | read (dir : Dir) (name : String)
  | write (dir : Dir) (name : String) (stored : Stored)

abbrev FileQuestion.Answer : FileQuestion → Type
  | exists? .. => Bool
  | read .. => Option Stored
  | write .. => Bool

abbrev FileProgram (ε α : Type) := Dialogue FileQuestion FileQuestion.Answer ε α

/-- The files answer, and a write is made if the disk takes it. -/
def answerFile (disk : Disk) (w : Workspace) : (q : FileQuestion) → q.Answer × Workspace
  | .exists? dir name => (Store.exists? w dir name, w)
  | .read dir name => (w.files.read dir name, w)
  | .write dir name stored =>
    if disk dir name then (true, { w with files := w.files.write dir name stored }) else (false, w)

/-- It can change the file. -/
def FileQuestion.Writes (dir : Dir) (name : String) : FileQuestion → Prop
  | .write dir' name' _ => dir' = dir ∧ name' = name
  | _ => False

/-- It only looks. -/
def FileQuestion.Looks : FileQuestion → Prop
  | .write .. => False
  | _ => True

theorem answerFile_of_looks {disk : Disk} (q : FileQuestion) (h : q.Looks) (w : Workspace) : (answerFile disk w q).2 = w := by
  cases q with
  | exists? => rfl
  | read => rfl
  | write => exact h.elim

theorem FileQuestion.Looks.not_writes {dir : Dir} {name : String} {q : FileQuestion} (h : q.Looks) :
    ¬q.Writes dir name := by
  cases q with
  | exists? => exact id
  | read => exact id
  | write => exact h.elim

theorem read_answerFile {disk : Disk} {dir : Dir} {name : String} (q : FileQuestion) (h : ¬q.Writes dir name) (w : Workspace) :
    (answerFile disk w q).2.files.read dir name = w.files.read dir name := by
  cases q with
  | exists? => rfl
  | read => rfl
  | write dir' name' stored =>
    dsimp only [answerFile]
    split_ifs
    · exact FileStore.read_write.trans (if_neg fun hsame => h ⟨hsame.1.symm, hsame.2.symm⟩)
    · rfl

namespace FileProgram

open Dialogue

def readJson {α : Type} (dir : Dir) (name : String) (reads : Stored → Option α) : FileProgram StoreError α :=
  .ask (.read dir name) fun (stored : Option Stored) =>
    match stored with
    | none => .fail (.read dir name)
    | some stored =>
      match reads stored with
      | none => .fail (.invalidJson dir name)
      | some a => .done a

def writeJson (dir : Dir) (name : String) (stored : Stored) : FileProgram StoreError Unit :=
  .ask (.write dir name stored) fun (taken : Bool) => if taken then .done () else .fail (.write dir name)

section serve

variable {disk : Disk} {w : Workspace} {dir : Dir} {name : String}

theorem serve_readJson {α : Type} {reads : Stored → Option α} :
    (readJson dir name reads).serve (answerFile disk) w = (Store.readJson w dir name reads, w) := by
  rw [readJson, Dialogue.serve_ask, Store.readJson]
  dsimp only [answerFile]
  cases w.files.read dir name with
  | none => rfl
  | some stored =>
    dsimp only
    cases reads stored <;> rfl

theorem serve_writeJson {stored : Stored} :
    (writeJson dir name stored).serve (answerFile disk) w = Store.writeJson w dir name disk stored := by
  rw [writeJson, Dialogue.serve_ask, Store.writeJson, answerFile]
  cases disk dir name <;> rfl

end serve

section asks

variable {dir dir' : Dir} {name name' : String}

theorem looks_readJson {α : Type} {reads : Stored → Option α} : (readJson dir name reads).Asks FileQuestion.Looks := by
  refine ⟨trivial, fun stored => ?_⟩
  cases stored with
  | none => trivial
  | some stored =>
    dsimp only
    cases reads stored <;> trivial

/-- What holds with the file replaced, and holds if it is not. -/
theorem upholds_writeJson {disk : Disk} {w : Workspace} {stored : Stored} {I : Workspace → Prop} (h : I w)
    (hwrite : I { w with files := w.files.write dir name stored }) :
    (writeJson dir name stored).Upholds (answerFile disk) I
      (fun _ w' => w' = { w with files := w.files.write dir name stored }) w := by
  refine ⟨h, ?_⟩
  dsimp only [answerFile]
  cases disk dir name with
  | false => exact h
  | true => exact ⟨hwrite, rfl⟩

theorem asks_writeJson {stored : Stored} (h : ¬(dir' = dir ∧ name' = name)) :
    (writeJson dir' name' stored).Asks fun q => ¬q.Writes dir name := by
  refine ⟨h, fun taken => ?_⟩
  cases taken <;> trivial

theorem asksOnce_writeJson {stored : Stored} : (writeJson dir' name' stored).AsksOnce fun q => q.Writes dir name := by
  refine .inr fun taken => ?_
  cases taken <;> trivial

end asks

end FileProgram

end Nerve.Store
