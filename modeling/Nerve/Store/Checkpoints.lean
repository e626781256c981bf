import Nerve.Library.TransitionSystem
import Nerve.Run.Seams
import Nerve.Store.IndexLock
import Nerve.Store.ForkTree

/-!
# Checkpoints of runs in flight

After each round a run writes what it has so far to `.nerve/checkpoints`, and once its report is saved the file is removed:
what is there when a process has ended is a run that was interrupted. A write that fails is warned of, and the
run goes on.

Here any number of runs go on at once, each the loop of `Nerve.Run.Loop` against a world that answers what it likes, and
after it `save_report`, file by file. Any of them can die at any moment, and the disk takes the writes that it
takes. `checkpoint_tells` says what a checkpoint tells of its run, at every moment: all of its rounds
in order, but for those that a warning was given of; and that there is none of a run whose report is saved.
-/

namespace Nerve.Store

open Nerve.Patch Nerve.Run TransitionSystem Dialogue

/-! ### A report is saved file by file -/

inductive SaveStep where
  | session
  | patch (p : NvPatch)
  | record (p : NvPatch)
  | clear

def SaveStep.run (disk : Disk) (r : SavedReport) : SaveStep → Workspace → Result Unit
  | .session, w => writeJson w .sessions (jsonName r.id) disk (.report r)
  | .patch p, w => writeJson w .patches (jsonName p.id) disk (.patch p)
  | .record p, w => upsertPatchRecord disk (.ofReport r p) w
  | .clear, w => clearCheckpoint disk r.id w

/-- The patch of a report that is not blocked. -/
def patchSteps (r : SavedReport) : List SaveStep :=
  match r.report.finalPatch with
  | none => []
  | some patch => if r.report.blocked then [] else [.patch patch, .record patch]

def saveSteps (r : SavedReport) : List SaveStep := .session :: (patchSteps r ++ [.clear])

def runSteps (disk : Disk) (r : SavedReport) : List SaveStep → Workspace → Result Unit
  | [], w => (.ok (), w)
  | step :: steps, w => (step.run disk r w).andThen fun () => runSteps disk r steps

theorem Result.andThen_assoc {α β γ : Type} (r : Result α) (f : α → Workspace → Result β) (g : β → Workspace → Result γ) :
    (r.andThen f).andThen g = r.andThen fun a w => (f a w).andThen g := by
  rcases r with ⟨_ | _, w⟩ <;> rfl

theorem runSteps_append {disk : Disk} {r : SavedReport} (steps steps' : List SaveStep) (w : Workspace) :
    runSteps disk r (steps ++ steps') w = (runSteps disk r steps w).andThen fun () => runSteps disk r steps' := by
  induction steps generalizing w with
  | nil => rfl
  | cons step steps ih =>
    simp only [List.cons_append, runSteps, Result.andThen_assoc]
    congr
    funext u w
    exact ih w

theorem Result.andThen_ok (r : Result Unit) : (r.andThen fun () w => (.ok (), w)) = r := by
  rcases r with ⟨_ | _, w⟩ <;> rfl

theorem runSteps_patchSteps {disk : Disk} {r : SavedReport} (w : Workspace) :
    runSteps disk r (patchSteps r) w = savePatch disk r w := by
  unfold patchSteps savePatch
  cases r.report.finalPatch with
  | none => rfl
  | some patch =>
    cases r.report.blocked with
    | true => rfl
    | false => simp [runSteps, SaveStep.run, Result.andThen_ok]

/-- With nobody in between, the steps are `save_report`. -/
theorem runSteps_saveSteps {disk : Disk} {r : SavedReport} (w : Workspace) :
    runSteps disk r (saveSteps r) w = saveReport disk r w := by
  rw [saveSteps, runSteps, saveReport, Result.andThen_assoc]
  congr
  funext u w
  rw [runSteps_append, runSteps_patchSteps]
  simp [runSteps, SaveStep.run, Result.andThen_ok]

/-! ### Runs in flight -/

/-- What a run is given. -/
structure RunInput where
  externals : Externals
  task : Task
  config : Config
  adapters : List String
  options : RunOptions

def RunInput.loop (input : RunInput) : RunM RunReport :=
  runSynapticLoop input.externals input.task input.config input.adapters input.options

def RunInput.selection (input : RunInput) : Except RunError ProfileSelection :=
  input.config.selectProfile input.externals.ruleMatches input.task

inductive Life where
  | looping (rest : RunM RunReport)
  | saving (r : SavedReport) (left : List SaveStep)
  | saved (r : SavedReport)
  /-- The loop has failed, or a file of the report was not written. -/
  | failed
  | dead

/-- A run: what it was given, its exchanges so far, and the rounds that it has warned of. -/
structure Process where
  input : RunInput
  past : Trace
  warned : List RoundRecord
  life : Life

/-- `record_round`, towards the checkpoint: the rounds so far are written, or it is warned of. -/
def recordRound (disk : Disk) (now : String) (p : Process) (round : RoundRecord) (w : Workspace) :
    Workspace × List RoundRecord :=
  match p.input.selection with
  | .error _ => (w, p.warned)
  | .ok selection =>
    let checkpoint : RunCheckpoint :=
      { task := p.input.task
        selection := selection
        status := .running
        rounds := recorded p.past ++ [round]
        updatedAt := now }
    match saveCheckpoint disk checkpoint w with
    | (.ok (), w') => (w', p.warned)
    | (.error _, w') => (w', p.warned ++ [round])

/-- The next exchange of the loop; `world` answers. -/
def Process.exchange (disk : Disk) (now : String) (world : (q : Question) → q.Answer) (p : Process) (w : Workspace) :
    Option (Process × Workspace) :=
  match p.life with
  | .looping (.ask q next) =>
    let (w', warned) :=
      match q with
      | .recordRound round => recordRound disk now p round w
      | _ => (w, p.warned)
    some ({ p with past := p.past ++ [⟨q, world q⟩], warned := warned, life := .looping (next (world q)) }, w')
  | _ => none

/-- The loop is over. -/
def Process.finish (startedAt : String) (p : Process) : Option Process :=
  match p.life with
  | .looping (.done report) => some { p with life := .saving ⟨report, startedAt⟩ (saveSteps ⟨report, startedAt⟩) }
  | .looping (.fail _) => some { p with life := .failed }
  | _ => none

/-- The next file of the report. -/
def Process.save (disk : Disk) (p : Process) (w : Workspace) : Option (Process × Workspace) :=
  match p.life with
  | .saving r (step :: left) =>
    match step.run disk r w with
    | (.ok (), w') => some ({ p with life := if left.isEmpty then .saved r else .saving r left }, w')
    | (.error _, w') => some ({ p with life := .failed }, w')
  | _ => none

/-- A process that is not over dies. -/
def Process.die (p : Process) : Option Process :=
  match p.life with
  | .looping _ | .saving _ _ => some { p with life := .dead }
  | .saved _ | .failed | .dead => none

/-- The runs below one workspace, under the ids of their tasks. -/
structure Machine where
  workspace : Workspace
  processes : String → Option Process

inductive MachineAction where
  | begins (input : RunInput)
  | exchange (id : String) (disk : Disk) (now : String) (world : (q : Question) → q.Answer)
  | finish (id : String) (startedAt : String)
  | save (id : String) (disk : Disk)
  | die (id : String)
  /-- Somebody else writes or removes a file that is no checkpoint. -/
  | other (dir : Dir) (name : String) (stored : Option Stored)

def Machine.set (s : Machine) (id : String) (p : Process) (w : Workspace) : Machine :=
  ⟨w, Function.update s.processes id (some p)⟩

/-- The id of a new run is one that nobody has had, as that of a UUID. -/
def machineStep (s : Machine) : MachineAction → Option Machine
  | .begins input =>
    if (s.processes input.task.id).isSome || exists? s.workspace .checkpoints (jsonName input.task.id) then none
    else some (s.set input.task.id ⟨input, [], [], .looping input.loop⟩ s.workspace)
  | .exchange id disk now world =>
    (s.processes id).bind fun p => (p.exchange disk now world s.workspace).map fun (p, w) => s.set id p w
  | .finish id startedAt => (s.processes id).bind fun p => (p.finish startedAt).map fun p => s.set id p s.workspace
  | .save id disk => (s.processes id).bind fun p => (p.save disk s.workspace).map fun (p, w) => s.set id p w
  | .die id => (s.processes id).bind fun p => p.die.map fun p => s.set id p s.workspace
  | .other dir name stored =>
    if dir = .checkpoints then none
    else some { s with workspace := { s.workspace with
      files := match stored with
        | some stored => s.workspace.files.write dir name stored
        | none => s.workspace.files.remove dir name } }

/-! ### What a checkpoint tells -/

/-- What there is of the checkpoint tells all rounds but some that were warned of. -/
def Process.Tells (p : Process) (stored : Option Stored) : Prop :=
  (stored = none ∧ ∀ round ∈ recorded p.past, round ∈ p.warned) ∨
    ∃ selection rounds later now, p.input.selection = .ok selection ∧
      stored = some (.checkpoint ⟨p.input.task, selection, .running, rounds, now⟩) ∧ rounds ≠ [] ∧
      recorded p.past = rounds ++ later ∧ ∀ round ∈ later, round ∈ p.warned

/-- How the run has come so far, and what of it is on the disk. -/
def Life.Ok (p : Process) (stored : Option Stored) : Life → Prop
  | .looping rest => Reaches p.input.loop p.past rest ∧ p.Tells stored
  | .saving r left => Runs p.input.loop p.past (.ok r.report) ∧ p.Tells stored ∧ ∃ front, front ++ left = saveSteps r
  | .saved r => Runs p.input.loop p.past (.ok r.report) ∧ stored = none
  | .failed | .dead => p.Tells stored

/-- Of the checkpoints, at most that of the one run has changed. -/
def Keeps (id : String) (w w' : Workspace) : Prop :=
  ∀ name, name ≠ jsonName id → w'.files.read .checkpoints name = w.files.read .checkpoints name

def Process.Ok (w : Workspace) (id : String) (p : Process) : Prop :=
  p.input.task.id = id ∧ p.life.Ok p (w.files.read .checkpoints (jsonName id))

section steps

variable {disk : Disk} {w w' : Workspace} {p p' : Process} {id : String}

theorem Keeps.refl : Keeps id w w := fun _ _ => rfl

theorem keeps_write (stored : Stored) :
    Keeps id w { w with files := w.files.write .checkpoints (jsonName id) stored } := by
  intro name hname
  show (w.files.write .checkpoints (jsonName id) stored).read .checkpoints name = _
  rw [FileStore.read_write, if_neg fun h => hname h.2]

theorem keeps_remove : Keeps id w { w with files := w.files.remove .checkpoints (jsonName id) } := by
  intro name hname
  show (w.files.remove .checkpoints (jsonName id)).read .checkpoints name = _
  rw [FileStore.read_remove, if_neg fun h => hname h.2]

/-- Only a run whose selection was made records rounds. -/
theorem selection_of_recordRound {input : RunInput} {past : Trace} {round : RoundRecord}
    {next : (Question.recordRound round).Answer → RunM RunReport}
    (h : Reaches input.loop past (.ask (.recordRound round) next)) : ∃ selection, input.selection = .ok selection := by
  cases hselection : input.selection with
  | ok selection => exact ⟨selection, rfl⟩
  | error e =>
    have hasks : input.loop.Asks fun q => q.stage ≠ .review := by
      unfold RunInput.loop runSynapticLoop
      refine (applyBuiltinVerifier_asks (by decide) (by decide) _ _).bind fun _ => ?_
      rw [show input.config.selectProfile input.externals.ruleMatches input.task = .error e from hselection]
      exact asks_fail e
    exact absurd rfl (h.asks hasks).1

theorem recorded_concat (past : Trace) (q : Question) (a : q.Answer) :
    recorded (past ++ [⟨q, a⟩]) = recorded past ++ (match q with | .recordRound round => [round] | _ => []) := by
  rw [recorded_append]
  cases q <;> rfl

theorem read_writeJson_of_ne {dir : Dir} {name : String} {stored : Stored} {dir' : Dir} {name' : String}
    (hne : ¬(dir' = dir ∧ name' = name)) :
    (writeJson w dir name disk stored).2.files.read dir' name' = w.files.read dir' name' := by
  unfold writeJson
  split_ifs
  · exact FileStore.read_write.trans (if_neg hne)
  · rfl

/-- Rounds that are warned of are not missed in silence. -/
theorem Process.Tells.warn {stored : Option Stored} {q : Question} {a : q.Answer} {life : Life} {round : RoundRecord}
    (h : p.Tells stored) (hq : recorded (p.past ++ [⟨q, a⟩]) = recorded p.past ++ [round]) :
    Process.Tells { p with past := p.past ++ [⟨q, a⟩], warned := p.warned ++ [round], life := life } stored := by
  rcases h with ⟨hnone, hwarned⟩ | ⟨selection, rounds, later, now, hselection, hstored, hne, hrounds, hwarned⟩
  · refine .inl ⟨hnone, fun r hr => ?_⟩
    rw [hq] at hr
    simp only [List.mem_append] at hr ⊢
    exact hr.imp_left (hwarned r)
  · refine .inr ⟨selection, rounds, later ++ [round], now, hselection, hstored, hne, ?_, fun r hr => ?_⟩
    · rw [hq, hrounds, List.append_assoc]
    · simp only [List.mem_append] at hr ⊢
      exact hr.imp_left (hwarned r)

theorem Process.Tells.pass {stored : Option Stored} {q : Question} {a : q.Answer} {life : Life} (h : p.Tells stored)
    (hq : recorded (p.past ++ [⟨q, a⟩]) = recorded p.past) :
    Process.Tells { p with past := p.past ++ [⟨q, a⟩], life := life } stored := by
  unfold Process.Tells
  rw [hq]
  exact h

/-- **A round is in the checkpoint, or it is warned of.** -/
theorem exchange_ok {now : String} {world : (q : Question) → q.Answer} (hok : p.Ok w id)
    (h : p.exchange disk now world w = some (p', w')) : p'.Ok w' id ∧ Keeps id w w' := by
  obtain ⟨hid, hlife⟩ := hok
  unfold Process.exchange at h
  split at h
  · rename_i q next hp
    rw [hp] at hlife
    obtain ⟨hreach, htells⟩ := hlife
    have hnext := hreach.concat (world q)
    cases q with
    | recordRound round =>
      obtain ⟨selection, hselection⟩ := selection_of_recordRound hreach
      have hrecorded := recorded_concat p.past (.recordRound round) (world (.recordRound round))
      simp only [recordRound, hselection, saveCheckpoint, writeJson, hid] at h
      split_ifs at h with hdisk
      · obtain ⟨rfl, rfl⟩ := Prod.mk.inj (Option.some.inj h)
        refine ⟨⟨hid, hnext, .inr ⟨selection, recorded p.past ++ [round], [], now, hselection, ?_, by simp, ?_, by simp⟩⟩,
          keeps_write _⟩
        · rw [FileStore.read_write, if_pos ⟨rfl, rfl⟩]
        · rw [hrecorded, List.append_nil]
      · obtain ⟨rfl, rfl⟩ := Prod.mk.inj (Option.some.inj h)
        exact ⟨⟨hid, hnext, htells.warn hrecorded⟩, Keeps.refl⟩
    | _ =>
      obtain ⟨rfl, rfl⟩ := Prod.mk.inj (Option.some.inj h)
      exact ⟨⟨hid, hnext, htells.pass ((recorded_concat ..).trans (List.append_nil _))⟩, Keeps.refl⟩
  · cases h

theorem finish_ok {startedAt : String} (hok : p.Ok w id) (h : p.finish startedAt = some p') : p'.Ok w id := by
  obtain ⟨hid, hlife⟩ := hok
  unfold Process.finish at h
  split at h
  · rename_i report hp
    cases h
    rw [hp] at hlife
    exact ⟨hid, hlife.1.runs, hlife.2, [], rfl⟩
  · rename_i e hp
    cases h
    rw [hp] at hlife
    exact ⟨hid, hlife.2⟩
  · cases h

theorem die_ok (hok : p.Ok w id) (h : p.die = some p') : p'.Ok w id := by
  obtain ⟨hid, hlife⟩ := hok
  unfold Process.die at h
  split at h
  · rename_i rest hp
    cases h
    rw [hp] at hlife
    exact ⟨hid, hlife.2⟩
  · rename_i r left hp
    cases h
    rw [hp] at hlife
    exact ⟨hid, hlife.2.1⟩
  all_goals cases h

theorem clearCheckpoint_cases (disk : Disk) (id : String) (w : Workspace) :
    w.files.read .checkpoints (jsonName id) = none ∧ clearCheckpoint disk id w = (.ok (), w) ∨
      clearCheckpoint disk id w = (.ok (), { w with files := w.files.remove .checkpoints (jsonName id) }) ∨
      ∃ e, clearCheckpoint disk id w = (.error e, w) := by
  unfold clearCheckpoint
  split_ifs with hthere
  · exact .inr (.inl rfl)
  · exact .inr (.inr ⟨_, rfl⟩)
  · exact .inl ⟨by simpa [exists?] using hthere, rfl⟩

/-- Only the last step of `save_report` touches a checkpoint: that of its run, which it removes. -/
theorem saveStep_ok {r : SavedReport} {step : SaveStep} {result : Except StoreError Unit}
    (h : step.run disk r w = (result, w')) : Keeps r.id w w' ∧
      (w'.files.read .checkpoints (jsonName r.id) = w.files.read .checkpoints (jsonName r.id) ∨ step = .clear) ∧
      (step = .clear → result = .ok () → w'.files.read .checkpoints (jsonName r.id) = none) ∧
      (step = .clear → ∀ e, result = .error e → w' = w) := by
  have hwrite {dir : Dir} {name : String} {stored : Stored} (hdir : dir ≠ .checkpoints)
      (h : writeJson w dir name disk stored = (result, w')) (name' : String) :
      w'.files.read .checkpoints name' = w.files.read .checkpoints name' := by
    rw [← show (writeJson w dir name disk stored).2 = w' by rw [h]]
    exact read_writeJson_of_ne fun heq => hdir heq.1.symm
  cases step with
  | session => exact ⟨fun name _ => hwrite (by simp) h name, .inl (hwrite (by simp) h _), by simp, by simp⟩
  | patch p => exact ⟨fun name _ => hwrite (by simp) h name, .inl (hwrite (by simp) h _), by simp, by simp⟩
  | record p =>
    have hread (name' : String) : w'.files.read .checkpoints name' = w.files.read .checkpoints name' := by
      obtain ⟨e, heq⟩ | ⟨index, w₁, -, heq, hwritten⟩ := upsertPatchRecord_cases disk (.ofReport r p) w
      · rw [SaveStep.run, heq] at h
        cases h
        rfl
      · rw [SaveStep.run, heq] at h
        cases h
        exact hwrite (by simp) hwritten name'
    exact ⟨fun name _ => hread name, .inl (hread _), by simp, by simp⟩
  | clear =>
    rw [SaveStep.run] at h
    obtain ⟨hnone, heq⟩ | heq | ⟨e, heq⟩ := clearCheckpoint_cases disk r.id w
    · cases heq.symm.trans h
      exact ⟨Keeps.refl, .inr rfl, fun _ _ => hnone, by simp⟩
    · cases heq.symm.trans h
      refine ⟨keeps_remove, .inr rfl, fun _ _ => ?_, by simp⟩
      show (w.files.remove .checkpoints (jsonName r.id)).read .checkpoints (jsonName r.id) = none
      rw [FileStore.read_remove, if_pos ⟨rfl, rfl⟩]
    · cases heq.symm.trans h
      exact ⟨Keeps.refl, .inr rfl, by simp, fun _ _ _ => rfl⟩

/-- The last of the steps is the one that removes the checkpoint, and no other. -/
theorem clear_of_saveSteps {r : SavedReport} {front left : List SaveStep} {step : SaveStep}
    (h : front ++ step :: left = saveSteps r) : step = .clear ↔ left = [] := by
  have hnot : ∀ s ∈ SaveStep.session :: patchSteps r, s ≠ .clear := by
    intro s hs
    simp only [patchSteps, List.mem_cons] at hs
    rcases hs with rfl | hs
    · simp
    · split at hs
      · simp at hs
      · split_ifs at hs
        · simp at hs
        · simp only [List.mem_cons, List.not_mem_nil, or_false] at hs
          obtain rfl | rfl := hs <;> simp
  rw [saveSteps, ← List.cons_append] at h
  constructor
  · rintro rfl
    rcases List.eq_nil_or_concat left with rfl | ⟨left', last, rfl⟩
    · rfl
    · rw [List.concat_eq_append, ← List.cons_append, ← List.append_assoc] at h
      refine absurd rfl (hnot .clear ?_)
      rw [← (List.append_inj' h rfl).1]
      simp
  · rintro rfl
    exact List.head_eq_of_cons_eq (List.append_inj' h rfl).2

theorem save_ok (hok : p.Ok w id) (h : p.save disk w = some (p', w')) : p'.Ok w' id ∧ Keeps id w w' := by
  obtain ⟨rfl, hlife⟩ := hok
  unfold Process.save at h
  split at h
  · rename_i r step left hp
    rw [hp] at hlife
    obtain ⟨hruns, htells, front, hsteps⟩ := hlife
    have hid : r.id = p.input.task.id := congrArg Task.id (runSynapticLoop_task _ _ _ _ _ _ _ hruns)
    split at h
    · rename_i w₁ hrun
      obtain ⟨hkeeps, hread, hclear, -⟩ := saveStep_ok hrun
      rw [hid] at hkeeps hread hclear
      obtain ⟨rfl, rfl⟩ := Prod.mk.inj (Option.some.inj h)
      refine ⟨⟨rfl, ?_⟩, hkeeps⟩
      cases left with
      | nil => exact ⟨hruns, hclear ((clear_of_saveSteps hsteps).mpr rfl) rfl⟩
      | cons step' left =>
        have hother := hread.resolve_right fun h => by simpa using (clear_of_saveSteps hsteps).mp h
        exact ⟨hruns, by rw [hother]; exact htells, front ++ [step], by rw [← hsteps, List.append_assoc]; rfl⟩
    · rename_i e w₁ hrun
      obtain ⟨hkeeps, hread, -, hrefused⟩ := saveStep_ok hrun
      rw [hid] at hkeeps hread
      obtain ⟨rfl, rfl⟩ := Prod.mk.inj (Option.some.inj h)
      refine ⟨⟨rfl, ?_⟩, hkeeps⟩
      have hsame : w₁.files.read .checkpoints (jsonName p.input.task.id) =
          w.files.read .checkpoints (jsonName p.input.task.id) :=
        hread.elim id fun hstep => by rw [hrefused hstep e rfl]
      show Process.Tells _ (w₁.files.read .checkpoints (jsonName p.input.task.id))
      rw [hsame]
      exact htells
  · cases h

end steps

/-! ### Every run of the machine -/

section machine

variable {s t : Machine} {w : Workspace} {id : String} {p : Process}

/-- Every run has what its checkpoint tells. -/
def Machine.Ok (s : Machine) : Prop := ∀ id p, s.processes id = some p → p.Ok s.workspace id

theorem Process.Ok.congr {w' : Workspace} (h : p.Ok w id)
    (hread : w'.files.read .checkpoints (jsonName id) = w.files.read .checkpoints (jsonName id)) : p.Ok w' id := by
  refine ⟨h.1, ?_⟩
  rw [hread]
  exact h.2

theorem Machine.Ok.set (hs : s.Ok) (hp : p.Ok w id) (hkeeps : Keeps id s.workspace w) : (s.set id p w).Ok := by
  intro id' p' h
  by_cases heq : id' = id
  · subst heq
    simp only [Machine.set, Function.update_self, Option.some.injEq] at h
    exact h ▸ hp
  · simp only [Machine.set, Function.update_of_ne heq] at h
    exact (hs id' p' h).congr (hkeeps _ fun h => heq (jsonName_inj.mp h))

theorem Machine.Ok.step {a : MachineAction} (hs : s.Ok) (h : machineStep s a = some t) : t.Ok := by
  cases a with
  | begins input =>
    simp only [machineStep, Bool.or_eq_true, exists?] at h
    split_ifs at h with hfresh
    cases h
    refine hs.set ⟨rfl, .start _, .inl ⟨?_, by simp [recorded]⟩⟩ Keeps.refl
    rw [not_or] at hfresh
    simpa using hfresh.2
  | exchange id disk now world =>
    obtain ⟨p, hp, h⟩ := Option.bind_eq_some_iff.mp h
    obtain ⟨⟨p', w'⟩, hexchange, rfl⟩ := Option.map_eq_some_iff.mp h
    obtain ⟨hok, hkeeps⟩ := exchange_ok (hs id p hp) hexchange
    exact hs.set hok hkeeps
  | finish id startedAt =>
    obtain ⟨p, hp, h⟩ := Option.bind_eq_some_iff.mp h
    obtain ⟨p', hfinish, rfl⟩ := Option.map_eq_some_iff.mp h
    exact hs.set (finish_ok (hs id p hp) hfinish) Keeps.refl
  | save id disk =>
    obtain ⟨p, hp, h⟩ := Option.bind_eq_some_iff.mp h
    obtain ⟨⟨p', w'⟩, hsave, rfl⟩ := Option.map_eq_some_iff.mp h
    obtain ⟨hok, hkeeps⟩ := save_ok (hs id p hp) hsave
    exact hs.set hok hkeeps
  | die id =>
    obtain ⟨p, hp, h⟩ := Option.bind_eq_some_iff.mp h
    obtain ⟨p', hdie, rfl⟩ := Option.map_eq_some_iff.mp h
    exact hs.set (die_ok (hs id p hp) hdie) Keeps.refl
  | other dir name stored =>
    simp only [machineStep] at h
    split_ifs at h with hdir
    cases h
    refine fun id p hp => (hs id p hp).congr ?_
    cases stored with
    | some stored => exact FileStore.read_write.trans (if_neg fun h => hdir h.1.symm)
    | none => exact FileStore.read_remove.trans (if_neg fun h => hdir h.1.symm)

/-- **What a checkpoint tells**, at every moment of every run. If the report of a run is saved, it has none, and the report
has all rounds that the run recorded. If it is not, because the run goes on, has failed or has died, the
checkpoint has all of its rounds in order, up to some at the end that were each warned of; only if all were is there none. -/
theorem checkpoint_tells (w : Workspace) (as : List MachineAction) :
    Always machineStep (fun s => ∀ id p, s.processes id = some p →
      (∀ r, p.life = .saved r → s.workspace.files.read .checkpoints (jsonName id) = none ∧
        (p.input.options.cancelToken = true → r.report.rounds = recorded p.past)) ∧
      ((∀ r, p.life ≠ .saved r) → p.Tells (s.workspace.files.read .checkpoints (jsonName id)))) ⟨w, fun _ => none⟩ as := by
  have halways : Always machineStep Machine.Ok ⟨w, fun _ => none⟩ as :=
    always_of_meets (C := fun _ _ => True) (fun _ _ _ hs _ h => hs.step h) (fun _ _ h => by cases h)
      (meets_of_forall (fun _ _ => trivial) _ _)
  refine halways.mono fun s hs id p hp => ?_
  obtain ⟨-, hlife⟩ := hs id p hp
  constructor
  · intro r hr
    rw [hr] at hlife
    exact ⟨hlife.2, fun htoken => (runSynapticLoop_seams htoken hlife.1).recorded⟩
  · intro hr
    cases hcase : p.life with
    | saved r => exact absurd hcase (hr r)
    | looping rest =>
      rw [hcase] at hlife
      exact hlife.2
    | saving r left =>
      rw [hcase] at hlife
      exact hlife.2.1
    | failed | dead =>
      rw [hcase] at hlife
      exact hlife

end machine

end Nerve.Store
