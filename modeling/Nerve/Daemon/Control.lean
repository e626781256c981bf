import Nerve.Daemon.Lifecycle

/-!
# Approve and cancel

The operator's commands set flags, and the runs read them at their seams. The record of the read
loop (`Served`) has the command that is served and the flags that were set: what is acknowledged was
set (`Controls`), what is set stays, and from there on a run sees it whenever it looks (`GoesOn`).
So a cancel that is acknowledged before a round is recorded or the flag is read stops the run,
unless the round is accepted, which comes first; and a grant counts wherever the consent is asked
for afterwards. A flag that is set when the run has looked for the last time is set for nothing.
-/

namespace Nerve.Daemon

open Nerve Nerve.Patch Nerve.Run Nerve.Session Dialogue TransitionSystem

variable {D : Setup}

/-! ### Flags -/

def Run.handle (run : Run) : Handle → Bool
  | .consent => run.consent
  | .cancel => run.cancel

/-- The command sets the handle of the run. -/
def Command.Sets : Command → Handle → String → Prop
  | approve id, .consent, runId => runId = id
  | cancel id, .cancel, runId => runId = id
  | cancelAll, .cancel, _ => True
  | _, _, _ => False

/-- The command on the last line that was read. -/
def serving (D : Setup) (log : Log) : Option Command :=
  log.foldl (fun command x => match x with
    | ⟨.nextLine line, _⟩ => commandOf D line
    | _ => command) none

/-- It is on stdout that the handle of the run was set. -/
def Acknowledged (s : State) (handle : Handle) (runId : String) : Prop :=
  ∃ line ∈ s.shared.stdout, (handle, runId) ∈ line.acks

/-! ### What comes between -/

/-- No look at the consent misses the grant. -/
def Granting (es : Trace) : Prop := (⟨.isGranted, false⟩ : Exchange Question Question.Answer) ∉ es

/-- From the one state to the other the run has made these exchanges, and what was set it has seen. -/
structure GoesOn (run run' : Run) (es : Trace) : Prop where
  call : run'.call = run.call
  trace : run'.trace = run.trace ++ es
  handle : ∀ handle, run.handle handle = true → run'.handle handle = true
  cancelling : run.cancel = true → Cancelling es
  granting : run.consent = true → Granting es

theorem goesOn_refl (run : Run) : GoesOn run run [] where
  call := rfl
  trace := (List.append_nil _).symm
  handle _ h := h
  cancelling _ := List.not_mem_nil
  granting _ := List.not_mem_nil

theorem GoesOn.trans {run run' run'' : Run} {es es' : Trace} (h : GoesOn run run' es) (h' : GoesOn run' run'' es') :
    GoesOn run run'' (es ++ es') where
  call := h'.call.trans h.call
  trace := by rw [h'.trace, h.trace, List.append_assoc]
  handle handle hset := h'.handle handle (h.handle handle hset)
  cancelling hset := cancelling_append.mpr ⟨h.cancelling hset, h'.cancelling (h.handle .cancel hset)⟩
  granting hset hmem := (List.mem_append.mp hmem).elim (h.granting hset) (h'.granting (h.handle .consent hset))

theorem goesOn_setHandle (run : Run) (handle : Handle) : GoesOn run (run.setHandle handle) [] where
  call := by cases handle <;> rfl
  trace := by cases handle <;> exact (List.append_nil _).symm
  handle other h := by
    cases handle <;> cases other <;> first | exact h | rfl
  cancelling _ := List.not_mem_nil
  granting _ := List.not_mem_nil

/-- In a step the handles are answered as they are. -/
theorem goesOn_of_stepsTo {run run' : Run} {line : Option Line} (h : run.StepsTo run' line) : ∃ es, GoesOn run run' es := by
  obtain ⟨es, htrace, hanswers⟩ := h.trace_eq
  refine ⟨es, h.call_eq, htrace, fun handle hset => ?_, fun hset hmem => ?_, fun hset hmem => ?_⟩
  · cases handle with
    | consent => exact h.consent_eq.trans hset
    | cancel => exact h.cancel_eq.trans hset
  · cases (hanswers _ hmem).trans hset
  · cases (hanswers _ hmem).trans hset

/-! ### The read loop acknowledges what it has set -/

structure Served where
  /-- The command that is served. -/
  command : Option Command
  /-- The identifier for the run to come. -/
  fresh : Option String
  spawned : List String
  /-- What was set, and of which runs. -/
  set : List (Handle × String)

def Served.start : Served := ⟨none, none, [], []⟩

/-- A handle is set for the command, of a run that was started, and acknowledged when it is set. -/
def control (D : Setup) : Protocol Op Op.Answer Served where
  may g op :=
    match op with
    | .println line => line.acks ⊆ g.set
    | .spawn call => g.fresh = some call.task.id ∧ call.options = daemonOptions D
    | .setHandle handle runId => runId ∈ g.spawned ∧ ∃ command, g.command = some command ∧ command.Sets handle runId
    | _ => True
  hears _ op answer :=
    match op, answer with
    | .iterate registry, ids => ids.Perm registry
    | _, _ => True
  next g op answer :=
    match op, answer with
    | .nextLine line, _ => { g with command := commandOf D line }
    | .world, w => { g with fresh := some (w.taskId 0) }
    | .spawn call, _ => { g with fresh := none, spawned := call.task.id :: g.spawned }
    | .setHandle handle runId, _ => { g with set := (handle, runId) :: g.set }
    | _, _ => g

/-- The registry afterwards, which a failure leaves as it was, has only runs that were started. -/
def Registers (registry : Registry) (g : Served) (r : Except RunError Registry) : Prop :=
  r.toOption.getD registry ⊆ g.spawned

theorem retainUnfinished_controls (ids : Registry) (g : Served) : (retainUnfinished ids).Follows (control D)
    (fun g' r => g' = g ∧ ∃ kept, r = .ok kept ∧ kept ⊆ ids) g := by
  induction ids with
  | nil => exact follows_pure ⟨rfl, [], rfl, List.Subset.refl _⟩
  | cons id ids ih =>
    refine follows_query_bind trivial fun finished _ => ?_
    refine ih.bind (fun g' kept ⟨hg, kept', hkept, hsub⟩ => ?_) (by simp)
    cases hkept
    cases finished with
    | true => exact follows_pure ⟨hg, kept, rfl, List.subset_cons_of_subset _ hsub⟩
    | false => exact follows_pure ⟨hg, id :: kept, rfl, List.cons_subset_cons _ hsub⟩

theorem printServed_controls (texts : List String) (g : Served) :
    (printServed texts).Follows (control D) (fun g' _ => g' = g) g := by
  induction texts with
  | nil => exact follows_pure rfl
  | cons text texts ih => exact follows_query_bind (List.nil_subset _) fun _ _ => ih

theorem printRuns_controls (registry : Registry) (g : Served) :
    (printRuns registry).Follows (control D) (fun g' _ => g' = g) g := by
  induction registry with
  | nil => exact follows_pure rfl
  | cons id ids ih => exact follows_query_bind trivial fun _ _ => follows_query_bind (List.nil_subset _) fun _ _ => ih

/-- What is set when the value says so. -/
theorem setInFlight_controls (handle : Handle) {registry : Registry} (runId : String) {g : Served} {command : Command}
    (hcommand : g.command = some command) (hsets : command.Sets handle runId) (hregistry : registry ⊆ g.spawned) :
    (setInFlight handle registry runId).Follows (control D)
      (fun g' r => g'.spawned = g.spawned ∧ ∃ set, r = .ok set ∧ (set = true → (handle, runId) ∈ g'.set)) g := by
  unfold setInFlight
  split_ifs with hmem
  · refine follows_query_bind trivial fun finished _ => ?_
    split_ifs
    · exact follows_pure ⟨rfl, false, rfl, fun h => by cases h⟩
    · refine follows_query_bind ⟨hregistry (by simpa using hmem), command, hcommand, hsets⟩ fun _ _ => ?_
      exact follows_pure ⟨rfl, true, rfl, fun _ => List.mem_cons_self⟩
  · exact follows_pure ⟨rfl, false, rfl, fun h => by cases h⟩

/-- Those that are counted are set; by induction on the map. -/
theorem cancelAllInFlight_controls (ids : Registry) {g : Served} (hcommand : g.command = some .cancelAll)
    (hids : ids ⊆ g.spawned) : (cancelAllInFlight ids).Follows (control D)
      (fun g' r => g'.spawned = g.spawned ∧ g.set ⊆ g'.set ∧
        ∃ counted, r = .ok counted ∧ counted.map (Handle.cancel, ·) ⊆ g'.set) g := by
  induction ids generalizing g with
  | nil => exact follows_pure ⟨rfl, List.Subset.refl _, [], rfl, List.nil_subset _⟩
  | cons id ids ih =>
    obtain ⟨hid, hids⟩ := List.cons_subset.mp hids
    refine follows_query_bind trivial fun finished _ => ?_
    split_ifs
    · exact ih hcommand hids
    · refine follows_query_bind ⟨hid, _, hcommand, trivial⟩ fun _ _ => ?_
      let g' : Served := { g with set := (.cancel, id) :: g.set }
      refine (ih (g := g') hcommand hids).bind
        (fun g' counted ⟨hspawned, hset, counted', hcounted, hsub⟩ => ?_) (by simp)
      cases hcounted
      refine follows_pure ⟨hspawned, List.Subset.trans (List.subset_cons_self _ _) hset, _, rfl, ?_⟩
      exact List.cons_subset.mpr ⟨hset List.mem_cons_self, hsub⟩

theorem spawnStreamingRun_controls (prompt : String) {registry : Registry} {g : Served}
    (hregistry : registry ⊆ g.spawned) :
    (spawnStreamingRun D prompt registry).Follows (control D) (Registers registry) g := by
  refine follows_query_bind trivial fun w _ => ?_
  refine follows_ofExcept_bind (fun cwd _ => ?_) fun _ _ => hregistry
  refine follows_ofExcept_bind (fun loaded _ => ?_) fun _ _ => hregistry
  refine follows_ofExcept_bind (fun selection _ => ?_) fun _ _ => hregistry
  refine follows_query_bind (List.nil_subset _) fun _ _ => ?_
  refine follows_query_bind ⟨rfl, rfl⟩ fun _ _ => ?_
  refine follows_query_bind trivial fun ids (hperm : ids.Perm registry) => ?_
  refine (retainUnfinished_controls ids _).bind (fun g' kept ⟨hg, kept', hkept, hsub⟩ => ?_) (by simp)
  cases hkept
  rw [hg]
  exact follows_pure (List.cons_subset_cons _ (List.Subset.trans hsub (List.Subset.trans hperm.subset hregistry)))

theorem runCommand_controls {command : Command} {registry : Registry} {g : Served} (hcommand : g.command = some command)
    (hregistry : registry ⊆ g.spawned) : (runCommand D registry command).Follows (control D) (Registers registry) g := by
  cases command with
  | prompt prompt => exact spawnStreamingRun_controls prompt hregistry
  | approve runId =>
    refine (setInFlight_controls .consent runId hcommand rfl hregistry).bind
      (fun g' granted ⟨hspawned, set, hset, hacked⟩ => ?_) (by simp)
    cases hset
    have hregistry' : registry ⊆ g'.spawned := hspawned ▸ hregistry
    cases granted with
    | false => exact follows_query_bind (List.nil_subset _) fun _ _ => follows_pure hregistry'
    | true =>
      refine follows_query_bind trivial fun w _ => ?_
      refine follows_ofExcept_bind (fun _ _ => ?_) fun _ _ => hregistry'
      refine follows_query_bind trivial fun _ _ => ?_
      exact follows_query_bind (List.cons_subset.mpr ⟨hacked rfl, List.nil_subset _⟩) fun _ _ => follows_pure hregistry'
  | cancel runId =>
    refine (setInFlight_controls .cancel runId hcommand rfl hregistry).bind
      (fun g' cancelled ⟨hspawned, set, hset, hacked⟩ => ?_) (by simp)
    cases hset
    have hregistry' : registry ⊆ g'.spawned := hspawned ▸ hregistry
    refine follows_query_bind ?_ fun _ _ => follows_pure hregistry'
    cases cancelled with
    | false => exact List.nil_subset _
    | true => exact List.cons_subset.mpr ⟨hacked rfl, List.nil_subset _⟩
  | cancelAll =>
    refine follows_query_bind trivial fun ids (hperm : ids.Perm registry) => ?_
    refine (cancelAllInFlight_controls ids hcommand (List.Subset.trans hperm.subset hregistry)).bind
      (fun g' counted ⟨hspawned, _, counted', hcounted, hacked⟩ => ?_) (by simp)
    cases hcounted
    have hregistry' : registry ⊆ g'.spawned := hspawned ▸ hregistry
    exact follows_query_bind hacked fun _ _ => follows_pure hregistry'
  | conductor =>
    refine follows_query_bind trivial fun ids (hperm : ids.Perm registry) => ?_
    refine (retainUnfinished_controls ids g).bind (fun g' kept ⟨hg, kept', hkept, hsub⟩ => ?_) (by simp)
    cases hkept
    refine (printRuns_controls kept g').bind (fun g'' _ hg' => ?_) fun g'' e hg' => ?_
    · refine follows_query_bind (List.nil_subset _) fun _ _ => follows_pure ?_
      rw [Registers, hg', hg]
      exact List.Subset.trans hsub (List.Subset.trans hperm.subset hregistry)
    · rw [Registers, hg', hg]
      exact hregistry
  | request request =>
    refine follows_query_bind trivial fun answer _ => ?_
    refine follows_ofExcept_bind (fun lines _ => ?_) fun _ _ => hregistry
    refine (printServed_controls lines g).bind (fun g' _ hg => ?_) fun g' e hg => ?_ <;> rw [hg]
    · exact follows_pure hregistry
    · exact hregistry

theorem handleLine_controls {line : List UInt8} {text : List Char} (hdecode : decode line = some text)
    {registry : Registry} {g : Served} (hcommand : g.command = commandOf D line) (hregistry : registry ⊆ g.spawned) :
    (handleLine D (Text.trim text) registry).Follows (control D)
      (fun g' r => ∃ registry', r = .ok registry' ∧ registry' ⊆ g'.spawned) g := by
  unfold handleLine
  split
  · exact follows_query_bind (List.nil_subset _) fun _ _ => follows_pure ⟨registry, rfl, hregistry⟩
  · next value hvalue =>
    have hhandled : (handleRpcCommand D value registry).Follows (control D) (Registers registry) g := by
      refine follows_ofExcept_bind (fun command hread => ?_) fun _ _ => hregistry
      refine runCommand_controls ?_ hregistry
      simp [hcommand, commandOf, hdecode, hvalue, hread, Except.toOption]
    refine hhandled.attempt.bind (fun g' r hattempt => ?_) (by simp)
    obtain ⟨x, hx, hregistry'⟩ := hattempt
    cases hx
    cases r with
    | ok registry' => exact follows_pure ⟨registry', rfl, hregistry'⟩
    | error e => exact follows_query_bind (List.nil_subset _) fun _ _ => follows_pure ⟨registry, rfl, hregistry'⟩

/-- Line by line: the registry has only runs that were started. -/
theorem readLoop_controls (lines : List (List UInt8)) {registry : Registry} {g : Served}
    (hregistry : registry ⊆ g.spawned) : (readLoop D lines registry).Follows (control D) (fun _ _ => True) g := by
  induction lines generalizing registry g with
  | nil => exact follows_pure trivial
  | cons line lines ih =>
    refine follows_query_bind trivial fun _ _ => ?_
    rcases hdecode : decode line with _ | text
    · exact follows_fail trivial
    by_cases hblank : (Text.trim text).isEmpty = true
    · simp only [hblank, if_true]
      exact ih hregistry
    · simp only [hblank, if_false, Bool.false_eq_true]
      have hcommand : ((control D).next g (.nextLine line) ()).command = commandOf D line := rfl
      refine (handleLine_controls hdecode hcommand hregistry).bind
        (fun g' registry' ⟨kept, hkept, hregistry'⟩ => ?_) (by simp)
      cases hkept
      split_ifs
      · exact follows_pure trivial
      · exact ih hregistry'

theorem shutdown_controls (registry : Registry) (g : Served) :
    (shutdown registry).Follows (control D) (fun _ _ => True) g := by
  have hawait (ids : List String) (g : Served) : (awaitAll ids).Follows (control D) (fun _ _ => True) g := by
    induction ids with
    | nil => exact follows_pure trivial
    | cons id ids ih => exact follows_query_bind trivial fun _ _ => ih
  refine follows_query_bind trivial fun ids _ => (hawait ids g).bind (fun g _ _ => ?_) fun _ _ _ => trivial
  refine follows_query_bind trivial fun reclaimed _ => ?_
  cases reclaimed with
  | false => exact follows_pure trivial
  | true => exact ⟨trivial, fun answer _ => by cases answer <;> trivial⟩

/-- **The daemon keeps to it.** -/
theorem runRpcDaemon_controls (lines : List (List UInt8)) :
    (runRpcDaemon D lines).Follows (control D) (fun _ _ => True) .start := by
  have hloop : (readLoop D lines [] >>= shutdown).Follows (control D) (fun _ _ => True) .start :=
    (readLoop_controls lines (List.nil_subset _)).bind (fun g registry _ => shutdown_controls registry g)
      fun _ _ _ => trivial
  unfold runRpcDaemon printBearer
  split_ifs
  · exact follows_query_bind (List.nil_subset _) fun _ _ => hloop
  · exact hloop

/-! ### What was set -/

/-- What the read loop has set and acknowledged is so. -/
structure Controls (D : Setup) (g : Served) (s : Shared) : Prop where
  told : EveryRun (ToldUnder D) s
  options : EveryRun (fun _ run => run.call.options = daemonOptions D) s
  spawned : ∀ id run, s.runs id = some run → id ∈ s.spawned
  fresh : ∀ id, g.fresh = some id → id ∉ s.spawned
  started : ∀ id ∈ g.spawned, (s.runs id).isSome
  set : ∀ handle id, (handle, id) ∈ g.set → ∃ run, s.runs id = some run ∧ run.handle handle = true
  acknowledged : ∀ line ∈ s.stdout, line.acks ⊆ g.set

/-- What an operation does to the runs that are there: they go on. -/
theorem Controls.goesOn {g : Served} {s s' : Shared} {op : Op} {answer : op.Answer} (h : Controls D g s)
    (hmay : (control D).may g op) (hperforms : Performs D s op answer s') {id : String} {run : Run}
    (hrun : s.runs id = some run) : ∃ run', s'.runs id = some run' ∧ GoesOn run run' [] := by
  cases hperforms with
  | spawn call =>
    have hne : id ≠ call.task.id := fun hid => h.fresh _ hmay.1 (hid ▸ h.spawned id run hrun)
    exact ⟨run, by rw [Shared.runs_spawn, if_neg hne]; exact hrun, goesOn_refl run⟩
  | setHandle handle runId =>
    by_cases hid : id = runId
    · exact ⟨run.setHandle handle, by rw [Shared.runs_modifyRun, if_pos hid, hrun]; rfl, goesOn_setHandle run handle⟩
    · exact ⟨run, by rw [Shared.runs_modifyRun, if_neg hid]; exact hrun, goesOn_refl run⟩
  | _ => exact ⟨run, hrun, goesOn_refl run⟩

theorem Shared.goesOn_stepped {s : Shared} {runId : String} {run run' : Run} {line : Option Line}
    (hrun : s.runs runId = some run) (hstep : run.StepsTo run' line) {id : String} {found : Run}
    (hfound : s.runs id = some found) :
    ∃ found' es, (s.stepped runId run' line).runs id = some found' ∧ GoesOn found found' es := by
  rw [Shared.runs_stepped]
  split_ifs with hid
  · subst hid
    cases hrun.symm.trans hfound
    obtain ⟨es, hes⟩ := goesOn_of_stepsTo hstep
    exact ⟨run', es, rfl, hes⟩
  · exact ⟨found, [], hfound, goesOn_refl found⟩

theorem Controls.performs {g : Served} {s s' : Shared} {op : Op} {answer : op.Answer} (h : Controls D g s)
    (hmay : (control D).may g op) (hperforms : Performs D s op answer s') :
    Controls D ((control D).next g op answer) s' := by
  have htold := told_performs h.told hperforms
  have hset (handle : Handle) (id : String) (hmem : (handle, id) ∈ g.set) :
      ∃ run, s'.runs id = some run ∧ run.handle handle = true := by
    obtain ⟨run, hrun, hhandle⟩ := h.set handle id hmem
    obtain ⟨run', hrun', hgoes⟩ := h.goesOn hmay hperforms hrun
    exact ⟨run', hrun', hgoes.handle handle hhandle⟩
  have hstarted (id : String) (hmem : id ∈ g.spawned) : (s'.runs id).isSome := by
    obtain ⟨run, hrun⟩ := Option.isSome_iff_exists.mp (h.started id hmem)
    obtain ⟨run', hrun', -⟩ := h.goesOn hmay hperforms hrun
    exact Option.isSome_iff_exists.mpr ⟨run', hrun'⟩
  have hspawned := listed_performs h.spawned hperforms
  cases hperforms with
  | println line =>
    refine ⟨htold, h.options, hspawned, h.fresh, h.started, h.set, fun l hl => ?_⟩
    rcases List.mem_append.mp hl with hl | hl
    · exact h.acknowledged l hl
    · exact List.mem_singleton.mp hl ▸ hmay
  | world w hfresh =>
    refine ⟨htold, h.options, hspawned, fun id hid => ?_, h.started, h.set, h.acknowledged⟩
    cases hid
    exact hfresh
  | spawn call =>
    refine ⟨htold, fun id run hrun => ?_, hspawned, (fun _ hid => by cases hid), fun id hid => ?_, hset, h.acknowledged⟩
    · rw [Shared.runs_spawn] at hrun
      split_ifs at hrun
      · cases hrun
        exact hmay.2
      · exact h.options id run hrun
    · rcases List.mem_cons.mp hid with rfl | hid
      · rw [Shared.runs_spawn, if_pos rfl]
        rfl
      · exact hstarted id hid
  | setHandle handle runId =>
    refine ⟨htold, fun id run' hrun' => ?_, hspawned, fun id hid => ?_, hstarted, fun handle' id hmem => ?_,
      fun l hl => ?_⟩
    · rw [Shared.runs_modifyRun] at hrun'
      split_ifs at hrun'
      · obtain ⟨run, hrun, rfl⟩ := Option.map_eq_some_iff.mp hrun'
        cases handle <;> exact h.options id run hrun
      · exact h.options id run' hrun'
    · rw [Shared.spawned_modifyRun]
      exact h.fresh id hid
    · rcases List.mem_cons.mp hmem with heq | hmem
      · obtain ⟨rfl, rfl⟩ := Prod.mk.inj heq
        obtain ⟨run, hrun⟩ := Option.isSome_iff_exists.mp (h.started id hmay.1)
        refine ⟨run.setHandle handle', by rw [Shared.runs_modifyRun, if_pos rfl, hrun]; rfl, ?_⟩
        cases handle' <;> rfl
      · exact hset handle' id hmem
    · rw [Shared.stdout_modifyRun] at hl
      exact List.subset_cons_of_subset _ (h.acknowledged l hl)
  | _ => exact ⟨htold, h.options, hspawned, h.fresh, h.started, h.set, h.acknowledged⟩

theorem Controls.stepped {g : Served} {s : Shared} {runId : String} {run run' : Run} {line : Option Line}
    (h : Controls D g s) (hrun : s.runs runId = some run) (hstep : run.StepsTo run' line) :
    Controls D g (s.stepped runId run' line) := by
  refine ⟨told_stepped h.told hrun hstep, h.options.stepped ?_, listed_stepped h.spawned hrun, fun id hid => ?_,
    fun id hid => ?_, fun handle id hmem => ?_, fun l hl => ?_⟩
  · rw [hstep.call_eq]
    exact h.options runId run hrun
  · rw [Shared.spawned_stepped]
    exact h.fresh id hid
  · obtain ⟨found, hfound⟩ := Option.isSome_iff_exists.mp (h.started id hid)
    obtain ⟨found', _, hfound', -⟩ := Shared.goesOn_stepped hrun hstep hfound
    exact Option.isSome_iff_exists.mpr ⟨found', hfound'⟩
  · obtain ⟨found, hfound, hhandle⟩ := h.set handle id hmem
    obtain ⟨found', es, hfound', hgoes⟩ := Shared.goesOn_stepped hrun hstep hfound
    exact ⟨found', hfound', hgoes.handle handle hhandle⟩
  · rw [Shared.stdout_stepped] at hl
    rcases List.mem_append.mp hl with hl | hl
    · exact h.acknowledged l hl
    · cases line with
      | none => cases hl
      | some line =>
        obtain rfl := List.mem_singleton.mp hl
        rw [((h.told runId run hrun).2.runId_line hstep).2]
        exact List.nil_subset _

/-! ### In every execution -/

abbrev Controlled (D : Setup) (s : State) : Prop := Keeps (control D) (fun _ _ => True) (Controls D) .start s

theorem control_hears {g : Served} {s s' : Shared} {op : Op} {answer : op.Answer} (h : Performs D s op answer s') :
    (control D).hears g op answer := by
  cases h with
  | iterate hperm => exact hperm
  | _ => trivial

theorem controlled_start (D : Setup) (stdin : List UInt8) : Controlled D (start D stdin) where
  follows := runRpcDaemon_controls _
  related := ⟨told_start D stdin, (fun _ _ hrun => by cases hrun), (fun _ _ hrun => by cases hrun),
    (fun _ hid => by cases hid), (fun _ hid => by cases hid), (fun _ _ hset => by cases hset), fun _ hl => by cases hl⟩

theorem controlled_step {s s' : State} {a : Action} (hs : Controlled D s) (ha : daemonStep D s a = some s') :
    Controlled D s' :=
  hs.step (fun _ _ _ _ _ h hmay hperforms _ => h.performs hmay hperforms)
    (fun _ _ _ _ _ _ h hrun hstep => h.stepped hrun hstep) ha fun _ _ _ _ _ hperforms => control_hears hperforms

theorem controlled_of_run {stdin : List UInt8} {as : List Action} {s : State}
    (h : TransitionSystem.run (daemonStep D) (start D stdin) as = some s) : Controlled D s :=
  run_induction (I := fun _ s => Controlled D s) (controlled_start D stdin)
    (fun _ _ _ _ _ hs ha => controlled_step hs ha) h

/-- Every run that is there goes on. -/
theorem goesOn_step {s s' : State} {a : Action} (hs : Controlled D s) (ha : daemonStep D s a = some s') {id : String}
    {run : Run} (hrun : s.shared.runs id = some run) : ∃ run' es, s'.shared.runs id = some run' ∧ GoesOn run run' es := by
  rcases daemonStep_cases ha with ⟨_, op, next, answer, shared, -, hask, -, hperforms, rfl⟩ |
    ⟨runId, _, stepping, stepped, line, -, -, hlookup, hstep, rfl⟩
  · have hmay := hs.follows
    rw [hask] at hmay
    obtain ⟨run', hrun', hgoes⟩ := hs.related.goesOn hmay.1 hperforms hrun
    exact ⟨run', [], hrun', hgoes⟩
  · exact Shared.goesOn_stepped hlookup (Run.stepsTo_of_step hstep) hrun

theorem goesOn_of_run {s s' : State} {as : List Action} (hs : Controlled D s)
    (h : TransitionSystem.run (daemonStep D) s as = some s') {id : String} {run : Run}
    (hrun : s.shared.runs id = some run) : ∃ run' es, s'.shared.runs id = some run' ∧ GoesOn run run' es := by
  refine (run_induction
    (I := fun _ s' => Controlled D s' ∧ ∃ run' es, s'.shared.runs id = some run' ∧ GoesOn run run' es)
    ⟨hs, run, [], hrun, goesOn_refl run⟩ (fun _ _ _ _ _ ⟨ht, run', es, hrun', hgoes⟩ ha => ?_) h).2
  obtain ⟨run'', es', hrun'', hgoes'⟩ := goesOn_step ht ha hrun'
  exact ⟨controlled_step ht ha, run'', es ++ es', hrun'', hgoes.trans hgoes'⟩

/-- What is acknowledged is set. -/
theorem Keeps.handle_of_acknowledged {s : State} (hs : Controlled D s) {handle : Handle} {runId : String}
    (h : Acknowledged s handle runId) : ∃ run, s.shared.runs runId = some run ∧ run.handle handle = true := by
  obtain ⟨line, hline, hack⟩ := h
  exact hs.related.set handle runId (hs.related.acknowledged line hline hack)

theorem after_command (D : Setup) (log : Log) : ((control D).after .start log).command = serving D log := by
  induction log using List.reverseRecOn with
  | nil => rfl
  | append_singleton log x ih =>
    obtain ⟨op, answer⟩ := x
    rw [Protocol.after_concat, serving, List.foldl_append]
    cases op with
    | nextLine line => rfl
    | _ => exact ih

/-- Only the command that is served sets a handle, and only of the runs it names. -/
theorem sets_of_step {s s' : State} {a : Action} (hs : Controlled D s) (ha : daemonStep D s a = some s') {id : String}
    {run run' : Run} (hrun : s.shared.runs id = some run) (hrun' : s'.shared.runs id = some run') {handle : Handle}
    (hne : run'.handle handle ≠ run.handle handle) : ∃ command, serving D s.log = some command ∧ command.Sets handle id := by
  rcases daemonStep_cases ha with ⟨_, op, next, answer, shared, -, hask, -, hperforms, rfl⟩ |
    ⟨runId, _, stepping, stepped, line, -, -, hlookup, hstep, rfl⟩
  · have hmay := hs.follows
    rw [hask] at hmay
    obtain ⟨call, rfl, rfl, -⟩ | ⟨handle', run₀, rfl, hrun₀, rfl⟩ | hsame := hperforms.runs hrun'
    · exact absurd (hs.related.spawned _ run hrun) (hs.related.fresh _ hmay.1.1)
    · cases hrun.symm.trans hrun₀
      obtain ⟨-, command, hcommand, hsets⟩ := hmay.1
      obtain rfl : handle' = handle := by
        by_contra hother
        cases handle' <;> cases handle <;> first | exact hother rfl | exact hne rfl
      exact ⟨command, (after_command D s.log).symm.trans hcommand, hsets⟩
    · cases hrun.symm.trans hsame
      exact absurd rfl hne
  · rw [Shared.runs_stepped] at hrun'
    split_ifs at hrun' with hid
    · subst hid
      cases hrun'
      cases hrun.symm.trans hlookup
      have hstepsTo := Run.stepsTo_of_step hstep
      cases handle with
      | consent => exact absurd hstepsTo.consent_eq hne
      | cancel => exact absurd hstepsTo.cancel_eq hne
    · cases hrun.symm.trans hrun'
      exact absurd rfl hne

/-! ### The result -/

/-- The run is reported cancelled or blocked, and is not applied. -/
def Withheld (report : RunReport) : Prop := (report.cancelled = true ∨ report.blocked = true) ∧ report.applied = false

/-- The run is not a tournament, and the round it ends with is accepted. -/
def Accepted (D : Setup) (run : Run) (report : RunReport) : Prop :=
  run.call.config.orchestration.defaultStrategy ≠ .tournament ∧
    (reportSetting D.externals run.call.config run.call.options report).acceptsLast report.rounds = true

/-- What an acknowledgement of the one state is worth in a later one, after the exchanges in between. -/
structure Honoured (D : Setup) (s s' : State) : Prop where
  cancel : ∀ id, Acknowledged s .cancel id → ∃ run run' es, s.shared.runs id = some run ∧ s'.shared.runs id = some run' ∧
    run'.trace = run.trace ++ es ∧ ∀ report, run'.phase.outcome? = some (.ok report) →
      ((∃ b, (⟨.isCancelled, b⟩ : Exchange Question Question.Answer) ∈ es) → Withheld report) ∧
      (recorded es ≠ [] → Withheld report ∨ Accepted D run' report)
  consent : ∀ id, Acknowledged s .consent id → ∃ run run' es, s.shared.runs id = some run ∧ s'.shared.runs id = some run' ∧
    run'.trace = run.trace ++ es ∧ ∀ b, (⟨.isGranted, b⟩ : Exchange Question Question.Answer) ∈ es →
      b = true ∧ ∀ report, run'.phase.outcome? = some (.ok report) → report.Applies
  names : ∀ a s'', daemonStep D s' a = some s'' → ∀ id run run', s'.shared.runs id = some run →
    s''.shared.runs id = some run' → ∀ handle, run'.handle handle ≠ run.handle handle →
      ∃ command, serving D s'.log = some command ∧ command.Sets handle id

/-- A report that is stopped is withheld. -/
theorem withheld_of_stopped {options : RunOptions} {trace : Trace} {report : RunReport}
    (h : GateHolds options trace report) (hstopped : report.Stopped) : Withheld report :=
  have hblocked := h.blocked_of_stopped hstopped
  ⟨Or.inr hblocked, h.not_applied_of_blocked hblocked⟩

/-- **What is acknowledged is honoured**, by any number of runs of any strategy, however their steps
are mixed with the commands: a cancel by every run that looks at it or records a round afterwards,
unless the round is accepted; a grant wherever the consent is asked for afterwards; and no command
sets a handle of a run it does not name. -/
theorem acknowledgements_honoured {stdin : List UInt8} {as as' : List Action} {s s' : State}
    (h : TransitionSystem.run (daemonStep D) (start D stdin) as = some s)
    (h' : TransitionSystem.run (daemonStep D) s as' = some s') : Honoured D s s' := by
  have hs := controlled_of_run h
  have hwhole : TransitionSystem.run (daemonStep D) (start D stdin) (as ++ as') = some s' := by
    rw [run_append, h]
    exact h'
  have hs' : Controlled D s' := controlled_of_run hwhole
  constructor
  · intro id hack
    obtain ⟨run, hrun, hset⟩ := hs.handle_of_acknowledged hack
    obtain ⟨run', es, hrun', hgoes⟩ := goesOn_of_run hs h' hrun
    refine ⟨run, run', es, hrun, hrun', hgoes.trace, fun report hreport => ?_⟩
    have hcancelling := hgoes.cancelling hset
    have hruns := (hs'.related.told id run' hrun').2.outcome _ hreport
    have htoken : run'.call.options.cancelToken = true := by
      rw [hs'.related.options id run' hrun']
      exact daemonOptions_cancelToken D
    have hseams := runSynapticLoop_seams htoken hruns
    have hgate := apply_gate hruns
    constructor
    · rintro ⟨b, hread⟩
      cases b with
      | false => exact absurd hread hcancelling
      | true =>
        refine withheld_of_stopped hgate (Or.inr (Or.inr (Or.inr (hseams.cancelled ?_))))
        rw [hgoes.trace]
        exact List.mem_append_right _ hread
    · intro hrecorded
      obtain hcancelled | hbudget | haccepted := hseams.stopped ⟨run.trace, es, hgoes.trace, hcancelling, hrecorded⟩
      · exact Or.inl (withheld_of_stopped hgate (Or.inr (Or.inr (Or.inr hcancelled))))
      · exact Or.inl (withheld_of_stopped hgate (Or.inl hbudget))
      · exact Or.inr haccepted
  · intro id hack
    obtain ⟨run, hrun, hset⟩ := hs.handle_of_acknowledged hack
    obtain ⟨run', es, hrun', hgoes⟩ := goesOn_of_run hs h' hrun
    refine ⟨run, run', es, hrun, hrun', hgoes.trace, fun b hread => ?_⟩
    cases b with
    | false => exact absurd hread (hgoes.granting hset)
    | true =>
      have hruns := (hs'.related.told id run' hrun').2.outcome
      refine ⟨rfl, fun report hreport => runSynapticLoop_granted _ _ (hruns _ hreport) ?_⟩
      rw [hgoes.trace]
      exact List.mem_append_right _ hread
  · intro a s'' ha id run run' hrun hrun' handle hne
    exact sets_of_step hs' ha hrun hrun' hne

/-! ### Two executions -/

/-- A prompt, and a cancel of everything. -/
def sampleCancelAll : String := samplePrompt ++ "\x7b\"command\":\"cancel\",\"all\":true\x7d\n"

/-- Both lines are served before the run has begun. -/
def sampleServed : List Action := List.replicate 10 (.main sampleAnswers)

/-- An exchange of the loop, with a reviewer that wants changes. -/
def sampleReject : RunAction := .advance (sampleWorld sampleOutput
  { ReviewerFeedback.lgtm "codex" "again" with verdict := .requestChanges } .pass [])

/-- The cancel is acknowledged, and the run may go on. -/
theorem acknowledged_sample (as' : List Action)
    (h : (TransitionSystem.run (daemonStep sampleSetup) (start sampleSetup sampleCancelAll.toUTF8.toList)
      (sampleServed ++ as')).isSome = true) :
    ∃ s s', TransitionSystem.run (daemonStep sampleSetup) (start sampleSetup sampleCancelAll.toUTF8.toList) sampleServed =
      some s ∧ TransitionSystem.run (daemonStep sampleSetup) s as' = some s' ∧ Acknowledged s .cancel "run" := by
  have hrun : (TransitionSystem.run (daemonStep sampleSetup) (start sampleSetup sampleCancelAll.toUTF8.toList)
      sampleServed).map (fun s => s.shared.stdout) =
      some [.sessionStarted "run" "add a file" "claude-code" "codex", .cancelAllAck ["run"]] := by decide +kernel
  obtain ⟨s, hs, hstdout⟩ := Option.map_eq_some_iff.mp hrun
  rw [run_append, hs] at h
  obtain ⟨s', hs'⟩ := Option.isSome_iff_exists.mp h
  refine ⟨s, s', hs, hs', .cancelAllAck ["run"], ?_, List.mem_singleton_self _⟩
  rw [hstdout]
  exact List.mem_cons_of_mem _ (List.mem_singleton_self _)

/-- The cancel is honoured by a run that is not accepted. -/
theorem acknowledgements_honoured_cancelled : ∃ as as' s s', TransitionSystem.run (daemonStep sampleSetup)
      (start sampleSetup sampleCancelAll.toUTF8.toList) as = some s ∧
    TransitionSystem.run (daemonStep sampleSetup) s as' = some s' ∧ Acknowledged s .cancel "run" ∧
    Honoured sampleSetup s s' := by
  obtain ⟨s, s', hs, hs', hack⟩ := acknowledged_sample (List.replicate 8 (.run "run" sampleReject)) (by decide +kernel)
  exact ⟨_, _, s, s', hs, hs', hack, acknowledgements_honoured hs hs'⟩

/-- What the report of a run says: whether it is cancelled, blocked, applied. -/
def Run.decision? (run : Run) : Option (Bool × Bool × Bool) :=
  match run.phase.outcome? with
  | some (.ok report) => some (report.cancelled, report.blocked, report.applied)
  | _ => none

/-- **An acceptance comes before the cancel**: the run has not begun when its cancel is
acknowledged, and it is neither cancelled nor blocked, and applied. -/
theorem acknowledged_and_applied : ∃ as as' s s' run report, TransitionSystem.run (daemonStep sampleSetup)
      (start sampleSetup sampleCancelAll.toUTF8.toList) as = some s ∧
    TransitionSystem.run (daemonStep sampleSetup) s as' = some s' ∧ Acknowledged s .cancel "run" ∧
    s'.shared.runs "run" = some run ∧ run.phase.outcome? = some (.ok report) ∧
    report.cancelled = false ∧ report.blocked = false ∧ report.applied = true := by
  let as' : List Action := List.replicate 8 (.run "run" sampleAdvance)
  have hrun : (TransitionSystem.run (daemonStep sampleSetup) (start sampleSetup sampleCancelAll.toUTF8.toList)
      (sampleServed ++ as')).map (fun s' => (s'.shared.runs "run").bind Run.decision?) = some (some (false, false, true)) := by
    decide +kernel
  obtain ⟨s, s', hs, hs', hack⟩ := acknowledged_sample as' (by
    obtain ⟨s', hs', -⟩ := Option.map_eq_some_iff.mp hrun
    rw [hs', Option.isSome_some])
  rw [run_append, hs, Option.bind_some, hs', Option.map_some, Option.some.injEq] at hrun
  obtain ⟨run, hlookup, hdecision⟩ := Option.bind_eq_some_iff.mp hrun
  rw [Run.decision?] at hdecision
  split at hdecision
  · next report houtcome =>
    simp only [Option.some.injEq, Prod.mk.injEq] at hdecision
    exact ⟨_, _, s, s', run, report, hs, hs', hack, hlookup, houtcome, hdecision⟩
  · cases hdecision

end Nerve.Daemon
