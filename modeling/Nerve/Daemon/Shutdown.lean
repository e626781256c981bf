import Nerve.Daemon.Steps

/-!
# The shutdown of the daemon

The read loop keeps every run that may not be finished in its registry, and at the end waits for all of them;
then it reclaims the bus and removes the token. The record that shows it (`Watch`) has the runs that may
not be finished, and what went wrong: a line that is no text ends the loop on the spot, without the drain, and a
bus that is not reclaimed leaves the token where it is.
-/

namespace Nerve.Daemon

open Nerve Nerve.Patch Nerve.Run Nerve.Session Dialogue TransitionSystem

/-! ### What is watched -/

structure Watch where
  /-- The runs that may not be finished. -/
  live : List String
  /-- A line was no text. -/
  cut : Bool
  /-- The token stays. -/
  kept : Bool
  removed : Bool

namespace Watch

def start : Watch := ⟨[], false, false, false⟩

/-- Nothing has gone wrong, and the end is not reached. -/
def Going (w : Watch) : Prop := w.cut = false ∧ w.kept = false ∧ w.removed = false

def forget (w : Watch) (runId : String) : Watch := { w with live := w.live.filter (· ≠ runId) }

end Watch

/-- The loop goes on only if nothing has gone wrong, and reclaims the bus only when no run is left. -/
def watch : Protocol Op Op.Answer Watch where
  may w op := w.Going ∧ (op = .tryUnwrap → w.live = [])
  hears _ op answer :=
    match op, answer with
    | .iterate registry, ids => ids.Perm registry
    | _, _ => True
  next w op answer :=
    match op, answer with
    | .nextLine bytes, _ => { w with cut := (decode bytes).isNone }
    | .spawn call, _ => { w with live := call.task.id :: w.live }
    | .isFinished runId, finished => if finished then w.forget runId else w
    | .join runId, _ => w.forget runId
    | .tryUnwrap, reclaimed => { w with kept := !reclaimed }
    | .removeToken, .ok _ => { w with removed := true }
    | .removeToken, .error _ => { w with kept := true }
    | _, _ => w

/-- The loop over these lines is over: cut off, or with no run left. -/
def watched (lines : List (List UInt8)) (w : Watch) (r : Except RunError Unit) : Prop :=
  (w.cut = true ∧ ∃ line ∈ lines, decode line = none) ∨
    (w.live = [] ∧ (w.kept = true ∨ w.removed = true ∧ r = .ok ()))

/-! ### The loop keeps to it -/

/-- An operation that starts no run, reads no line and does not end the loop. -/
def Op.IsQuiet : Op → Prop
  | nextLine _ | spawn _ | tryUnwrap | removeToken => False
  | _ => True

theorem Watch.Going.quiet {w : Watch} (hw : w.Going) {op : Op} (hop : op.IsQuiet) (answer : op.Answer) :
    (watch.next w op answer).Going ∧ (watch.next w op answer).live ⊆ w.live := by
  cases op with
  | nextLine | spawn | tryUnwrap | removeToken => cases hop
  | isFinished runId =>
    cases answer with
    | false => exact ⟨hw, List.Subset.refl _⟩
    | true => exact ⟨hw, List.filter_subset_self _⟩
  | join runId => exact ⟨hw, List.filter_subset_self _⟩
  | _ => exact ⟨hw, List.Subset.refl _⟩

theorem Op.IsQuiet.may {w : Watch} (hw : w.Going) {op : Op} (hop : op.IsQuiet) : watch.may w op :=
  ⟨hw, by rintro rfl; cases hop⟩

/-- A quiet part is followed by the rest, with no more runs to watch. -/
theorem follows_quiet_bind {α β : Type} {d : DaemonM α} {f : α → DaemonM β} {Ψ : Watch → Except RunError β → Prop}
    (hquiet : d.Asks Op.IsQuiet) {w : Watch} (hw : w.Going)
    (hok : ∀ w' a, w'.Going → w'.live ⊆ w.live → (f a).Follows watch Ψ w')
    (herror : ∀ w' e, w'.Going → w'.live ⊆ w.live → Ψ w' (.error e)) : (d >>= f).Follows watch Ψ w := by
  induction d generalizing w with
  | done a => exact hok w a hw (List.Subset.refl _)
  | fail e => exact herror w e hw (List.Subset.refl _)
  | ask op next ih =>
    refine ⟨hquiet.1.may hw, fun answer _ => ?_⟩
    obtain ⟨hgoing, hlive⟩ := hw.quiet hquiet.1 answer
    exact ih answer (hquiet.2 answer) hgoing (fun w' a hw' hsub => hok w' a hw' (List.Subset.trans hsub hlive))
      fun w' e hw' hsub => herror w' e hw' (List.Subset.trans hsub hlive)

theorem println_quiet (line : Line) : (println line).Asks Op.IsQuiet := asks_query trivial

theorem setInFlight_quiet (handle : Handle) (registry : Registry) (runId : String) :
    (setInFlight handle registry runId).Asks Op.IsQuiet := by
  unfold setInFlight
  split_ifs
  · refine Asks.bind (asks_query trivial) fun finished => ?_
    split_ifs
    · exact asks_pure _
    · exact Asks.bind (asks_query trivial) fun _ => asks_pure _
  · exact asks_pure _

theorem cancelAllInFlight_quiet (registry : Registry) : (cancelAllInFlight registry).Asks Op.IsQuiet := by
  induction registry with
  | nil => exact asks_pure _
  | cons id ids ih =>
    refine Asks.bind (asks_query trivial) fun finished => ?_
    split_ifs
    · exact ih
    · exact Asks.bind (asks_query trivial) fun _ => ih.bind fun _ => asks_pure _

theorem printRuns_quiet (registry : Registry) : (printRuns registry).Asks Op.IsQuiet := by
  induction registry with
  | nil => exact asks_pure _
  | cons id ids ih => exact Asks.bind (asks_query trivial) fun _ => (println_quiet _).bind fun _ => ih

theorem printServed_quiet (texts : List String) : (printServed texts).Asks Op.IsQuiet := by
  induction texts with
  | nil => exact asks_pure _
  | cons text texts ih => exact (println_quiet _).bind fun _ => ih

/-- What is kept has the runs that may not be finished, apart from those in `extra`; by induction on the map. -/
theorem retainUnfinished_follows (ids extra : Registry) {w : Watch} (hw : w.Going)
    (hlive : ∀ id ∈ w.live, id ∈ ids ∨ id ∈ extra) : (retainUnfinished ids).Follows watch
      (fun w' r => w'.Going ∧ w'.live ⊆ w.live ∧ ∃ kept, r = .ok kept ∧ ∀ id ∈ w'.live, id ∈ kept ∨ id ∈ extra) w := by
  induction ids generalizing extra w with
  | nil => exact follows_pure ⟨hw, List.Subset.refl _, [], rfl, hlive⟩
  | cons id ids ih =>
    have hstep : Op.IsQuiet (.isFinished id) := trivial
    refine follows_query_bind (hstep.may hw) fun finished _ => ?_
    obtain ⟨hgoing, hshrunk⟩ := hw.quiet hstep finished
    cases finished with
    | true =>
      refine (ih extra hgoing fun x hx => ?_).bind (fun w' kept ⟨hw', hsub, kept', hkept, hlive'⟩ => ?_) (by simp)
      · obtain ⟨hx, hne⟩ := List.mem_filter.mp hx
        rcases hlive x hx with hx | hx
        · exact Or.inl ((List.mem_cons.mp hx).resolve_left (by simpa using hne))
        · exact Or.inr hx
      · cases hkept
        exact follows_pure ⟨hw', List.Subset.trans hsub hshrunk, kept, rfl, hlive'⟩
    | false =>
      refine (ih (id :: extra) hgoing fun x hx => ?_).bind (fun w' kept ⟨hw', hsub, kept', hkept, hlive'⟩ => ?_) (by simp)
      · rcases hlive x hx with hx | hx
        · rcases List.mem_cons.mp hx with rfl | hx
          · exact Or.inr List.mem_cons_self
          · exact Or.inl hx
        · exact Or.inr (List.mem_cons_of_mem _ hx)
      · cases hkept
        refine follows_pure ⟨hw', List.Subset.trans hsub hshrunk, id :: kept, rfl, fun x hx => ?_⟩
        rcases hlive' x hx with hx | hx
        · exact Or.inl (List.mem_cons_of_mem _ hx)
        · rcases List.mem_cons.mp hx with rfl | hx
          · exact Or.inl List.mem_cons_self
          · exact Or.inr hx

section Loop

variable {D : Setup}

/-- The registry afterwards, which a failure leaves as it was, has the runs that may not be finished. -/
def Tracked (registry : Registry) (w : Watch) (r : Except RunError Registry) : Prop :=
  w.Going ∧ w.live ⊆ r.toOption.getD registry

theorem Watch.Going.tracked {w w' : Watch} {registry : Registry} (hw : w'.Going) (hsub : w'.live ⊆ w.live)
    (hlive : w.live ⊆ registry) : Tracked registry w' (.ok registry) ∧ ∀ e, Tracked registry w' (.error e) :=
  ⟨⟨hw, List.Subset.trans hsub hlive⟩, fun _ => ⟨hw, List.Subset.trans hsub hlive⟩⟩

/-- A quiet part that ends with the registry it began with. -/
theorem follows_quiet_same {α : Type} {d : DaemonM α} (hquiet : d.Asks Op.IsQuiet) {w : Watch} (hw : w.Going)
    {registry : Registry} (hlive : w.live ⊆ registry) :
    (d >>= fun _ => pure registry).Follows watch (Tracked registry) w :=
  follows_quiet_bind hquiet hw (fun _ _ hw' hsub => follows_pure (hw'.tracked hsub hlive).1)
    fun _ e hw' hsub => (hw'.tracked hsub hlive).2 e

theorem spawnStreamingRun_follows (prompt : String) {registry : Registry} {w : Watch} (hw : w.Going)
    (hlive : w.live ⊆ registry) : (spawnStreamingRun D prompt registry).Follows watch (Tracked registry) w := by
  have hworld : Op.IsQuiet .world := trivial
  refine follows_query_bind (hworld.may hw) fun v _ => ?_
  have hfail (e : RunError) : Tracked registry w (.error e) := ⟨hw, hlive⟩
  refine follows_ofExcept_bind (fun cwd _ => ?_) fun e _ => hfail e
  refine follows_ofExcept_bind (fun loaded _ => ?_) fun e _ => hfail e
  refine follows_ofExcept_bind (fun selection _ => ?_) fun e _ => hfail e
  refine follows_query_bind (Op.IsQuiet.may hw trivial) fun _ _ => ?_
  refine follows_query_bind ⟨hw, fun h => by cases h⟩ fun _ _ => ?_
  have hiterate : Op.IsQuiet (.iterate registry) := trivial
  have hspawned (task : Task) : ({ w with live := task.id :: w.live } : Watch).Going := hw
  refine follows_query_bind (hiterate.may (hspawned _)) fun ids (hperm : ids.Perm registry) => ?_
  refine (retainUnfinished_follows ids [v.taskId 0] (hspawned _) fun id hid => ?_).bind
    (fun w' kept ⟨hw', _, kept', hkept, hlive'⟩ => ?_) (by simp)
  · rcases List.mem_cons.mp hid with rfl | hid
    · exact Or.inr (List.mem_singleton_self _)
    · exact Or.inl (hperm.mem_iff.mpr (hlive hid))
  · cases hkept
    refine follows_pure ⟨hw', fun id hid => ?_⟩
    rcases hlive' id hid with hid | hid
    · exact List.mem_cons_of_mem _ hid
    · rw [List.mem_singleton.mp hid]
      exact List.mem_cons_self

theorem runCommand_follows (command : Command) {registry : Registry} {w : Watch} (hw : w.Going)
    (hlive : w.live ⊆ registry) : (runCommand D registry command).Follows watch (Tracked registry) w := by
  have hprinted (line : Line) {w' : Watch} (hw' : w'.Going) (hsub : w'.live ⊆ w.live) :
      (println line >>= fun _ => pure registry).Follows watch (Tracked registry) w' :=
    follows_quiet_same (println_quiet line) hw' (List.Subset.trans hsub hlive)
  have herror (w' : Watch) (e : RunError) (hw' : w'.Going) (hsub : w'.live ⊆ w.live) : Tracked registry w' (.error e) :=
    (hw'.tracked hsub hlive).2 e
  have hiterate : Op.IsQuiet (.iterate registry) := trivial
  cases command with
  | prompt prompt => exact spawnStreamingRun_follows prompt hw hlive
  | approve runId =>
    refine follows_quiet_bind (setInFlight_quiet _ _ _) hw (fun w' granted hw' hsub => ?_) herror
    cases granted with
    | false => exact hprinted _ hw' hsub
    | true =>
      refine follows_query_bind (Op.IsQuiet.may hw' trivial) fun v _ => ?_
      refine follows_ofExcept_bind (fun _ _ => ?_) fun e _ => herror w' e hw' hsub
      refine follows_query_bind (Op.IsQuiet.may hw' trivial) fun _ _ => ?_
      exact hprinted _ hw' hsub
  | cancel runId =>
    exact follows_quiet_bind (setInFlight_quiet _ _ _) hw (fun w' cancelled hw' hsub => hprinted _ hw' hsub) herror
  | cancelAll =>
    refine follows_query_bind (hiterate.may hw) fun ids _ => ?_
    exact follows_quiet_bind (cancelAllInFlight_quiet ids) hw (fun w' counted hw' hsub => hprinted _ hw' hsub) herror
  | conductor =>
    refine follows_query_bind (hiterate.may hw) fun ids (hperm : ids.Perm registry) => ?_
    refine (retainUnfinished_follows ids [] hw fun id hid => Or.inl (hperm.mem_iff.mpr (hlive hid))).bind
      (fun w' kept ⟨hw', hsub', kept', hkept, hlive'⟩ => ?_) (by simp)
    cases hkept
    have hkept : w'.live ⊆ kept := fun id hid => (hlive' id hid).resolve_right List.not_mem_nil
    refine follows_quiet_bind (printRuns_quiet kept) hw' (fun w'' _ hw'' hsub => ?_)
      fun w'' e hw'' hsub => herror w'' e hw'' (List.Subset.trans hsub hsub')
    refine follows_query_bind (Op.IsQuiet.may hw'' trivial) fun _ _ => ?_
    exact follows_pure ⟨hw'', List.Subset.trans hsub hkept⟩
  | request request =>
    refine follows_query_bind (Op.IsQuiet.may hw trivial) fun answer _ => ?_
    refine follows_ofExcept_bind (fun lines _ => ?_) fun e _ => herror w e hw (List.Subset.refl _)
    exact follows_quiet_same (printServed_quiet lines) hw hlive

theorem handleLine_follows (line : List Char) {registry : Registry} {w : Watch} (hw : w.Going)
    (hlive : w.live ⊆ registry) : (handleLine D line registry).Follows watch
      (fun w' r => w'.Going ∧ ∃ registry', r = .ok registry' ∧ w'.live ⊆ registry') w := by
  unfold handleLine
  split
  · refine follows_query_bind (Op.IsQuiet.may hw trivial) fun _ _ => ?_
    exact follows_pure ⟨hw, registry, rfl, hlive⟩
  · next value _ =>
    have hcommand : (handleRpcCommand D value registry).Follows watch (Tracked registry) w :=
      follows_ofExcept_bind (fun command _ => runCommand_follows command hw hlive) fun e _ => ⟨hw, hlive⟩
    refine hcommand.attempt.bind (fun w' r ⟨x, hx, hw', hlive'⟩ => ?_) (by simp)
    cases hx
    cases r with
    | ok registry' => exact follows_pure ⟨hw', registry', rfl, hlive'⟩
    | error e =>
      refine follows_query_bind (Op.IsQuiet.may hw' trivial) fun _ _ => ?_
      exact follows_pure ⟨hw', registry, rfl, hlive'⟩

/-- Line by line: the loop is cut off, or its registry has the runs that may not be finished. -/
theorem readLoop_follows (lines : List (List UInt8)) {registry : Registry} {w : Watch} (hw : w.Going)
    (hlive : w.live ⊆ registry) : (readLoop D lines registry).Follows watch
      (fun w' r => (w'.cut = true ∧ (∃ line ∈ lines, decode line = none) ∧ ∃ e, r = .error e) ∨
        w'.Going ∧ ∃ registry', r = .ok registry' ∧ w'.live ⊆ registry') w := by
  induction lines generalizing registry w with
  | nil => exact follows_pure (Or.inr ⟨hw, registry, rfl, hlive⟩)
  | cons line lines ih =>
    refine follows_query_bind ⟨hw, fun h => by cases h⟩ fun _ _ => ?_
    have hcut : (watch.next w (.nextLine line) ()).cut = (decode line).isNone := rfl
    rcases hdecode : decode line with _ | text
    · rw [hdecode] at hcut
      exact follows_fail (Or.inl ⟨hcut, ⟨line, List.mem_cons_self, hdecode⟩, _, rfl⟩)
    · rw [hdecode] at hcut
      have hw : (watch.next w (.nextLine line) ()).Going := ⟨hcut, hw.2⟩
      have hlater (w' : Watch) (r : Except RunError Registry)
          (h : (w'.cut = true ∧ (∃ line ∈ lines, decode line = none) ∧ ∃ e, r = .error e) ∨
            w'.Going ∧ ∃ registry', r = .ok registry' ∧ w'.live ⊆ registry') :
          (w'.cut = true ∧ (∃ later ∈ line :: lines, decode later = none) ∧ ∃ e, r = .error e) ∨
            w'.Going ∧ ∃ registry', r = .ok registry' ∧ w'.live ⊆ registry' :=
        h.imp_left fun ⟨hcut, ⟨later, hlater, hnone⟩, he⟩ => ⟨hcut, ⟨later, List.mem_cons_of_mem _ hlater, hnone⟩, he⟩
      by_cases hblank : (Text.trim text).isEmpty = true
      · simp only [hblank, if_true]
        exact (ih hw hlive).mono hlater
      · simp only [hblank, if_false, Bool.false_eq_true]
        refine (handleLine_follows _ hw hlive).bind (fun w' registry' ⟨hw', kept, hkept, hlive'⟩ => ?_) (by simp)
        cases hkept
        split_ifs
        · exact follows_pure (Or.inr ⟨hw', registry', rfl, hlive'⟩)
        · exact (ih hw' hlive').mono hlater

theorem awaitAll_follows (ids : List String) {w : Watch} (hw : w.Going) (hlive : w.live ⊆ ids) :
    (awaitAll ids).Follows watch (fun w' r => w'.Going ∧ r = .ok () ∧ w'.live = []) w := by
  induction ids generalizing w with
  | nil => exact follows_pure ⟨hw, rfl, List.subset_nil.mp hlive⟩
  | cons id ids ih =>
    refine follows_query_bind (Op.IsQuiet.may hw trivial) fun _ _ => ih hw fun x hx => ?_
    obtain ⟨hx, hne⟩ := List.mem_filter.mp hx
    exact (List.mem_cons.mp (hlive hx)).resolve_left (by simpa using hne)

theorem shutdown_follows (lines : List (List UInt8)) {registry : Registry} {w : Watch} (hw : w.Going)
    (hlive : w.live ⊆ registry) : (shutdown registry).Follows watch (watched lines) w := by
  have hiterate : Op.IsQuiet (.iterate registry) := trivial
  refine follows_query_bind (hiterate.may hw) fun ids (hperm : ids.Perm registry) => ?_
  refine (awaitAll_follows ids hw fun id hid => hperm.mem_iff.mpr (hlive hid)).bind
    (fun w' _ ⟨hw', _, hnone⟩ => ?_) (by simp)
  refine follows_query_bind ⟨hw', fun _ => hnone⟩ fun reclaimed _ => ?_
  cases reclaimed with
  | false => exact follows_pure (Or.inr ⟨hnone, Or.inl rfl⟩)
  | true =>
    have hreclaimed : (watch.next w' .tryUnwrap true).Going := ⟨hw'.1, rfl, hw'.2.2⟩
    refine ⟨⟨hreclaimed, fun h => by cases h⟩, fun answer _ => ?_⟩
    cases answer with
    | error e => exact Or.inr ⟨hnone, Or.inl rfl⟩
    | ok => exact Or.inr ⟨hnone, Or.inr ⟨rfl, rfl⟩⟩

/-- **The daemon keeps to it**: cut off, or at its end with no run left. -/
theorem runRpcDaemon_follows (lines : List (List UInt8)) : (runRpcDaemon D lines).Follows watch (watched lines) .start := by
  have hstart : Watch.start.Going := ⟨rfl, rfl, rfl⟩
  have hloop : (readLoop D lines [] >>= shutdown).Follows watch (watched lines) .start := by
    refine (readLoop_follows lines hstart (List.Subset.refl [])).bind (fun w registry h => ?_) fun w e h => ?_
    · obtain ⟨-, -, e, he⟩ | ⟨hw, registry', hregistry, hlive⟩ := h
      · cases he
      · cases hregistry
        exact shutdown_follows lines hw hlive
    · obtain ⟨hcut, hline, -⟩ | ⟨-, registry', hregistry, -⟩ := h
      · exact Or.inl ⟨hcut, hline⟩
      · cases hregistry
  unfold runRpcDaemon printBearer
  split_ifs
  · exact follows_query_bind (Op.IsQuiet.may hstart trivial) fun _ _ => hloop
  · exact hloop

end Loop

/-! ### The system keeps to it -/

variable {D : Setup}

/-- What is watched agrees with what there is. -/
structure WatchesOver (w : Watch) (s : Shared) : Prop where
  live : ∀ id run, s.runs id = some run → run.isFinished = false → id ∈ w.live
  spawned : ∀ id run, s.runs id = some run → id ∈ s.spawned
  token : s.token = !w.removed

theorem Run.isFinished_setHandle (run : Run) (handle : Handle) : (run.setHandle handle).isFinished = run.isFinished := by
  cases handle <;> rfl

theorem WatchesOver.performs {w : Watch} {s s' : Shared} {op : Op} {answer : op.Answer} (h : WatchesOver w s)
    (hmay : watch.may w op) (hperforms : Performs D s op answer s') : WatchesOver (watch.next w op answer) s' := by
  -- A run that is over is watched no more.
  have hforget {runId : String} (hover : (s.runs runId).any Run.isFinished = true) : WatchesOver (w.forget runId) s := by
    refine ⟨fun id run hrun hfinished => List.mem_filter.mpr ⟨h.live id run hrun hfinished, ?_⟩, h.spawned, h.token⟩
    refine decide_eq_true fun hid => ?_
    rw [← hid, hrun, Option.any_some, hfinished] at hover
    cases hover
  have hspawned := listed_performs h.spawned hperforms
  cases hperforms with
  | spawn call =>
    refine ⟨fun id run hrun hfinished => ?_, hspawned, h.token⟩
    rw [Shared.runs_spawn] at hrun
    split_ifs at hrun with hid
    · exact hid ▸ List.mem_cons_self
    · exact List.mem_cons_of_mem _ (h.live id run hrun hfinished)
  | isFinished runId =>
    cases hover : (s.runs runId).any Run.isFinished with
    | false => exact h
    | true => exact hforget hover
  | join hover => exact hforget hover
  | setHandle handle runId =>
    refine ⟨fun id run' hrun hfinished => ?_, hspawned, (s.token_modifyRun _ _).trans h.token⟩
    rw [Shared.runs_modifyRun] at hrun
    split_ifs at hrun with hid
    · obtain ⟨run, hlookup, rfl⟩ := Option.map_eq_some_iff.mp hrun
      exact h.live id run hlookup ((run.isFinished_setHandle handle).symm.trans hfinished)
    · exact h.live id run' hrun hfinished
  | removed => exact ⟨h.live, h.spawned, rfl⟩
  | _ => exact ⟨h.live, h.spawned, h.token⟩

theorem WatchesOver.stepped {w : Watch} {s : Shared} {runId : String} {run run' : Run} {line : Option Line}
    (h : WatchesOver w s) (hrun : s.runs runId = some run) (hstep : run.StepsTo run' line) :
    WatchesOver w (s.stepped runId run' line) := by
  refine ⟨fun id found hfound hfinished => ?_, listed_stepped h.spawned hrun, (s.token_stepped _ _ _).trans h.token⟩
  rw [Shared.runs_stepped] at hfound
  split_ifs at hfound with hid
  · cases hfound
    refine hid ▸ h.live runId run hrun (Bool.eq_false_iff.mpr fun hover => ?_)
    rw [hstep.isFinished hover] at hfinished
    cases hfinished
  · exact h.live id found hfound hfinished

/-- When no run is left to watch, every run is finished. -/
theorem WatchesOver.isFinished {w : Watch} {s : Shared} (h : WatchesOver w s) (hnone : w.live = []) {id : String} {run : Run}
    (hrun : s.runs id = some run) : run.isFinished = true := by
  by_contra hnot
  have hlive := h.live id run hrun (by simpa using hnot)
  rw [hnone] at hlive
  exact List.not_mem_nil hlive

/-- What is watched in every state of an execution. -/
abbrev Watched (stdin : List UInt8) (s : State) : Prop :=
  Keeps watch (watched (stdinLines stdin)) WatchesOver .start s

theorem watched_start (D : Setup) (stdin : List UInt8) : Watched stdin (start D stdin) where
  follows := runRpcDaemon_follows _
  related := ⟨fun _ _ h => (Option.some_ne_none _ h.symm).elim, fun _ _ h => (Option.some_ne_none _ h.symm).elim, rfl⟩

theorem watch_hears {w : Watch} {s s' : Shared} {op : Op} {answer : op.Answer} (h : Performs D s op answer s') :
    watch.hears w op answer := by
  cases h with
  | iterate hperm => exact hperm
  | _ => trivial

theorem watched_step {stdin : List UInt8} {s s' : State} {a : Action} (hs : Watched stdin s)
    (ha : daemonStep D s a = some s') : Watched stdin s' :=
  hs.step (fun _ _ _ _ _ h hmay hperforms _ => h.performs hmay hperforms)
    (fun _ _ _ _ _ _ h hrun hstep => h.stepped hrun hstep) ha fun _ _ _ _ _ hperforms => watch_hears hperforms

theorem watched_of_run {stdin : List UInt8} {as : List Action} {s : State}
    (h : TransitionSystem.run (daemonStep D) (start D stdin) as = some s) : Watched stdin s :=
  run_induction (I := fun _ s => Watched stdin s) (watched_start D stdin) (fun _ _ _ _ _ hs ha => watched_step hs ha) h

/-- When the daemon has returned, the loop was cut off or no run is left. -/
theorem Keeps.watched_of_result {stdin : List UInt8} {s : State} (hs : Watched stdin s) {r : Except RunError Unit}
    (hr : s.result? = some r) : watched (stdinLines stdin) (watch.after .start s.log) r := by
  have hfollows := hs.follows
  rcases hmain : s.main with ⟨⟩ | e | ⟨op, next⟩ <;> rw [State.result?, hmain] at hr <;> cases hr <;>
    rw [hmain] at hfollows <;> exact hfollows

/-! ### The answers -/

/-- The line has nothing on it. -/
def IsBlank (line : List UInt8) : Prop := ∃ text, decode line = some text ∧ (Text.trim text).isEmpty = true

/-- A line and what is done for it. -/
abbrev Turn := List UInt8 × Log

def turnLog (turn : Turn) : Log := ⟨.nextLine turn.1, ()⟩ :: turn.2

/-- A line that is no command gets one error line and nothing else; a blank one is passed over. -/
structure Turn.Answers (D : Setup) (turn : Turn) : Prop where
  blank : IsBlank turn.1 → turn.2 = []
  error : ¬ IsBlank turn.1 → commandOf D turn.1 = none → ∃ message, turn.2 = [⟨.println (.error message), ()⟩]

/-- Every line is read, in order, and answered. -/
def Answered (D : Setup) (lines : List (List UInt8)) (log : Log) : Prop :=
  ∃ (before : Log) (turns : List Turn) (after : Log), turns.map Prod.fst = lines ∧ log = before ++ turns.flatMap turnLog ++ after ∧
    ∀ turn ∈ turns, turn.Answers D

theorem handleLine_answers (line : List Char) (registry : Registry)
    (h : ∀ value command, D.parse line = .ok value → readCommand value ≠ .ok command) :
    (handleLine D line registry).Ensures fun es _ => ∃ message, es = [⟨.println (.error message), ()⟩] := by
  have hprint (message : String) : (println (.error message) >>= fun _ => pure registry).Ensures
      fun es _ => ∃ message, es = [⟨.println (.error message), ()⟩] := by
    refine Ensures.bind (ensures_query fun _ => rfl) fun es _ (hes : es = [⟨.println (.error message), ()⟩]) => ?_
    exact ensures_pure ⟨message, by rw [hes]; rfl⟩
  unfold handleLine
  split
  · exact hprint _
  · next value hvalue =>
    rcases hcommand : readCommand value with e | command
    · rw [handleRpcCommand, hcommand]
      exact hprint _
    · exact absurd hcommand (h value command hvalue)

/-- Line by line: each is a turn. -/
theorem readLoop_answers (honce : D.once = false) (lines : List (List UInt8)) (registry : Registry) :
    (readLoop D lines registry).Ensures fun es _ => ∃ turns : List Turn, turns.map Prod.fst = lines ∧
      es = turns.flatMap turnLog ∧ ∀ turn ∈ turns, turn.Answers D := by
  induction lines generalizing registry with
  | nil => exact ensures_pure ⟨[], rfl, rfl, by simp⟩
  | cons line lines ih =>
    -- The turn of this line, and those of the others.
    have hturn {said : Log} (hsaid : Turn.Answers D (line, said)) (registry : Registry) :
        (readLoop D lines registry).Ensures fun es _ => ∃ turns : List Turn, turns.map Prod.fst = line :: lines ∧
          turnLog (line, said) ++ es = turns.flatMap turnLog ∧ ∀ turn ∈ turns, turn.Answers D :=
      (ih registry).mono fun es _ ⟨turns, hlines, hes, hall⟩ =>
        ⟨(line, said) :: turns, by simp [hlines], by simp [hes], List.forall_mem_cons.mpr ⟨hsaid, hall⟩⟩
    refine Ensures.bind (ensures_query fun _ => rfl) fun es₁ _ (h₁ : es₁ = [⟨.nextLine line, ()⟩]) => ?_
    subst h₁
    rcases hdecode : decode line with _ | text
    · exact ensures_fail
    · by_cases hblank : (Text.trim text).isEmpty = true
      · simp only [hblank, if_true]
        exact hturn ⟨fun _ => rfl, fun h => absurd ⟨text, hdecode, hblank⟩ h⟩ registry
      · simp only [hblank, if_false, Bool.false_eq_true, honce]
        have hnot : ¬ IsBlank line := by
          rintro ⟨text', hdecode', hblank'⟩
          rw [hdecode] at hdecode'
          cases hdecode'
          exact hblank hblank'
        have hanswers : (handleLine D (Text.trim text) registry).Ensures fun es _ => Turn.Answers D (line, es) := by
          by_cases hcommand : commandOf D line = none
          · refine (handleLine_answers _ registry fun value command hparse hread => ?_).mono fun es _ hes =>
              ⟨fun h => absurd h hnot, fun _ _ => hes⟩
            simp [commandOf, hdecode, hparse, hread, Except.toOption] at hcommand
          · exact (ensures_true _).mono fun es _ _ => ⟨fun h => absurd h hnot, fun _ h => absurd h hcommand⟩
        refine hanswers.bind fun es₂ registry' h₂ => ?_
        exact hturn h₂ registry'

theorem runRpcDaemon_answered (honce : D.once = false) (lines : List (List UInt8)) :
    (runRpcDaemon D lines).Ensures fun es _ => Answered D lines es := by
  unfold runRpcDaemon
  refine ensures_bind fun before _ => (readLoop_answers honce lines []).bind fun es registry ⟨turns, hlines, hes, hall⟩ => ?_
  refine (ensures_true _).mono fun after _ _ => ⟨before, turns, after, hlines, ?_, hall⟩
  rw [hes, List.append_assoc]

/-! ### The result -/

/-- What the shutdown leaves: every run is finished, the token is gone, and, if the daemon reads on,
every line is answered. -/
structure Drained (D : Setup) (stdin : List UInt8) (s : State) : Prop where
  finished : ∀ id run, s.shared.runs id = some run → run.isFinished = true
  token : s.shared.token = false
  answered : D.once = false → Answered D (stdinLines stdin) s.log

/-- A line that is read is text, no streamer of a run that panicked is left when the bus is
reclaimed, and the file is removed. -/
def Graceful (s : State) : Action → Prop
  | .run _ _ => True
  | .main world =>
    match s.main with
    | .ask (.nextLine line) _ => (decode line).isSome = true
    | .ask .tryUnwrap _ =>
      ∀ id run, s.shared.runs id = some run → run.phase.diff?.isSome = true → run.streamer = .closed
    | .ask .removeToken _ => world .removeToken = .ok ()
    | _ => True

/-- When every run is finished, only the streamer of one that panicked can still hold the bus. -/
theorem busFree_iff {w : Watch} {s : Shared} (hw : WatchesOver w s) (htold : EveryRun (ToldUnder D) s) (hnone : w.live = []) :
    s.busFree = true ↔
      ∀ id run, s.runs id = some run → run.phase.diff?.isSome = true → run.streamer = .closed := by
  simp only [Shared.busFree, List.all_eq_true]
  constructor
  · intro h id run hrun _
    have hover := h id (hw.spawned id run hrun)
    rw [hrun, Option.all_some, Run.isOver, Bool.and_eq_true] at hover
    simpa using hover.2
  · intro h id _
    rcases hrun : s.runs id with _ | run
    · rfl
    · have hover := hw.isFinished hnone hrun
      rw [Option.all_some, Run.isOver, hover, Bool.true_and, beq_iff_eq]
      rw [Run.isFinished] at hover
      split at hover
      · next hphase => exact (htold id run hrun).2.printing (by rw [hphase]; rfl)
      · next hphase => exact h id run hrun (by rw [hphase]; rfl)
      · cases hover

/-- The execution so far, if nothing has gone wrong. -/
structure Graces (D : Setup) (stdin : List UInt8) (s : State) : Prop where
  watched : Watched stdin s
  told : EveryRun (ToldUnder D) s.shared
  leads : Leads (runRpcDaemon D (stdinLines stdin)) s.log s.main
  uncut : (watch.after .start s.log).cut = false
  unkept : (watch.after .start s.log).kept = false

theorem Graces.drained {stdin : List UInt8} {s : State} (h : Graces D stdin s) (hreturned : s.returned = true) :
    Drained D stdin s := by
  obtain ⟨r, hr⟩ := Option.isSome_iff_exists.mp hreturned
  obtain ⟨hcut, -⟩ | ⟨hnone, hkept | ⟨hremoved, rfl⟩⟩ := h.watched.watched_of_result hr
  · rw [h.uncut] at hcut
    cases hcut
  · rw [h.unkept] at hkept
    cases hkept
  have hdone : s.main = .done () := by
    rcases hmain : s.main with ⟨⟩ | e | ⟨op, next⟩
    · rfl
    · rw [State.result?, hmain] at hr
      cases hr
    · rw [State.result?, hmain] at hr
      cases hr
  refine ⟨fun id run hrun => h.watched.related.isFinished hnone hrun, ?_, fun honce => ?_⟩
  · rw [h.watched.related.token, hremoved]
    rfl
  · have hleads := h.leads
    rw [hdone] at hleads
    exact runRpcDaemon_answered honce _ _ _ hleads.runs_done

/-- What the watch makes of an operation of the loop, exactly when it goes wrong. -/
theorem Graces.graceful_iff {stdin : List UInt8} {s : State} (h : Graces D stdin s) {world : (op : Op) → op.Answer} {op : Op}
    {next : op.Answer → DaemonM Unit} {answer : op.Answer} {shared : Shared} (hask : s.main = .ask op next)
    (hperform : s.shared.perform D world op = some (answer, shared)) :
    Graceful s (.main world) ↔ (watch.next (watch.after .start s.log) op answer).cut = false ∧
      (watch.next (watch.after .start s.log) op answer).kept = false := by
  obtain ⟨⟨hfollows, hrelated⟩, htold, -, hcut, hkept⟩ := h
  rw [hask] at hfollows
  rw [Graceful, hask]
  generalize watch.after .start s.log = w at hfollows hrelated hcut hkept ⊢
  cases op with
  | nextLine line => simp [watch, hkept]
  | tryUnwrap =>
    cases hperform
    simp only [← busFree_iff hrelated htold (hfollows.1.2 rfl)]
    simp [watch, hcut]
  | removeToken =>
    simp only [Shared.perform, Option.some.injEq, Prod.mk.injEq] at hperform
    rw [← hperform.1]
    rcases world .removeToken with e | ⟨⟩ <;> simp [watch, hcut, hkept]
  | isFinished runId => cases answer <;> simp [watch, Watch.forget, hcut, hkept]
  | _ => simp [watch, Watch.forget, hcut, hkept]

/-- Only the removal removes, and then nothing goes wrong. -/
theorem Watch.Going.removed {w : Watch} (hw : w.Going) {op : Op} {answer : op.Answer}
    (h : (watch.next w op answer).removed = true) :
    (watch.next w op answer).cut = false ∧ (watch.next w op answer).kept = false := by
  obtain ⟨hcut, hkept, hremoved⟩ := hw
  cases op with
  | removeToken =>
    cases answer with
    | ok => exact ⟨hcut, hkept⟩
    | error e => cases hremoved.symm.trans h
  | isFinished runId => cases answer <;> cases hremoved.symm.trans h
  | _ => cases hremoved.symm.trans h

/-- **The shutdown of the daemon**: in every execution, whatever arrives on stdin and however the
tasks come between, the daemon returns only when its runs are finished, the token removed and the
lines answered, exactly if every step was graceful. -/
theorem drained_iff (D : Setup) (stdin : List UInt8) (as : List Action) :
    Always (daemonStep D) (fun s => s.returned = true → Drained D stdin s) (start D stdin) as ↔
      Meets (daemonStep D) Graceful (start D stdin) as := by
  refine always_iff_meets (fun s (h : Graces D stdin s) => h.drained) ?_ ?_
    ⟨watched_start D stdin, told_start D stdin, .start, rfl, rfl⟩ as
  · intro s a t h hgraceful ha
    suffices hgoing : (watch.after .start t.log).cut = false ∧ (watch.after .start t.log).kept = false from
      ⟨watched_step h.watched ha, told_step h.told ha, leads_step h.leads ha, hgoing.1, hgoing.2⟩
    rcases daemonStep_cases ha with ⟨world, op, next, answer, shared, rfl, hask, hperform, -, rfl⟩ |
      ⟨_, _, _, _, _, -, -, -, -, rfl⟩
    · rw [watch.after_concat]
      exact (h.graceful_iff hask hperform).mp hgraceful
    · exact ⟨h.uncut, h.unkept⟩
  · intro s a t h hgraceful ha hdrained
    have hwatched := watched_step h.watched ha
    rcases daemonStep_cases ha with ⟨world, op, next, answer, shared, rfl, hask, hperform, hperforms, rfl⟩ |
      ⟨_, _, _, _, _, rfl, -, -, -, -⟩
    · rw [h.graceful_iff hask hperform, ← watch.after_concat .start s.log ⟨op, answer⟩] at hgraceful
      have hmay := h.watched.follows
      rw [hask] at hmay
      generalize hstate : (⟨next answer, s.log ++ [⟨op, answer⟩], shared⟩ : State) = t at hwatched hdrained
      -- The loop can do nothing more, and the token is still there.
      have hreturned : t.returned = true := by
        have hfollows := hwatched.follows
        rw [State.returned, State.result?]
        split
        · rfl
        · rfl
        · next hmain =>
          rw [hmain, ← hstate] at hfollows
          exact absurd ⟨hfollows.1.1.1, hfollows.1.1.2.1⟩ hgraceful
      have htoken := (hdrained hreturned).token
      rw [hwatched.related.token, ← hstate, Bool.not_eq_false', watch.after_concat] at htoken
      rw [watch.after_concat] at hgraceful
      exact hgraceful (hmay.1.1.removed htoken)
    · exact hgraceful trivial

/-- A prompt, and a byte that is no text. -/
def sampleCut : List UInt8 := samplePrompt.toUTF8.toList ++ [0xff, 0x0a]

/-- **The daemon leaves its run in the lurch**: it has returned with an error, the run is not finished and the
token is where it was. -/
theorem not_drained_cut : ∃ as s, TransitionSystem.run (daemonStep sampleSetup) (start sampleSetup sampleCut) as = some s ∧
    s.returned = true ∧ (∃ run, s.shared.runs "run" = some run ∧ run.isFinished = false) ∧ s.shared.token = true ∧
    ¬ Drained sampleSetup sampleCut s := by
  have hrun : (TransitionSystem.run (daemonStep sampleSetup) (start sampleSetup sampleCut)
      (List.replicate 6 (.main sampleAnswers))).map (fun s =>
        (s.returned, (s.shared.runs "run").map Run.isFinished, s.shared.token)) = some (true, some false, true) := by
    decide +kernel
  obtain ⟨s, hs, hstate⟩ := Option.map_eq_some_iff.mp hrun
  simp only [Prod.mk.injEq, Option.map_eq_some_iff] at hstate
  obtain ⟨hreturned, hunfinished, htoken⟩ := hstate
  refine ⟨_, s, hs, hreturned, hunfinished, htoken, fun hdrained => ?_⟩
  cases htoken.symm.trans hdrained.token

end Nerve.Daemon
