import Nerve.Queue.Steps

/-!
# No task is lost or duplicated

What the queue is for, seen from above: each task is at one place, and is moved from place
to place. An `Assignment` is that view, and a step of the queue refines a step of it
(`Placed.refines`) with one exception. A rename moves the one file there is, whoever does it and
however late; but `enqueue` writes without looking again whether the task has appeared since it
looked, and without a lock. So no task is lost or duplicated in a run exactly when each
of its writes still finds the task nowhere (`conserved_iff`), and two mayors that enqueue one task
at the same time both succeed (`racing_enqueues_succeed`).
-/

namespace Nerve.Queue

open FileStore TransitionSystem

/-! ### The view from above -/

/-- Where each task is, if it is there. -/
abbrev Assignment := String → Option (Place × PatrolTask)

/-- A task appears, or is moved. -/
inductive Assignment.Step (f : Assignment) : Assignment → Prop
  | stay : Step f f
  | appear {task : PatrolTask} (hnew : f task.taskId = none) :
    Step f (Function.update f task.taskId (some (.pending, task)))
  | move {taskId : String} {src : Place} {task : PatrolTask} (dst : Place) (hsrc : f taskId = some (src, task)) :
    Step f (Function.update f taskId (some (dst, task)))

/-- The queue is as the assignment says: the files are where it has them, and these are the tasks whose
enqueue has succeeded, each of them once. -/
structure Placed (q : Shared) (f : Assignment) : Prop where
  represents : q.files.Represents f
  once : (q.enqueued.map PatrolTask.taskId).Nodup
  placed : ∀ task ∈ q.enqueued, ∃ place, f task.taskId = some (place, task)
  known : ∀ taskId place task, f taskId = some (place, task) → task ∈ q.enqueued ∧ task.taskId = taskId

section Placed

variable {q q' : Shared} {f : Assignment}

theorem Placed.stay (h : Placed q f) (files : q'.files = q.files) (enqueued : q'.enqueued = q.enqueued) :
    Placed q' f := by
  constructor
  · rw [files]
    exact h.represents
  · rw [enqueued]
    exact h.once
  · rw [enqueued]
    exact h.placed
  · rw [enqueued]
    exact h.known

/-- A write of a task that is nowhere makes it appear. -/
theorem Placed.appear (h : Placed q f) {task : PatrolTask} (hnew : f task.taskId = none)
    (files : q'.files = q.files.write .pending task.taskId task) (enqueued : q'.enqueued = q.enqueued ++ [task]) :
    Placed q' (Function.update f task.taskId (some (.pending, task))) := by
  have hne : ∀ other ∈ q.enqueued, other.taskId ≠ task.taskId := by
    intro other hother he
    obtain ⟨place, hplace⟩ := h.placed other hother
    rw [he, hnew] at hplace
    cases hplace
  constructor
  · rw [files]
    exact h.represents.write hnew .pending task
  · rw [enqueued, List.map_append, List.map_singleton, List.nodup_append]
    refine ⟨h.once, List.nodup_singleton _, ?_⟩
    rintro id hid id' hid' rfl
    obtain ⟨other, hother, rfl⟩ := List.mem_map.mp hid
    exact hne other hother (List.mem_singleton.mp hid')
  · intro other hother
    rw [enqueued] at hother
    rcases List.mem_append.mp hother with hother | hother
    · rw [Function.update_of_ne (hne other hother)]
      exact h.placed other hother
    · rw [List.mem_singleton.mp hother, Function.update_self]
      exact ⟨.pending, rfl⟩
  · intro id place stored hstored
    rw [enqueued]
    by_cases hid : id = task.taskId
    · rw [hid, Function.update_self] at hstored
      cases hstored
      exact ⟨List.mem_append_right _ (List.mem_singleton.mpr rfl), hid.symm⟩
    · rw [Function.update_of_ne hid] at hstored
      obtain ⟨hmem, he⟩ := h.known id place stored hstored
      exact ⟨List.mem_append_left _ hmem, he⟩

/-- A rename moves the task whose file it is. -/
theorem Placed.move (h : Placed q f) {src dst : Place} {taskId : String}
    (files : q.files.rename src dst taskId = some q'.files) (enqueued : q'.enqueued = q.enqueued) :
    ∃ task, f taskId = some (src, task) ∧ Placed q' (Function.update f taskId (some (dst, task))) := by
  obtain ⟨task, hsrc, hrepresents⟩ := h.represents.rename files
  refine ⟨task, hsrc, hrepresents, by rw [enqueued]; exact h.once, ?_, ?_⟩
  · intro other hother
    rw [enqueued] at hother
    obtain ⟨place, hplace⟩ := h.placed other hother
    by_cases hid : other.taskId = taskId
    · rw [hid, hsrc] at hplace
      cases hplace
      exact ⟨dst, by rw [hid, Function.update_self]⟩
    · exact ⟨place, by rw [Function.update_of_ne hid, hplace]⟩
  · intro id place stored hstored
    rw [enqueued]
    by_cases hid : id = taskId
    · rw [hid, Function.update_self] at hstored
      cases hstored
      rw [hid]
      exact h.known taskId src task hsrc
    · rw [Function.update_of_ne hid] at hstored
      exact h.known id place stored hstored

theorem placed_initial : Placed State.initial.queue fun _ => none :=
  ⟨represents_empty, List.nodup_nil, nofun, nofun⟩

end Placed

/-! ### Steps of the queue -/

/-- If the action is the write of an `enqueue`, the task is in none of the places. -/
def WritesFresh (s : State) (action : Action) : Prop :=
  ∀ pid choice task, action = .go pid choice → s.procs pid = .enqueue task .write →
    ∀ place, s.queue.exists? place task.taskId = false

theorem Placed.eq_none_of_fresh {s : State} {f : Assignment} {pid : Pid} {choice : Choice} {task : PatrolTask}
    (h : Placed s.queue f) (hfresh : WritesFresh s (.go pid choice)) (hproc : s.procs pid = .enqueue task .write) :
    f task.taskId = none := by
  refine h.represents.eq_none fun place => ?_
  have hplace := hfresh pid choice task rfl hproc place
  rwa [Shared.exists?, Option.isSome_eq_false_iff, Option.isNone_iff_eq_none] at hplace

/-- **A step of the queue refines a step of the assignment**, if it writes no task that is there. -/
theorem Placed.refines {cfg : MayorPatrolConfig} {s s' : State} {f : Assignment} {action : Action}
    (h : Placed s.queue f) (hfresh : WritesFresh s action) (hstep : step cfg s action = some s') :
    ∃ f', f.Step f' ∧ Placed s'.queue f' := by
  rcases step_acts hstep with hrest | ⟨pid, choice, P', haction, -, hacts⟩
  · exact ⟨f, .stay, h.stay hrest.files hrest.enqueued⟩
  cases hacts with
  | quiet files enqueued _ _ => exact ⟨f, .stay, h.stay files enqueued⟩
  | suspects queue _ _ _ => exact ⟨f, .stay, h.stay (by rw [queue]) (by rw [queue])⟩
  | @enqueues task before _ files enqueued =>
    have hnew := h.eq_none_of_fresh (haction ▸ hfresh) before
    exact ⟨_, .appear hnew, h.appear hnew files enqueued⟩
  | claims _ _ files enqueued =>
    obtain ⟨task, hsrc, hplaced⟩ := h.move files enqueued
    exact ⟨_, .move _ hsrc, hplaced⟩
  | finishes _ _ _ files enqueued =>
    obtain ⟨task, hsrc, hplaced⟩ := h.move files enqueued
    exact ⟨_, .move _ hsrc, hplaced⟩
  | reclaims _ _ _ files enqueued =>
    obtain ⟨task, hsrc, hplaced⟩ := h.move files enqueued
    exact ⟨_, .move _ hsrc, hplaced⟩

/-- The write of an `enqueue` succeeds, whether the task is there or not. -/
theorem step_write {cfg : MayorPatrolConfig} {s s' : State} {pid : Pid} {choice : Choice} {task : PatrolTask}
    (hproc : s.procs pid = .enqueue task .write) (hstep : step cfg s (.go pid choice) = some s') :
    s'.queue.enqueued = s.queue.enqueued ++ [task] := by
  obtain ⟨next, hadvance, rfl⟩ := Option.map_eq_some_iff.mp hstep
  rw [hproc] at hadvance
  cases choice <;> cases hadvance
  rfl

/-! ### The result -/

/-- Each task whose enqueue succeeded is in exactly one place, as it was enqueued, and no two
have one identifier. -/
structure Conserved (s : State) : Prop where
  once : (s.queue.enqueued.map PatrolTask.taskId).Nodup
  placed : ∀ task ∈ s.queue.enqueued, ∃! place, s.queue.exists? place task.taskId = true
  kept : ∀ task ∈ s.queue.enqueued, ∀ place stored,
    s.queue.files.read place task.taskId = some stored → stored = task

theorem Placed.conserved {s : State} {f : Assignment} (h : Placed s.queue f) : Conserved s := by
  refine ⟨h.once, fun task htask => ?_, fun task htask place stored hstored => ?_⟩
  · obtain ⟨place, hplace⟩ := h.placed task htask
    exact h.represents.existsUnique hplace
  · obtain ⟨place', hplace⟩ := h.placed task htask
    rw [h.represents, hplace] at hstored
    cases hstored
    rfl

/-- A write of a task that is there makes two of it. -/
theorem Placed.not_conserved {cfg : MayorPatrolConfig} {s s' : State} {f : Assignment} {action : Action}
    (h : Placed s.queue f) (hfresh : ¬ WritesFresh s action) (hstep : step cfg s action = some s') : ¬ Conserved s' := by
  intro hconserved
  refine hfresh fun pid choice task haction hproc place => ?_
  subst haction
  have henqueued := step_write hproc hstep
  by_contra hthere
  rw [Bool.not_eq_false, Shared.exists?, Option.isSome_iff_exists] at hthere
  obtain ⟨stored, hstored⟩ := hthere
  obtain ⟨hmem, hid⟩ := h.known _ _ _ ((h.represents _ _ _).mp hstored)
  have honce := hconserved.once
  rw [henqueued, List.map_append, List.nodup_append] at honce
  exact honce.2.2 stored.taskId (List.mem_map_of_mem hmem) task.taskId (List.mem_singleton.mpr rfl) hid

/-- There is an assignment that the queue is as. -/
def Consistent (s : State) : Prop := ∃ f, Placed s.queue f

theorem consistent_initial : Consistent State.initial := ⟨_, placed_initial⟩

theorem Consistent.step {cfg : MayorPatrolConfig} (s : State) (action : Action) (s' : State) (h : Consistent s)
    (hfresh : WritesFresh s action) (hstep : step cfg s action = some s') : Consistent s' := by
  obtain ⟨f, h⟩ := h
  obtain ⟨f', -, h'⟩ := h.refines hfresh hstep
  exact ⟨f', h'⟩

/-- **No loss and no duplication**, in every state of a run, exactly when every write of the run finds
its task nowhere. -/
theorem conserved_iff (cfg : MayorPatrolConfig) (actions : List Action) :
    Always (step cfg) Conserved State.initial actions ↔ Meets (step cfg) WritesFresh State.initial actions := by
  have hconserved (s : State) (h : Consistent s) : Conserved s := by
    obtain ⟨f, h⟩ := h
    exact h.conserved
  have hbreak (s : State) (action : Action) (s' : State) (h : Consistent s) (hfresh : ¬ WritesFresh s action)
      (hstep : step cfg s action = some s') : ¬ Conserved s' := by
    obtain ⟨f, h⟩ := h
    exact h.not_conserved hfresh hstep
  exact always_iff_meets hconserved Consistent.step hbreak consistent_initial actions

/-! ### Two mayors -/

def sampleConfig : MayorPatrolConfig := ⟨600, true⟩

def sampleTask (prompt : String) : PatrolTask := ⟨"task", prompt, 1000, [], none⟩

/-- What an `enqueue` does up to its write, in a queue without patrols. -/
def lookEverywhere (pid : Pid) : List Action :=
  [.go pid .proceed, .go pid .proceed, .go pid .proceed, .go pid .proceed, .go pid (.listing []), .go pid .proceed]

/-- Two mayors look for one task, and then both write it. -/
def racingEnqueues : List Action :=
  [.start 0 (.enqueue none (sampleTask "first")), .start 1 (.enqueue none (sampleTask "second"))] ++
    lookEverywhere 0 ++ lookEverywhere 1 ++ [.go 0 .proceed, .go 1 .proceed]

/-- Both succeed, and the first task is lost. -/
theorem racing_enqueues_succeed : ¬ ∀ (cfg : MayorPatrolConfig) (actions : List Action) (s : State),
    run (step cfg) State.initial actions = some s → Conserved s := by
  intro h
  have henqueued : (run (step sampleConfig) State.initial racingEnqueues).map (fun s => s.queue.enqueued) =
      some [sampleTask "first", sampleTask "second"] := by decide
  obtain ⟨s, hrun, hs⟩ := Option.map_eq_some_iff.mp henqueued
  have honce := (h sampleConfig racingEnqueues s hrun).once
  rw [hs] at honce
  exact absurd honce (by decide)

end Nerve.Queue
