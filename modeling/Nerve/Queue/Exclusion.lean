import Nerve.Queue.Conservation

/-!
# No task is run twice at once

A patrol shows that it is alive by its heartbeat, and a mayor that finds it stale gives the patrol's
claims back. A patrol writes its heartbeat before it claims and after it has run a task, but not
while it runs one. So a dispatch that takes longer than the time to live has its task taken away,
and a second patrol runs it too (`slow_dispatch_runs_twice`).

That it does not happen takes two things of a run (`Orderly`): as long as a patrol holds a claim,
whoever reads its heartbeat finds it fresh, and it takes none while a mayor that found it stale
before is still at its claims. These are enough (`exclusive_of_orderly`). The invariant is where a
held task can be: with the patrol that holds it or filed away, but never where another patrol could
claim it.
-/

namespace Nerve.Queue

open FileStore TransitionSystem

/-- The task whose dispatch is running, and as which patrol. -/
def Proc.executes : Proc → Option (String × String)
  | .run patrolId task .dispatch => some (patrolId, task.taskId)
  | _ => none

theorem Proc.holds_of_executes {P : Proc} {claim : String × String} (h : P.executes = some claim) :
    P.holds = some claim := by
  unfold executes at h
  split at h
  · exact h
  · cases h

/-- A task that is being executed is not in `pending/`, so that nobody has moved it back there; and
nobody else executes it. -/
structure Exclusive (s : State) : Prop where
  kept : ∀ pid patrolId taskId, (s.procs pid).executes = some (patrolId, taskId) →
    s.queue.exists? .pending taskId = false
  alone : ∀ pid pid' patrolId patrolId' taskId, (s.procs pid).executes = some (patrolId, taskId) →
    (s.procs pid').executes = some (patrolId', taskId) → pid = pid'

/-- What the action must respect in the state it happens in. -/
structure Orderly (cfg : MayorPatrolConfig) (s : State) (action : Action) : Prop where
  /-- A write of a task finds it nowhere. -/
  fresh : WritesFresh s action
  /-- A mayor that reads the heartbeat of a patrol that holds a claim finds it fresh. -/
  heard : ∀ pid choice now recovered patrolId later, action = .go pid choice →
    s.procs pid = .sweep now recovered patrolId .heartbeat later →
    ∀ pid' taskId, (s.procs pid').holds = some (patrolId, taskId) → alive cfg now (s.queue.heartbeats patrolId) = true
  /-- A patrol takes no task while a mayor that found its heartbeat stale is moving its claims. -/
  apart : ∀ pid choice patrolId taskId, action = .go pid choice → s.procs pid = .claim patrolId (.rename taskId) →
    ∀ pid', (s.procs pid').sweeps ≠ some patrolId

/-! ### Where a held task is -/

/-- The places a task can be in while it is held by the patrol. -/
def Place.KeptFor (patrolId : String) : Place → Prop
  | .pending => False
  | .claimed owner => owner = patrolId
  | .done | .failed => True

/-- Held tasks are kept for those who hold them, each for one process, and no mayor is at them. -/
structure Guarded (s : State) (f : Assignment) : Prop where
  placed : Placed s.queue f
  located : ∀ pid patrolId taskId, (s.procs pid).holds = some (patrolId, taskId) →
    ∃ place task, f taskId = some (place, task) ∧ place.KeptFor patrolId
  alone : ∀ pid pid' patrolId patrolId' taskId, (s.procs pid).holds = some (patrolId, taskId) →
    (s.procs pid').holds = some (patrolId', taskId) → pid = pid'
  unswept : ∀ pid pid' patrolId taskId, (s.procs pid).holds = some (patrolId, taskId) →
    (s.procs pid').sweeps ≠ some patrolId

section Guarded

variable {s s' : State} {f f' : Assignment}

/-- Who holds a claim after a step that eases things held it before. -/
theorem Eases.held (h : Eases s s') {pid : Pid} {claim : String × String} (hpid : (s'.procs pid).holds = some claim) :
    (s.procs pid).holds = some claim := by
  rcases h.holds pid with hnone | hsame
  · rw [hnone] at hpid
    cases hpid
  · rw [← hsame, hpid]

theorem Eases.swept (h : Eases s s') {pid : Pid} {patrolId : String} (hpid : (s'.procs pid).sweeps = some patrolId) :
    (s.procs pid).sweeps = some patrolId := by
  rcases h.sweeps pid with hnone | hsame
  · rw [hnone] at hpid
    cases hpid
  · rw [← hsame, hpid]

/-- If nobody comes to hold or sweep anything, only where the held tasks are needs a look. -/
theorem Guarded.ease (h : Guarded s f) (heases : Eases s s') (hplaced : Placed s'.queue f')
    (hlocated : ∀ pid patrolId taskId, (s.procs pid).holds = some (patrolId, taskId) →
      ∃ place task, f' taskId = some (place, task) ∧ place.KeptFor patrolId) : Guarded s' f' where
  placed := hplaced
  located pid patrolId taskId hpid := hlocated pid patrolId taskId (heases.held hpid)
  alone pid pid' patrolId patrolId' taskId hpid hpid' :=
    h.alone pid pid' patrolId patrolId' taskId (heases.held hpid) (heases.held hpid')
  unswept pid pid' patrolId taskId hpid hpid' := h.unswept pid pid' patrolId taskId (heases.held hpid) (heases.swept hpid')

/-- A held task stays where it is when another is moved. -/
theorem Guarded.located_of_ne (h : Guarded s f) {taskId : String} (value : Option (Place × PatrolTask))
    (hne : ∀ pid patrolId, (s.procs pid).holds ≠ some (patrolId, taskId)) (pid : Pid) (patrolId held : String)
    (hpid : (s.procs pid).holds = some (patrolId, held)) :
    ∃ place task, Function.update f taskId value held = some (place, task) ∧ place.KeptFor patrolId := by
  have hheld : held ≠ taskId := by
    rintro rfl
    exact hne pid patrolId hpid
  rw [Function.update_of_ne hheld]
  exact h.located pid patrolId held hpid

/-- A task in `pending/` is held by nobody. -/
theorem Guarded.not_held (h : Guarded s f) {taskId : String} {task : PatrolTask}
    (hpending : f taskId = some (.pending, task)) (pid : Pid) (patrolId : String) :
    (s.procs pid).holds ≠ some (patrolId, taskId) := by
  intro hpid
  obtain ⟨place, task', hf, hkept⟩ := h.located pid patrolId taskId hpid
  rw [hpending] at hf
  cases hf
  exact hkept

/-- A claim that a mayor is moving is held by nobody. -/
theorem Guarded.not_held_of_swept (h : Guarded s f) {mayor : Pid} {patrolId taskId : String} {task : PatrolTask}
    (hclaimed : f taskId = some (.claimed patrolId, task)) (hmayor : (s.procs mayor).sweeps = some patrolId)
    (pid : Pid) (holder : String) : (s.procs pid).holds ≠ some (holder, taskId) := by
  intro hpid
  obtain ⟨place, task', hf, hkept⟩ := h.located pid holder taskId hpid
  rw [hclaimed] at hf
  cases hf
  rw [← show patrolId = holder from hkept] at hpid
  exact h.unswept pid mayor patrolId taskId hpid hmayor

theorem destination_keptFor (verdict : PatrolVerdict) (patrolId : String) : (destination verdict).KeptFor patrolId := by
  cases verdict <;> trivial

/-- A mayor finds a heartbeat stale: nobody holds a claim of that patrol. -/
theorem Guarded.suspect (h : Guarded s f) {mayor : Pid} {P' : Proc} {patrolId : String}
    (hprocs : s'.procs = Function.update s.procs mayor P') (hqueue : s'.queue = s.queue) (hholds : P'.holds = none)
    (hsweeps : P'.sweeps = some patrolId) (hidle : ∀ pid taskId, (s.procs pid).holds ≠ some (patrolId, taskId)) :
    Guarded s' f := by
  have hheld {pid : Pid} {claim : String × String} (hpid : (s'.procs pid).holds = some claim) :
      (s.procs pid).holds = some claim := by
    rw [hprocs] at hpid
    by_cases hmayor : pid = mayor
    · rw [hmayor, Function.update_self, hholds] at hpid
      cases hpid
    · rwa [Function.update_of_ne hmayor] at hpid
  refine ⟨hqueue ▸ h.placed, fun pid p id hpid => h.located pid p id (hheld hpid),
    fun pid pid' p p' id hpid hpid' => h.alone pid pid' p p' id (hheld hpid) (hheld hpid'), ?_⟩
  intro pid pid' p id hpid hswept
  rw [hprocs] at hswept
  by_cases hmayor : pid' = mayor
  · rw [hmayor, Function.update_self, hsweeps] at hswept
    cases hswept
    exact hidle pid id (hheld hpid)
  · rw [Function.update_of_ne hmayor] at hswept
    exact h.unswept pid pid' p id (hheld hpid) hswept

/-- A patrol takes a task that nobody held. -/
theorem Guarded.take (h : Guarded s f) {patrol : Pid} {P' : Proc} {patrolId taskId : String} {task : PatrolTask}
    (hprocs : s'.procs = Function.update s.procs patrol P')
    (hplaced : Placed s'.queue (Function.update f taskId (some (.claimed patrolId, task))))
    (hpending : f taskId = some (.pending, task)) (hholds : P'.holds = some (patrolId, taskId))
    (hsweeps : P'.sweeps = none) (hunswept : ∀ pid, (s.procs pid).sweeps ≠ some patrolId) :
    Guarded s' (Function.update f taskId (some (.claimed patrolId, task))) := by
  -- who holds a claim afterwards is the patrol, or held it before
  have hheld {pid : Pid} {p id : String} (hpid : (s'.procs pid).holds = some (p, id)) :
      pid = patrol ∧ p = patrolId ∧ id = taskId ∨ (s.procs pid).holds = some (p, id) ∧ id ≠ taskId := by
    rw [hprocs] at hpid
    by_cases hpatrol : pid = patrol
    · rw [hpatrol, Function.update_self, hholds] at hpid
      cases hpid
      exact Or.inl ⟨hpatrol, rfl, rfl⟩
    · rw [Function.update_of_ne hpatrol] at hpid
      refine Or.inr ⟨hpid, ?_⟩
      rintro rfl
      exact h.not_held hpending pid p hpid
  refine ⟨hplaced, ?_, ?_, ?_⟩
  · intro pid p id hpid
    rcases hheld hpid with ⟨-, rfl, rfl⟩ | ⟨hpid, hne⟩
    · exact ⟨_, task, Function.update_self _ _ _, rfl⟩
    · rw [Function.update_of_ne hne]
      exact h.located pid p id hpid
  · intro pid pid' p p' id hpid hpid'
    rcases hheld hpid with ⟨rfl, -, rfl⟩ | ⟨hpid, hne⟩
    · rcases hheld hpid' with ⟨rfl, -, -⟩ | ⟨-, hne'⟩
      · rfl
      · exact absurd rfl hne'
    · rcases hheld hpid' with ⟨-, -, rfl⟩ | ⟨hpid', -⟩
      · exact absurd rfl hne
      · exact h.alone pid pid' p p' id hpid hpid'
  · intro pid pid' p id hpid hswept
    rw [hprocs] at hswept
    by_cases hpatrol : pid' = patrol
    · rw [hpatrol, Function.update_self, hsweeps] at hswept
      cases hswept
    · rw [Function.update_of_ne hpatrol] at hswept
      rcases hheld hpid with ⟨-, rfl, -⟩ | ⟨hpid, -⟩
      · exact hunswept pid' hswept
      · exact h.unswept pid pid' p id hpid hswept

/-- **An orderly step keeps the guard.** -/
theorem Guarded.step {cfg : MayorPatrolConfig} {action : Action} (h : Guarded s f) (horderly : Orderly cfg s action)
    (hstep : step cfg s action = some s') : ∃ f', Guarded s' f' := by
  rcases step_acts hstep with hrest | ⟨pid, choice, P', haction, hprocs, hacts⟩
  · exact ⟨f, h.ease hrest.toEases (h.placed.stay hrest.files hrest.enqueued) h.located⟩
  cases hacts with
  | quiet files enqueued holds sweeps =>
    exact ⟨f, h.ease (.of_update hprocs holds sweeps) (h.placed.stay files enqueued) h.located⟩
  | @suspects now recovered patrolId later queue before stale after =>
    refine ⟨f, h.suspect hprocs queue (by rw [after]; rfl) (by rw [after]; rfl) fun pid' taskId hpid' => ?_⟩
    have hfresh := horderly.heard pid choice now recovered patrolId later haction before pid' taskId hpid'
    rw [stale] at hfresh
    cases hfresh
  | @enqueues task before after files enqueued =>
    have hnew := h.placed.eq_none_of_fresh (haction ▸ horderly.fresh) before
    have heases : Eases s s' := .of_update hprocs (Or.inl (by rw [after]; rfl)) (Or.inl (by rw [after]; rfl))
    refine ⟨_, h.ease heases (h.placed.appear hnew files enqueued) (h.located_of_ne _ fun pid' patrolId hpid' => ?_)⟩
    obtain ⟨place, task', hf, -⟩ := h.located pid' patrolId task.taskId hpid'
    rw [hnew] at hf
    cases hf
  | @claims patrolId taskId before after files enqueued =>
    obtain ⟨task, hpending, hplaced⟩ := h.placed.move files enqueued
    exact ⟨_, h.take hprocs hplaced hpending (by rw [after]; rfl) (by rw [after]; rfl)
      (horderly.apart pid choice patrolId taskId haction before)⟩
  | @finishes patrolId taskId verdict before after sweeps files enqueued =>
    obtain ⟨task, -, hplaced⟩ := h.placed.move files enqueued
    refine ⟨_, h.ease (.of_update hprocs (Or.inl after) (Or.inl sweeps)) hplaced fun pid' holder held hpid' => ?_⟩
    by_cases hheld : held = taskId
    · rw [hheld, Function.update_self]
      exact ⟨_, task, rfl, destination_keptFor verdict holder⟩
    · rw [Function.update_of_ne hheld]
      exact h.located pid' holder held hpid'
  | @reclaims patrolId taskId before holds after files enqueued =>
    obtain ⟨task, hclaimed, hplaced⟩ := h.placed.move files enqueued
    have heases : Eases s s' := .of_update hprocs (Or.inl holds) (Or.inr (by rw [after, before]))
    exact ⟨_, h.ease heases hplaced (h.located_of_ne _ (h.not_held_of_swept hclaimed before))⟩

theorem Guarded.exclusive (h : Guarded s f) : Exclusive s := by
  refine ⟨fun pid patrolId taskId hpid => ?_, fun pid pid' patrolId patrolId' taskId hpid hpid' => ?_⟩
  · by_contra hpending
    rw [Bool.not_eq_false, Shared.exists?, Option.isSome_iff_exists] at hpending
    obtain ⟨task, htask⟩ := hpending
    exact h.not_held ((h.placed.represents _ _ _).mp htask) pid patrolId (Proc.holds_of_executes hpid)
  · exact h.alone pid pid' patrolId patrolId' taskId (Proc.holds_of_executes hpid) (Proc.holds_of_executes hpid')

theorem guarded_initial : Guarded State.initial fun _ => none :=
  ⟨placed_initial, nofun, nofun, nofun⟩

end Guarded

/-! ### The result -/

/-- **No task is run twice at once**, or moved back while it runs, in any state of a run whose steps are all
orderly. -/
theorem exclusive_of_orderly {cfg : MayorPatrolConfig} {actions : List Action}
    (h : Meets (step cfg) (Orderly cfg) State.initial actions) :
    Always (step cfg) Exclusive State.initial actions := by
  have hkeep (s : State) (action : Action) (s' : State) (hs : ∃ f, Guarded s f) (horderly : Orderly cfg s action)
      (hstep : step cfg s action = some s') : ∃ f, Guarded s' f := by
    obtain ⟨f, hf⟩ := hs
    exact hf.step horderly hstep
  have hguarded := always_of_meets hkeep ⟨_, guarded_initial⟩ h
  refine hguarded.mono fun s hs => ?_
  obtain ⟨f, hf⟩ := hs
  exact hf.exclusive

/-! ### Two runs -/

/-- A mayor enqueues the one task. -/
def enqueueTask (pid : Pid) : List Action :=
  .start pid (.enqueue none (sampleTask "first")) :: lookEverywhere pid ++ [.go pid .proceed, .go pid .proceed]

/-- A patrol claims a task and begins to run it. -/
def claimTask (pid : Pid) (patrolId : String) : List Action :=
  .start pid (.claim patrolId) :: List.replicate 8 (.go pid .proceed)

/-- A mayor looks at the heartbeat of the one patrol. -/
def readHeartbeat (pid : Pid) (patrolId : String) : List Action :=
  [.start pid .status, .go pid .proceed, .go pid (.listing [patrolId]), .go pid .proceed]

section Orderly

variable {cfg : MayorPatrolConfig} {s : State} {pid : Pid} {choice : Choice}

theorem Orderly.of_start {operation : Operation} : Orderly cfg s (.start pid operation) := ⟨nofun, nofun, nofun⟩

/-- A step of a process that is doing `P` is orderly if `P` has what it must respect. -/
theorem Orderly.of_proc {P : Proc} (hproc : s.procs pid = P)
    (fresh : ∀ task, P = .enqueue task .write → ∀ place, s.queue.exists? place task.taskId = false)
    (heard : ∀ now recovered patrolId later, P = .sweep now recovered patrolId .heartbeat later →
      alive cfg now (s.queue.heartbeats patrolId) = true)
    (apart : ∀ patrolId taskId, P = .claim patrolId (.rename taskId) → ∀ pid', (s.procs pid').sweeps ≠ some patrolId) :
    Orderly cfg s (.go pid choice) := by
  refine ⟨?_, ?_, ?_⟩
  · intro pid' choice' task haction hp
    cases haction
    exact fresh task (hproc.symm.trans hp)
  · intro pid' choice' now recovered patrolId later haction hp pid'' taskId _
    cases haction
    exact heard now recovered patrolId later (hproc.symm.trans hp)
  · intro pid' choice' patrolId taskId haction hp
    cases haction
    exact apart patrolId taskId (hproc.symm.trans hp)

/-- Whether there is anything to respect in the next step of the process. -/
def Proc.delicate : Proc → Bool
  | .enqueue _ .write | .claim _ (.rename _) | .sweep _ _ _ .heartbeat _ => true
  | _ => false

theorem Orderly.of_not_delicate (h : (s.procs pid).delicate = false) : Orderly cfg s (.go pid choice) := by
  refine .of_proc rfl ?_ ?_ ?_
  · intro task hp
    rw [hp] at h
    cases h
  · intro now recovered patrolId later hp
    rw [hp] at h
    cases h
  · intro patrolId taskId hp
    rw [hp] at h
    cases h

end Orderly

/-- A mayor looks at the heartbeat while the task runs, and it is fresh. -/
theorem exclusive_of_orderly_heard :
    Always (step sampleConfig) Exclusive State.initial
      (enqueueTask 0 ++ claimTask 1 "one" ++ readHeartbeat 0 "one") := by
  refine exclusive_of_orderly ?_
  -- the mayor looks everywhere, and writes the first task there is
  refine .cons rfl .of_start ?_
  iterate 6 refine .cons rfl (.of_not_delicate rfl) ?_
  refine .cons rfl (.of_proc rfl (fun _ _ _ => rfl) nofun nofun) ?_
  refine .cons rfl (.of_not_delicate rfl) ?_
  -- the patrol comes to the rename, with no mayor at its claims
  refine .cons rfl .of_start ?_
  iterate 4 refine .cons rfl (.of_not_delicate rfl) ?_
  refine .cons rfl (.of_proc rfl nofun nofun fun patrolId taskId _ pid => ?_) ?_
  · rcases pid with _ | _ | pid <;> exact nofun
  iterate 3 refine .cons rfl (.of_not_delicate rfl) ?_
  -- the mayor reads a fresh heartbeat
  refine .cons rfl .of_start ?_
  iterate 2 refine .cons rfl (.of_not_delicate rfl) ?_
  refine .cons rfl (.of_proc rfl nofun ?_ nofun) trivial
  intro now recovered patrolId later hp
  cases hp
  decide

/-- The time to live passes while the task runs, a mayor gives it back, and a second patrol claims it. -/
def slowDispatch : List Action :=
  enqueueTask 0 ++ claimTask 1 "one" ++ [.tick 600000000000] ++ readHeartbeat 0 "one" ++
    [.go 0 (.listing ["task"]), .go 0 .proceed] ++ claimTask 2 "two"

/-- Both patrols execute it. -/
theorem slow_dispatch_runs_twice : ¬ ∀ (cfg : MayorPatrolConfig) (actions : List Action) (s : State),
    run (step cfg) State.initial actions = some s → Exclusive s := by
  intro h
  have hexecuted : (run (step sampleConfig) State.initial slowDispatch).map
      (fun s => ((s.procs 1).executes, (s.procs 2).executes)) =
        some (some ("one", "task"), some ("two", "task")) := by decide
  obtain ⟨s, hrun, hs⟩ := Option.map_eq_some_iff.mp hexecuted
  obtain ⟨hone, htwo⟩ := Prod.mk.inj hs
  have hsame := (h sampleConfig slowDispatch s hrun).alone 1 2 "one" "two" "task" hone htwo
  exact absurd hsame (by decide)

end Nerve.Queue
