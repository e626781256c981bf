import Nerve.Queue.Model

/-!
# What a step can do

Of all the steps of the queue's operations few do anything to the task files: one writes a new
file, three rename one. `Acts` says which, together with what becomes of the two things a
process can be in the middle of that matter to others: it holds a claim, from the
rename that takes it to the end of its dispatch (`Proc.holds`), or it has found a heartbeat
stale and is moving that patrol's claims (`Proc.sweeps`). Every step of the system acts in one of these
ways (`step_acts`), and what is proved of the queue is proved from that.
-/

namespace Nerve.Queue

/-- The claim the process holds: as which patrol, and the task. -/
def Proc.holds : Proc → Option (String × String)
  | .claim patrolId (.read candidate) => some (patrolId, candidate)
  | .claim patrolId (.ledger task) => some (patrolId, task.taskId)
  | .claim patrolId (.unlock (.ok task)) => some (patrolId, task.taskId)
  | .run patrolId task .dispatch => some (patrolId, task.taskId)
  | _ => none

/-- The patrol whose claims the process is moving back. -/
def Proc.sweeps : Proc → Option String
  | .sweep _ _ patrolId .list _ => some patrolId
  | .sweep _ _ patrolId (.rename _) _ => some patrolId
  | .sweep _ _ patrolId (.ledger _ _) _ => some patrolId
  | _ => none

/-- What a process does in one step, from `P` to `P'`, to the shared `q`. -/
inductive Acts (cfg : MayorPatrolConfig) (q : Shared) (P P' : Proc) (q' : Shared) : Prop
  /-- Nothing to the task files. -/
  | quiet (files : q'.files = q.files) (enqueued : q'.enqueued = q.enqueued)
      (holds : P'.holds = none ∨ P'.holds = P.holds) (sweeps : P'.sweeps = none ∨ P'.sweeps = P.sweeps)
  /-- It reads a heartbeat and finds it stale. -/
  | suspects {now recovered : Nat} {patrolId : String} {later : List String} (queue : q' = q)
      (before : P = .sweep now recovered patrolId .heartbeat later)
      (stale : alive cfg now (q.heartbeats patrolId) = false)
      (after : P' = .sweep now recovered patrolId .list later)
  /-- It writes a new task. -/
  | enqueues {task : PatrolTask} (before : P = .enqueue task .write) (after : P' = .enqueue task .ledger)
      (files : q'.files = q.files.write .pending task.taskId task) (enqueued : q'.enqueued = q.enqueued ++ [task])
  /-- It takes a task. -/
  | claims {patrolId taskId : String} (before : P = .claim patrolId (.rename taskId))
      (after : P' = .claim patrolId (.read taskId))
      (files : q.files.rename .pending (.claimed patrolId) taskId = some q'.files) (enqueued : q'.enqueued = q.enqueued)
  /-- It files a task away that it has run. -/
  | finishes {patrolId taskId : String} {verdict : PatrolVerdict} (before : P.holds = none) (after : P'.holds = none)
      (sweeps : P'.sweeps = none)
      (files : q.files.rename (.claimed patrolId) (destination verdict) taskId = some q'.files)
      (enqueued : q'.enqueued = q.enqueued)
  /-- It moves a patrol's claim back. -/
  | reclaims {patrolId taskId : String} (before : P.sweeps = some patrolId) (holds : P'.holds = none)
      (after : P'.sweeps = some patrolId)
      (files : q.files.rename (.claimed patrolId) .pending taskId = some q'.files) (enqueued : q'.enqueued = q.enqueued)

namespace Shared

variable (q : Shared)

@[simp] theorem record_files (cfg : MayorPatrolConfig) (succeeds : Bool) (f : Ledger → Ledger) :
    (q.record cfg succeeds f).files = q.files := by
  unfold record
  split_ifs <;> rfl

@[simp] theorem record_enqueued (cfg : MayorPatrolConfig) (succeeds : Bool) (f : Ledger → Ledger) :
    (q.record cfg succeeds f).enqueued = q.enqueued := by
  unfold record
  split_ifs <;> rfl

@[simp] theorem removeDir_files (patrolId : String) : (q.removeDir patrolId).files = q.files := by
  unfold removeDir
  split_ifs <;> rfl

@[simp] theorem removeDir_enqueued (patrolId : String) : (q.removeDir patrolId).enqueued = q.enqueued := by
  unfold removeDir
  split_ifs <;> rfl

variable {q}

theorem renameTask_eq_some {src dst : Place} {taskId : String} {q' : Shared}
    (h : q.renameTask src dst taskId = some q') :
    q.files.rename src dst taskId = some q'.files ∧ q'.enqueued = q.enqueued := by
  have hmap (h : (q.files.rename src dst taskId).map (fun files => { q with files := files }) = some q') :
      q.files.rename src dst taskId = some q'.files ∧ q'.enqueued = q.enqueued := by
    obtain ⟨files, hfiles, rfl⟩ := Option.map_eq_some_iff.mp h
    exact ⟨hfiles, rfl⟩
  unfold renameTask at h
  split at h
  · split_ifs at h
    exact hmap h
  · exact hmap h

end Shared

section Steps

variable {cfg : MayorPatrolConfig} {q q' : Shared} {P' : Proc} {choice : Choice}

/-- A step that leaves the task files alone, and is neither in a claim nor in a sweep after it. -/
theorem Acts.of_rest {P : Proc} (files : q'.files = q.files) (enqueued : q'.enqueued = q.enqueued)
    (holds : P'.holds = none) (sweeps : P'.sweeps = none) : Acts cfg q P P' q' :=
  .quiet files enqueued (Or.inl holds) (Or.inl sweeps)

theorem lookFor_rest (task : PatrolTask) (found : Bool) (next : EnqueuePhase) :
    (lookFor task found next).holds = none ∧ (lookFor task found next).sweeps = none := by
  unfold lookFor
  split_ifs <;> exact ⟨rfl, rfl⟩

theorem sweepNext_rest (now recovered : Nat) (patrols : List String) :
    (sweepNext now recovered patrols).holds = none ∧ (sweepNext now recovered patrols).sweeps = none := by
  cases patrols <;> exact ⟨rfl, rfl⟩

theorem advanceEnqueue_acts {task : PatrolTask} {phase : EnqueuePhase}
    (h : advanceEnqueue cfg task q phase choice = some (P', q')) : Acts cfg q (.enqueue task phase) P' q' := by
  cases phase with
  | lookPending | lookDone | lookFailed | lookResult =>
    cases choice <;> cases h
    exact .of_rest rfl rfl (lookFor_rest _ _ _).1 (lookFor_rest _ _ _).2
  | listClaimed =>
    cases choice with
    | listing patrols =>
      rw [advanceEnqueue] at h
      split_ifs at h
      cases h
      exact .of_rest rfl rfl rfl rfl
    | _ => cases h
  | lookClaimed patrols =>
    cases patrols with
    | nil =>
      cases choice <;> cases h
      exact .of_rest rfl rfl rfl rfl
    | cons patrolId patrols =>
      cases choice <;> cases h
      exact .of_rest rfl rfl (lookFor_rest _ _ _).1 (lookFor_rest _ _ _).2
  | write =>
    cases choice <;> cases h
    exact .enqueues rfl rfl rfl rfl
  | ledger =>
    cases choice <;> cases h <;>
      exact .of_rest (q.record_files _ _ _) (q.record_enqueued _ _ _) rfl rfl

/-- The file that was moved is the task's own. -/
theorem readClaimed_taskId {candidate : String} {read : Option PatrolTask} {task : PatrolTask}
    (h : readClaimed candidate read = .ok task) : task.taskId = candidate := by
  unfold readClaimed at h
  split at h
  · cases h
  · split at h
    · cases h
    · split_ifs at h with hid
      cases h
      exact not_not.mp hid

theorem advanceClaim_acts {pid : Pid} {patrolId : String} {phase : ClaimPhase}
    (h : advanceClaim cfg pid patrolId q phase choice = some (P', q')) : Acts cfg q (.claim patrolId phase) P' q' := by
  cases phase with
  | heartbeat | makeDir _ =>
    cases choice <;> cases h
    exact .of_rest rfl rfl rfl rfl
  | lock =>
    cases choice <;> cases hlock : q.mayorLock <;> simp only [advanceClaim, hlock, reduceCtorEq] at h
    all_goals
      cases h
      exact .of_rest rfl rfl rfl rfl
  | scan =>
    cases choice <;> cases hfirst : firstPending q <;> simp only [advanceClaim, hfirst, reduceCtorEq] at h
    all_goals
      cases h
      exact .of_rest rfl rfl rfl rfl
  | rename candidate =>
    cases choice <;> cases hrename : q.renameTask .pending (.claimed patrolId) candidate <;>
      simp only [advanceClaim, hrename, reduceCtorEq] at h
    · cases h
      exact .of_rest rfl rfl rfl rfl
    · cases h
      obtain ⟨hfiles, henqueued⟩ := Shared.renameTask_eq_some hrename
      exact .claims rfl rfl hfiles henqueued
  | read candidate =>
    cases choice <;> cases hread : readClaimed candidate (q.files.read (.claimed patrolId) candidate) <;>
      simp only [advanceClaim, hread, reduceCtorEq] at h
    · cases h
      exact .of_rest rfl rfl rfl rfl
    · cases h
      refine .quiet rfl rfl (Or.inr ?_) (Or.inl rfl)
      simp only [Proc.holds, readClaimed_taskId hread]
  | ledger task =>
    cases choice <;> cases h <;>
      exact .quiet (q.record_files _ _ _) (q.record_enqueued _ _ _) (Or.inr rfl) (Or.inl rfl)
  | unlock claimed =>
    cases choice <;> cases claimed <;> cases h
    · exact .of_rest rfl rfl rfl rfl
    · exact .quiet rfl rfl (Or.inr rfl) (Or.inl rfl)

theorem advanceRun_acts {patrolId : String} {task : PatrolTask} {phase : RunPhase}
    (h : advanceRun cfg patrolId task q phase choice = some (P', q')) : Acts cfg q (.run patrolId task phase) P' q' := by
  cases phase with
  | dispatch | result _ | heartbeat _ =>
    cases choice <;> cases h
    exact .of_rest rfl rfl rfl rfl
  | ledger result =>
    cases choice <;> cases h <;>
      exact .of_rest (q.record_files _ _ _) (q.record_enqueued _ _ _) rfl rfl
  | rename result =>
    cases choice <;> cases h
    cases hrename : q.renameTask (.claimed patrolId) (destination result.verdict) task.taskId with
    | none => exact .of_rest rfl rfl rfl rfl
    | some q' =>
      obtain ⟨hfiles, henqueued⟩ := Shared.renameTask_eq_some hrename
      exact .finishes rfl rfl rfl hfiles henqueued
  | removeDir result =>
    cases choice <;> cases h
    exact .of_rest (q.removeDir_files patrolId) (q.removeDir_enqueued patrolId) rfl rfl

theorem advanceSweep_acts {now recovered : Nat} {patrolId : String} {later : List String} {phase : SweepPhase}
    (h : advanceSweep cfg now recovered patrolId later q phase choice = some (P', q')) :
    Acts cfg q (.sweep now recovered patrolId phase later) P' q' := by
  cases phase with
  | heartbeat =>
    cases choice <;> cases halive : alive cfg now (q.heartbeats patrolId) <;>
      simp only [advanceSweep, halive, reduceCtorEq, if_true, Bool.false_eq_true, if_false] at h
    · cases h
      exact .suspects rfl rfl halive rfl
    · cases h
      exact .of_rest rfl rfl (sweepNext_rest _ _ _).1 (sweepNext_rest _ _ _).2
  | list =>
    cases choice with
    | proceed =>
      rw [advanceSweep] at h
      split_ifs at h
      cases h
      exact .of_rest rfl rfl rfl rfl
    | listing tasks =>
      rw [advanceSweep] at h
      split_ifs at h
      cases h
      exact .quiet rfl rfl (Or.inl rfl) (Or.inr rfl)
    | fail | outcome _ => cases h
  | rename tasks =>
    cases tasks with
    | nil =>
      cases choice <;> cases h
      exact .of_rest rfl rfl rfl rfl
    | cons taskId tasks =>
      cases choice <;> cases hrename : q.renameTask (.claimed patrolId) .pending taskId <;>
        simp only [advanceSweep, hrename, reduceCtorEq] at h
      · cases h
        exact .of_rest rfl rfl rfl rfl
      · cases h
        obtain ⟨hfiles, henqueued⟩ := Shared.renameTask_eq_some hrename
        exact .reclaims rfl rfl rfl hfiles henqueued
  | ledger taskId tasks =>
    cases choice <;> cases h <;>
      exact .quiet (q.record_files _ _ _) (q.record_enqueued _ _ _) (Or.inl rfl) (Or.inr rfl)
  | removeDir =>
    cases choice <;> cases h
    exact .of_rest (q.removeDir_files patrolId) (q.removeDir_enqueued patrolId) (sweepNext_rest _ _ _).1
      (sweepNext_rest _ _ _).2

theorem advance_acts {pid : Pid} {P : Proc} (h : advance cfg pid q P choice = some (P', q')) : Acts cfg q P P' q' := by
  cases P with
  | idle last => cases h
  | enqueue task phase => exact advanceEnqueue_acts h
  | claim patrolId phase => exact advanceClaim_acts h
  | run patrolId task phase => exact advanceRun_acts h
  | beat patrolId =>
    cases choice <;> cases h
    exact .of_rest rfl rfl rfl rfl
  | sweepStart =>
    cases choice <;> cases h
    exact .of_rest rfl rfl rfl rfl
  | sweepList now =>
    cases choice with
    | listing patrols =>
      rw [advance] at h
      split_ifs at h
      cases h
      exact .of_rest rfl rfl (sweepNext_rest _ _ _).1 (sweepNext_rest _ _ _).2
    | _ => cases h
  | sweep now recovered patrolId phase later => exact advanceSweep_acts h

end Steps

/-! ### A step of the system -/

theorem Operation.begin_rest (operation : Operation) : operation.begin.holds = none ∧ operation.begin.sweeps = none := by
  cases operation with
  | enqueue total task =>
    rw [begin]
    split <;> exact ⟨rfl, rfl⟩
  | claim patrolId | heartbeat patrolId =>
    rw [begin]
    split <;> exact ⟨rfl, rfl⟩
  | status => exact ⟨rfl, rfl⟩

/-- Nobody comes to hold a claim, or to move any back. -/
structure Eases (s s' : State) : Prop where
  holds : ∀ pid, (s'.procs pid).holds = none ∨ (s'.procs pid).holds = (s.procs pid).holds
  sweeps : ∀ pid, (s'.procs pid).sweeps = none ∨ (s'.procs pid).sweeps = (s.procs pid).sweeps

/-- Moreover nothing happens to the task files. -/
structure Rests (s s' : State) : Prop extends Eases s s' where
  files : s'.queue.files = s.queue.files
  enqueued : s'.queue.enqueued = s.queue.enqueued

theorem Eases.of_update {s s' : State} {pid : Pid} {P' : Proc} (hprocs : s'.procs = Function.update s.procs pid P')
    (holds : P'.holds = none ∨ P'.holds = (s.procs pid).holds)
    (sweeps : P'.sweeps = none ∨ P'.sweeps = (s.procs pid).sweeps) : Eases s s' := by
  have hcases (pid' : Pid) : pid' = pid ∧ s'.procs pid' = P' ∨ s'.procs pid' = s.procs pid' := by
    rw [hprocs]
    by_cases h : pid' = pid
    · exact Or.inl ⟨h, by rw [h, Function.update_self]⟩
    · exact Or.inr (Function.update_of_ne h _ _)
  refine ⟨fun pid' => ?_, fun pid' => ?_⟩
  · rcases hcases pid' with ⟨rfl, h⟩ | h
    · rwa [h]
    · exact Or.inr (by rw [h])
  · rcases hcases pid' with ⟨rfl, h⟩ | h
    · rwa [h]
    · exact Or.inr (by rw [h])

theorem Rests.of_set {s : State} {pid : Pid} {P' : Proc} {q' : Shared} (files : q'.files = s.queue.files)
    (enqueued : q'.enqueued = s.queue.enqueued) (holds : P'.holds = none) (sweeps : P'.sweeps = none) :
    Rests s (s.set pid (P', q')) :=
  ⟨.of_update rfl (Or.inl holds) (Or.inl sweeps), files, enqueued⟩

/-- **Every step is one of these**: a process acts, or all is at rest. -/
theorem step_acts {cfg : MayorPatrolConfig} {s s' : State} {action : Action} (h : step cfg s action = some s') :
    Rests s s' ∨ ∃ pid choice P', action = .go pid choice ∧ s'.procs = Function.update s.procs pid P' ∧
      Acts cfg s.queue (s.procs pid) P' s'.queue := by
  cases action with
  | tick elapsed =>
    cases h
    exact Or.inl ⟨⟨fun _ => Or.inr rfl, fun _ => Or.inr rfl⟩, rfl, rfl⟩
  | start pid operation =>
    rw [step] at h
    split at h
    · cases h
      exact Or.inl (.of_set rfl rfl operation.begin_rest.1 operation.begin_rest.2)
    · cases h
  | go pid choice =>
    obtain ⟨⟨P', q'⟩, hadvance, rfl⟩ := Option.map_eq_some_iff.mp h
    exact Or.inr ⟨pid, choice, P', rfl, rfl, advance_acts hadvance⟩
  | stop pid =>
    cases h
    exact Or.inl (.of_set rfl rfl rfl rfl)

end Nerve.Queue
