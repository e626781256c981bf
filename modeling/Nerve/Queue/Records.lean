import Nerve.Queue.Conservation

/-!
# What a step writes into the records

A task leaves two records, its result and its entry in the ledger, and the place of its file says
the same a third time. A patrol that has run a task writes the result, updates the ledger and moves
the file, one after the other; the ledger is updated by others too. `Deed` says which steps write
what, and where a patrol is between its own writes (`Proc.reported`, `Proc.noted`).
-/

namespace Nerve.Queue

open FileStore TransitionSystem

/-! ### Who writes what -/

/-- What a process has reported: as which patrol, on which task, and the verdict. It is from the
write of the result to the rename. -/
def Proc.reported : Proc → Option (String × String × PatrolVerdict)
  | .run patrolId task (.ledger result) => some (patrolId, task.taskId, result.verdict)
  | .run patrolId task (.rename result) => some (patrolId, task.taskId, result.verdict)
  | _ => none

/-- The same for the ledger: from its update to the rename. -/
def Proc.noted : Proc → Option (String × String × PatrolVerdict)
  | .run patrolId task (.rename result) => some (patrolId, task.taskId, result.verdict)
  | _ => none

/-- The update of the ledger the process is about to make: the task, and the state it puts it in. -/
def Proc.notes : Proc → Option (String × LedgerState)
  | .enqueue task .ledger => some (task.taskId, .pending)
  | .claim _ (.ledger task) => some (task.taskId, .claimed)
  | .run _ task (.ledger result) => some (task.taskId, terminalState result.verdict)
  | .sweep _ _ _ (.ledger taskId _) _ => some (taskId, .pending)
  | _ => none

theorem Proc.reported_of_noted {P : Proc} {report : String × String × PatrolVerdict} (h : P.noted = some report) :
    P.reported = some report := by
  unfold noted at h
  split at h
  · exact h
  · cases h

/-- Nothing is written into the records. -/
structure Unrecorded (q q' : Shared) : Prop where
  results : q'.results = q.results
  ledger : q'.ledger = q.ledger

/-- What a process does in one step to the task files. -/
inductive FileDeed (q : Shared) (P : Proc) (q' : Shared) : Prop
  /-- Nothing. -/
  | rests (files : q'.files = q.files) (enqueued : q'.enqueued = q.enqueued)
  /-- It writes a new task. -/
  | enqueues {task : PatrolTask} (before : P = .enqueue task .write)
      (files : q'.files = q.files.write .pending task.taskId task) (enqueued : q'.enqueued = q.enqueued ++ [task])
  /-- It takes a task. -/
  | claims {patrolId taskId : String} (before : P = .claim patrolId (.rename taskId))
      (files : q.files.rename .pending (.claimed patrolId) taskId = some q'.files) (enqueued : q'.enqueued = q.enqueued)
  /-- It moves a task back. -/
  | reclaims {patrolId taskId : String} (files : q.files.rename (.claimed patrolId) .pending taskId = some q'.files)
      (enqueued : q'.enqueued = q.enqueued)
  /-- It files a task away, whose records it has written. -/
  | finishes {patrolId taskId : String} {verdict : PatrolVerdict} (before : P.noted = some (patrolId, taskId, verdict))
      (files : q.files.rename (.claimed patrolId) (destination verdict) taskId = some q'.files)
      (enqueued : q'.enqueued = q.enqueued)

/-- What it does to the files and to the records: to one of the two at most. -/
inductive Deed (cfg : MayorPatrolConfig) (q : Shared) (P : Proc) (choice : Choice) (P' : Proc) (q' : Shared) : Prop
  | files (deed : FileDeed q P q') (records : Unrecorded q q') (reported : P'.reported = none)
  /-- It writes the result of a task. -/
  | reports {patrolId : String} {task : PatrolTask} {result : PatrolResult}
      (before : P = .run patrolId task (.result result)) (after : P' = .run patrolId task (.ledger result))
      (queue : q' = { q with results := Function.update q.results task.taskId (some result) })
  /-- It updates the ledger. -/
  | notes {taskId : String} {state : LedgerState} (before : P.notes = some (taskId, state))
      (files : q'.files = q.files) (enqueued : q'.enqueued = q.enqueued) (results : q'.results = q.results)
      (ledger : cfg.coordinationEnabled = true → choice = .proceed →
        ∃ entry : LedgerEntry, entry.state = state ∧ q'.ledger = Function.update q.ledger taskId (some entry))
      (reported : P'.reported = none ∨ P'.reported = P.reported)
      (noted : ∀ patrolId taskId' verdict, P'.noted = some (patrolId, taskId', verdict) →
        taskId' = taskId ∧ state = terminalState verdict)

section Deeds

variable {cfg : MayorPatrolConfig} {q q' : Shared} {P P' : Proc} {choice : Choice}

theorem Deed.rests (files : q'.files = q.files) (enqueued : q'.enqueued = q.enqueued) (records : Unrecorded q q')
    (reported : P'.reported = none) : Deed cfg q P choice P' q' :=
  .files (.rests files enqueued) records reported

theorem unrecorded_refl (q : Shared) : Unrecorded q q := ⟨rfl, rfl⟩

theorem removeDir_unrecorded (patrolId : String) : Unrecorded q (q.removeDir patrolId) := by
  unfold Shared.removeDir
  split_ifs <;> exact ⟨rfl, rfl⟩

theorem renameTask_unrecorded {src dst : Place} {taskId : String} (h : q.renameTask src dst taskId = some q') :
    Unrecorded q q' := by
  have hmap (h : (q.files.rename src dst taskId).map (fun files => { q with files := files }) = some q') :
      Unrecorded q q' := by
    obtain ⟨files, -, rfl⟩ := Option.map_eq_some_iff.mp h
    exact ⟨rfl, rfl⟩
  unfold Shared.renameTask at h
  split at h
  · split_ifs at h
    exact hmap h
  · exact hmap h

@[simp] theorem record_results (succeeds : Bool) (g : Ledger → Ledger) :
    (q.record cfg succeeds g).results = q.results := by
  unfold Shared.record
  split_ifs <;> rfl

/-- An update of the ledger that is made changes the one entry. -/
theorem record_change (taskId : String) (g : LedgerEntry → LedgerEntry) (state : LedgerState)
    (hstate : ∀ entry, (g entry).state = state) (henabled : cfg.coordinationEnabled = true) (hchoice : choice = .proceed) :
    ∃ entry : LedgerEntry, entry.state = state ∧
      (q.record cfg (choice == .proceed) fun ledger => ledger.change taskId g).ledger =
        Function.update q.ledger taskId (some entry) := by
  refine ⟨_, hstate ((q.ledger taskId).getD (.pending taskId)), ?_⟩
  rw [Shared.record, henabled, hchoice]
  rfl

theorem lookFor_reported (task : PatrolTask) (found : Bool) (next : EnqueuePhase) :
    (lookFor task found next).reported = none := by
  unfold lookFor
  split_ifs <;> rfl

theorem sweepNext_reported (now recovered : Nat) (patrols : List String) :
    (sweepNext now recovered patrols).reported = none := by
  cases patrols <;> rfl

theorem advanceEnqueue_deed {task : PatrolTask} {phase : EnqueuePhase}
    (h : advanceEnqueue cfg task q phase choice = some (P', q')) : Deed cfg q (.enqueue task phase) choice P' q' := by
  cases phase with
  | lookPending | lookDone | lookFailed | lookResult =>
    cases choice <;> cases h
    exact .rests rfl rfl (unrecorded_refl q) (lookFor_reported _ _ _)
  | listClaimed =>
    cases choice with
    | listing patrols =>
      rw [advanceEnqueue] at h
      split_ifs at h
      cases h
      exact .rests rfl rfl (unrecorded_refl q) rfl
    | _ => cases h
  | lookClaimed patrols =>
    cases patrols with
    | nil =>
      cases choice <;> cases h
      exact .rests rfl rfl (unrecorded_refl q) rfl
    | cons patrolId patrols =>
      cases choice <;> cases h
      exact .rests rfl rfl (unrecorded_refl q) (lookFor_reported _ _ _)
  | write =>
    cases choice <;> cases h
    exact .files (.enqueues rfl rfl rfl) ⟨rfl, rfl⟩ rfl
  | ledger =>
    have h : some (Proc.returned (.ok .enqueued),
        q.record cfg (choice == .proceed) (recordEnqueued q.clock task.taskId task.createdAt)) = some (P', q') := by
      cases choice <;> exact h
    cases h
    exact .notes rfl (q.record_files _ _ _) (q.record_enqueued _ _ _) (record_results _ _)
      (record_change _ _ _ fun _ => rfl) (Or.inl rfl) fun _ _ _ h => by cases h

theorem advanceClaim_deed {pid : Pid} {patrolId : String} {phase : ClaimPhase}
    (h : advanceClaim cfg pid patrolId q phase choice = some (P', q')) :
    Deed cfg q (.claim patrolId phase) choice P' q' := by
  cases phase with
  | heartbeat | makeDir _ =>
    cases choice <;> cases h
    exact .rests rfl rfl ⟨rfl, rfl⟩ rfl
  | lock =>
    cases choice <;> cases hlock : q.mayorLock <;> simp only [advanceClaim, hlock, reduceCtorEq] at h
    all_goals
      cases h
      exact .rests rfl rfl ⟨rfl, rfl⟩ rfl
  | scan =>
    cases choice <;> cases hfirst : firstPending q <;> simp only [advanceClaim, hfirst, reduceCtorEq] at h
    all_goals
      cases h
      exact .rests rfl rfl ⟨rfl, rfl⟩ rfl
  | rename candidate =>
    cases choice <;> cases hrename : q.renameTask .pending (.claimed patrolId) candidate <;>
      simp only [advanceClaim, hrename, reduceCtorEq] at h
    · cases h
      exact .rests rfl rfl ⟨rfl, rfl⟩ rfl
    · cases h
      obtain ⟨hfiles, henqueued⟩ := Shared.renameTask_eq_some hrename
      exact .files (.claims rfl hfiles henqueued) (renameTask_unrecorded hrename) rfl
  | read candidate =>
    cases choice <;> cases hread : readClaimed candidate (q.files.read (.claimed patrolId) candidate) <;>
      simp only [advanceClaim, hread, reduceCtorEq] at h
    all_goals
      cases h
      exact .rests rfl rfl ⟨rfl, rfl⟩ rfl
  | ledger task =>
    have h : some (Proc.claim patrolId (.unlock (.ok task)),
        q.record cfg (choice == .proceed) (recordClaimed q.clock task.taskId patrolId)) = some (P', q') := by
      cases choice <;> exact h
    cases h
    exact .notes rfl (q.record_files _ _ _) (q.record_enqueued _ _ _) (record_results _ _)
      (record_change _ _ _ fun _ => rfl) (Or.inl rfl) fun _ _ _ h => by cases h
  | unlock claimed =>
    cases choice <;> cases claimed <;> cases h
    all_goals exact .rests rfl rfl ⟨rfl, rfl⟩ rfl

theorem advanceRun_deed {patrolId : String} {task : PatrolTask} {phase : RunPhase}
    (h : advanceRun cfg patrolId task q phase choice = some (P', q')) :
    Deed cfg q (.run patrolId task phase) choice P' q' := by
  cases phase with
  | dispatch | heartbeat _ =>
    cases choice <;> cases h
    exact .rests rfl rfl ⟨rfl, rfl⟩ rfl
  | result result =>
    cases choice <;> cases h
    exact .reports rfl rfl rfl
  | ledger result =>
    have h : some (Proc.run patrolId task (.rename result), q.record cfg (choice == .proceed)
        (recordFinished q.clock task.taskId result.verdict result.costMicrousd)) = some (P', q') := by
      cases choice <;> exact h
    cases h
    refine .notes rfl (q.record_files _ _ _) (q.record_enqueued _ _ _) (record_results _ _)
      (record_change _ _ _ fun _ => rfl) (Or.inr rfl) fun patrolId' taskId' verdict hnoted => ?_
    cases hnoted
    exact ⟨rfl, rfl⟩
  | rename result =>
    cases choice <;> cases h
    cases hrename : q.renameTask (.claimed patrolId) (destination result.verdict) task.taskId with
    | none => exact .rests rfl rfl ⟨rfl, rfl⟩ rfl
    | some q' =>
      obtain ⟨hfiles, henqueued⟩ := Shared.renameTask_eq_some hrename
      exact .files (.finishes rfl hfiles henqueued) (renameTask_unrecorded hrename) rfl
  | removeDir result =>
    cases choice <;> cases h
    exact .rests (q.removeDir_files patrolId) (q.removeDir_enqueued patrolId) (removeDir_unrecorded patrolId) rfl

theorem advanceSweep_deed {now recovered : Nat} {patrolId : String} {later : List String} {phase : SweepPhase}
    (h : advanceSweep cfg now recovered patrolId later q phase choice = some (P', q')) :
    Deed cfg q (.sweep now recovered patrolId phase later) choice P' q' := by
  cases phase with
  | heartbeat =>
    cases choice <;> cases halive : alive cfg now (q.heartbeats patrolId) <;>
      simp only [advanceSweep, halive, reduceCtorEq, if_true, Bool.false_eq_true, if_false] at h
    · cases h
      exact .rests rfl rfl ⟨rfl, rfl⟩ rfl
    · cases h
      exact .rests rfl rfl ⟨rfl, rfl⟩ (sweepNext_reported _ _ _)
  | list =>
    cases choice with
    | proceed | listing tasks =>
      rw [advanceSweep] at h
      split_ifs at h
      cases h
      exact .rests rfl rfl ⟨rfl, rfl⟩ rfl
    | fail | outcome _ => cases h
  | rename tasks =>
    cases tasks with
    | nil =>
      cases choice <;> cases h
      exact .rests rfl rfl ⟨rfl, rfl⟩ rfl
    | cons taskId tasks =>
      cases choice <;> cases hrename : q.renameTask (.claimed patrolId) .pending taskId <;>
        simp only [advanceSweep, hrename, reduceCtorEq] at h
      · cases h
        exact .rests rfl rfl ⟨rfl, rfl⟩ rfl
      · cases h
        obtain ⟨hfiles, henqueued⟩ := Shared.renameTask_eq_some hrename
        exact .files (.reclaims hfiles henqueued) (renameTask_unrecorded hrename) rfl
  | ledger taskId tasks =>
    have h : some (Proc.sweep now recovered patrolId (.rename tasks) later,
        q.record cfg (choice == .proceed) (recordRecovered taskId)) = some (P', q') := by
      cases choice <;> exact h
    cases h
    exact .notes rfl (q.record_files _ _ _) (q.record_enqueued _ _ _) (record_results _ _)
      (record_change _ _ _ fun _ => rfl) (Or.inl rfl) fun _ _ _ h => by cases h
  | removeDir =>
    cases choice <;> cases h
    exact .rests (q.removeDir_files patrolId) (q.removeDir_enqueued patrolId) (removeDir_unrecorded patrolId)
      (sweepNext_reported _ _ _)

theorem advance_deed {pid : Pid} (h : advance cfg pid q P choice = some (P', q')) : Deed cfg q P choice P' q' := by
  cases P with
  | idle last => cases h
  | enqueue task phase => exact advanceEnqueue_deed h
  | claim patrolId phase => exact advanceClaim_deed h
  | run patrolId task phase => exact advanceRun_deed h
  | beat patrolId | sweepStart =>
    cases choice <;> cases h
    exact .rests rfl rfl ⟨rfl, rfl⟩ rfl
  | sweepList now =>
    cases choice with
    | listing patrols =>
      rw [advance] at h
      split_ifs at h
      cases h
      exact .rests rfl rfl ⟨rfl, rfl⟩ (sweepNext_reported _ _ _)
    | _ => cases h
  | sweep now recovered patrolId phase later => exact advanceSweep_deed h

end Deeds

end Nerve.Queue
