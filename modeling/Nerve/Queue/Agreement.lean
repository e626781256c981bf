import Nerve.Queue.Exclusion
import Nerve.Queue.Records

/-!
# The records of a finished task agree

Whoever lost its claim while it ran the task writes the result and updates the ledger all the same, and
skips only the move. So a task that was given back, and run and filed away by a second patrol,
has in the end the result of the first one (`late_result_overwrites`). The ledger is written
by more processes: a mayor that has enqueued a task, or moved one back, updates it when others may already have
found the file.

What it takes is that nobody writes a record of a task that others rely on already (`Relied`), unless it says
the same. In a run whose steps respect this the records agree in every state (`records_agree`). The
invariant is that what a patrol has written is still there when it moves the file.
-/

namespace Nerve.Queue

open FileStore TransitionSystem

/-! ### Agreement -/

/-- What the directory says of the task in it. -/
def Place.records : Place → LedgerState
  | .pending => .pending
  | .claimed _ => .claimed
  | .done => .done
  | .failed => .failed

theorem records_destination (verdict : PatrolVerdict) : (destination verdict).records = terminalState verdict := by
  cases verdict <;> rfl

theorem destination_eq_done {verdict : PatrolVerdict} :
    destination verdict = .done ↔ verdict = .success ∨ verdict = .skipped := by
  cases verdict <;> simp [destination]

theorem destination_eq_failed {verdict : PatrolVerdict} : destination verdict = .failed ↔ verdict = .failed := by
  cases verdict <;> simp [destination]

/-- A result of the task that does not fail it keeps to its budget. -/
def PatrolResult.Fits (task : PatrolTask) (result : PatrolResult) : Prop :=
  result.verdict ≠ .failed → result.costMicrousd ≤ task.budgetMicrousd

/-- Every finished task has a result that says what its directory says. -/
structure ResultsAgree (s : State) : Prop where
  done : ∀ taskId task, s.queue.files.read .done taskId = some task →
    ∃ result, s.queue.results taskId = some result ∧ (result.verdict = .success ∨ result.verdict = .skipped) ∧
      result.costMicrousd ≤ task.budgetMicrousd
  failed : ∀ taskId task, s.queue.files.read .failed taskId = some task →
    ∃ result, s.queue.results taskId = some result ∧ result.verdict = .failed

/-- So does the ledger. -/
def LedgerAgrees (s : State) : Prop :=
  ∀ place taskId, place = .done ∨ place = .failed → s.queue.exists? place taskId = true →
    ∃ entry : LedgerEntry, s.queue.ledger taskId = some entry ∧ entry.state = place.records

/-! ### Writes in time -/

/-- Somebody relies on it that the record of the task sends it to the place: it is there already, or
a patrol other than `pid` has written the record, still has the claim and will move it there. -/
inductive Relied (written : Proc → Option (String × String × PatrolVerdict)) (s : State) (pid : Pid) (taskId : String) :
    Place → Prop
  | filed (verdict : PatrolVerdict) (there : s.queue.exists? (destination verdict) taskId = true) :
    Relied written s pid taskId (destination verdict)
  | due {pid' : Pid} {patrolId : String} {verdict : PatrolVerdict} (other : pid' ≠ pid)
      (writer : written (s.procs pid') = some (patrolId, taskId, verdict))
      (claim : s.queue.exists? (.claimed patrolId) taskId = true) : Relied written s pid taskId (destination verdict)

/-- What the action must respect for the results. -/
structure ReportsInTime (s : State) (action : Action) : Prop where
  /-- A write of a task finds it nowhere. -/
  fresh : WritesFresh s action
  /-- A patrol takes no task that another process still has to file away in its name. -/
  own : ∀ pid choice patrolId taskId, action = .go pid choice → s.procs pid = .claim patrolId (.rename taskId) →
    ∀ pid' verdict, (s.procs pid').reported ≠ some (patrolId, taskId, verdict)
  /-- A result says what others rely on. -/
  report : ∀ pid choice patrolId task result, action = .go pid choice → s.procs pid = .run patrolId task (.result result) →
    ∀ place, Relied Proc.reported s pid task.taskId place → place = destination result.verdict

/-- What it must respect for the ledger: an update is made, and says what others rely on. -/
structure NotesInTime (s : State) (action : Action) : Prop where
  succeeds : ∀ pid choice, action = .go pid choice → (s.procs pid).notes ≠ none → choice = .proceed
  note : ∀ pid choice taskId state, action = .go pid choice → (s.procs pid).notes = some (taskId, state) →
    ∀ place, Relied Proc.noted s pid taskId place → place.records = state

def InTime (s : State) (action : Action) : Prop := ReportsInTime s action ∧ NotesInTime s action

/-! ### What is written is still there -/

/-- `tells taskId place task` is that the record of the task sends it to the place. It does if the
task is there, and if a process that has the claim has written it. -/
structure Kept (tells : String → Place → PatrolTask → Prop) (written : Pid → Option (String × String × PatrolVerdict))
    (f : Assignment) : Prop where
  filed : ∀ taskId verdict task, f taskId = some (destination verdict, task) → tells taskId (destination verdict) task
  due : ∀ pid patrolId taskId verdict task, written pid = some (patrolId, taskId, verdict) →
    f taskId = some (.claimed patrolId, task) → tells taskId (destination verdict) task

section Kept

variable {tells tells' : String → Place → PatrolTask → Prop}
  {written written' : Pid → Option (String × String × PatrolVerdict)} {f : Assignment}

theorem destination_ne_claimed (verdict : PatrolVerdict) (patrolId : String) : destination verdict ≠ .claimed patrolId := by
  cases verdict <;> nofun

theorem destination_ne_pending (verdict : PatrolVerdict) : destination verdict ≠ .pending := by
  cases verdict <;> nofun

/-- Some processes are done with what they have written. -/
theorem Kept.ease (h : Kept tells written f) (hwritten : ∀ pid, written' pid = none ∨ written' pid = written pid) :
    Kept tells written' f := by
  refine ⟨h.filed, fun pid patrolId taskId verdict task hpid hf => ?_⟩
  rcases hwritten pid with hnone | hsame
  · rw [hnone] at hpid
    cases hpid
  · exact h.due pid patrolId taskId verdict task (hsame ▸ hpid) hf

/-- A task comes to `pending/`, or to a patrol that has written no record of it. -/
theorem Kept.move (h : Kept tells written f) {place : Place} {taskId : String} {task : PatrolTask}
    (hplace : ∀ verdict, place ≠ destination verdict)
    (hclaim : ∀ patrolId, place = .claimed patrolId → ∀ pid verdict, written pid ≠ some (patrolId, taskId, verdict)) :
    Kept tells written (Function.update f taskId (some (place, task))) := by
  constructor
  · intro id verdict stored hstored
    by_cases hid : id = taskId
    · rw [hid, Function.update_self] at hstored
      obtain ⟨hdestination, -⟩ := Prod.mk.inj (Option.some.inj hstored)
      exact absurd hdestination (hplace verdict)
    · rw [Function.update_of_ne hid] at hstored
      exact h.filed id verdict stored hstored
  · intro pid patrolId id verdict stored hpid hstored
    by_cases hid : id = taskId
    · rw [hid, Function.update_self] at hstored
      obtain ⟨hclaimed, -⟩ := Prod.mk.inj (Option.some.inj hstored)
      exact absurd (hid ▸ hpid) (hclaim patrolId hclaimed pid verdict)
    · rw [Function.update_of_ne hid] at hstored
      exact h.due pid patrolId id verdict stored hpid hstored

/-- A task is filed away by a process that has written its record. -/
theorem Kept.file (h : Kept tells written f) {pid : Pid} {patrolId taskId : String} {verdict : PatrolVerdict}
    {task : PatrolTask} (hpid : written pid = some (patrolId, taskId, verdict))
    (hf : f taskId = some (.claimed patrolId, task)) :
    Kept tells written (Function.update f taskId (some (destination verdict, task))) := by
  have htells := h.due pid patrolId taskId verdict task hpid hf
  constructor
  · intro id verdict' stored hstored
    by_cases hid : id = taskId
    · rw [hid, Function.update_self] at hstored
      obtain ⟨hdestination, rfl⟩ := Prod.mk.inj (Option.some.inj hstored)
      rw [hid, ← hdestination]
      exact htells
    · rw [Function.update_of_ne hid] at hstored
      exact h.filed id verdict' stored hstored
  · intro pid' patrolId' id verdict' stored hpid' hstored
    by_cases hid : id = taskId
    · rw [hid, Function.update_self] at hstored
      obtain ⟨hdestination, -⟩ := Prod.mk.inj (Option.some.inj hstored)
      exact absurd hdestination (destination_ne_claimed verdict patrolId')
    · rw [Function.update_of_ne hid] at hstored
      exact h.due pid' patrolId' id verdict' stored hpid' hstored

/-- A record of the task is written. -/
theorem Kept.write (h : Kept tells written f) (taskId : String)
    (hothers : ∀ id place task, id ≠ taskId → tells id place task → tells' id place task)
    (hwritten : ∀ pid patrolId id verdict, id ≠ taskId → written' pid = some (patrolId, id, verdict) →
      written pid = some (patrolId, id, verdict))
    (hfiled : ∀ verdict task, f taskId = some (destination verdict, task) → tells' taskId (destination verdict) task)
    (hdue : ∀ pid patrolId verdict task, written' pid = some (patrolId, taskId, verdict) →
      f taskId = some (.claimed patrolId, task) → tells' taskId (destination verdict) task) : Kept tells' written' f := by
  constructor
  · intro id verdict task hf
    by_cases hid : id = taskId
    · subst hid
      exact hfiled verdict task hf
    · exact hothers id _ task hid (h.filed id verdict task hf)
  · intro pid patrolId id verdict task hpid hf
    by_cases hid : id = taskId
    · subst hid
      exact hdue pid patrolId verdict task hpid hf
    · exact hothers id _ task hid (h.due pid patrolId id verdict task (hwritten pid patrolId id verdict hid hpid) hf)

end Kept

/-! ### The tasks in hand -/

/-- A process works on a task that was enqueued, and a result that it is about to write fits it. -/
def Proc.Honest (enqueued : List PatrolTask) : Proc → Prop
  | .claim _ (.ledger task) | .claim _ (.unlock (.ok task)) => task ∈ enqueued
  | .run _ task (.result result) => task ∈ enqueued ∧ result.Fits task
  | .run _ task _ => task ∈ enqueued
  | _ => True

theorem Proc.Honest.mono {enqueued enqueued' : List PatrolTask} (hsub : enqueued ⊆ enqueued') {P : Proc}
    (h : P.Honest enqueued) : P.Honest enqueued' := by
  unfold Honest at *
  split at h
  · exact hsub h
  · exact hsub h
  · exact ⟨hsub h.1, h.2⟩
  · exact hsub h
  · trivial

theorem settleResult_fits (now : Nat) (patrolId : String) (task : PatrolTask) (r : Except MayorError PatrolResult) :
    (settleResult now patrolId task r).Fits task := by
  intro hverdict
  unfold settleResult at *
  rcases r with e | result
  · exact absurd rfl hverdict
  · by_cases hcost : result.costMicrousd > task.budgetMicrousd
    · simp [hcost] at hverdict
    · simp only [if_neg hcost]
      omega

section Honest

variable {cfg : MayorPatrolConfig} {q q' : Shared} {f : Assignment} {P P' : Proc} {choice : Choice}

theorem lookFor_honest (task : PatrolTask) (found : Bool) (next : EnqueuePhase) (enqueued : List PatrolTask) :
    (lookFor task found next).Honest enqueued := by
  unfold lookFor
  split_ifs <;> trivial

theorem sweepNext_honest (now recovered : Nat) (patrols : List String) (enqueued : List PatrolTask) :
    (sweepNext now recovered patrols).Honest enqueued := by
  cases patrols <;> trivial

/-- A patrol reads the task from a file that is the task's. -/
theorem advanceClaim_honest {pid : Pid} {patrolId : String} {phase : ClaimPhase} (hplaced : Placed q f)
    (hP : (Proc.claim patrolId phase).Honest q.enqueued)
    (h : advanceClaim cfg pid patrolId q phase choice = some (P', q')) : P'.Honest q.enqueued := by
  cases phase with
  | heartbeat | makeDir _ =>
    cases choice <;> cases h
    trivial
  | lock =>
    cases choice <;> cases hlock : q.mayorLock <;> simp only [advanceClaim, hlock, reduceCtorEq] at h
    all_goals
      cases h
      trivial
  | scan =>
    cases choice <;> cases hfirst : firstPending q <;> simp only [advanceClaim, hfirst, reduceCtorEq] at h
    all_goals
      cases h
      trivial
  | rename candidate =>
    cases choice <;> cases hrename : q.renameTask .pending (.claimed patrolId) candidate <;>
      simp only [advanceClaim, hrename, reduceCtorEq] at h
    all_goals
      cases h
      trivial
  | read candidate =>
    cases choice <;> cases hread : readClaimed candidate (q.files.read (.claimed patrolId) candidate) <;>
      simp only [advanceClaim, hread, reduceCtorEq] at h
    · cases h
      trivial
    · rename_i task
      cases h
      have hfile : q.files.read (.claimed patrolId) candidate = some task := by
        unfold readClaimed at hread
        split at hread
        · cases hread
        · split at hread
          · cases hread
          · split_ifs at hread
            cases hread
            assumption
      exact (hplaced.known _ _ _ ((hplaced.represents _ _ _).mp hfile)).1
  | ledger task => cases choice <;> cases h <;> exact hP
  | unlock claimed =>
    cases choice <;> cases claimed <;> cases h
    · trivial
    · exact hP

theorem advanceRun_honest {patrolId : String} {task : PatrolTask} {phase : RunPhase}
    (hP : (Proc.run patrolId task phase).Honest q.enqueued)
    (h : advanceRun cfg patrolId task q phase choice = some (P', q')) : P'.Honest q.enqueued := by
  cases phase with
  | dispatch =>
    cases choice <;> cases h
    exact ⟨hP, settleResult_fits _ _ _ _⟩
  | result result =>
    cases choice <;> cases h
    exact hP.1
  | ledger result => cases choice <;> cases h <;> exact hP
  | rename result | removeDir result =>
    cases choice <;> cases h
    exact hP
  | heartbeat result =>
    cases choice <;> cases h
    trivial

theorem advanceEnqueue_honest {task : PatrolTask} {phase : EnqueuePhase}
    (h : advanceEnqueue cfg task q phase choice = some (P', q')) : P'.Honest q.enqueued := by
  cases phase with
  | lookPending | lookDone | lookFailed | lookResult =>
    cases choice <;> cases h
    exact lookFor_honest _ _ _ _
  | listClaimed =>
    cases choice with
    | listing patrols =>
      rw [advanceEnqueue] at h
      split_ifs at h
      cases h
      trivial
    | _ => cases h
  | lookClaimed patrols =>
    cases patrols <;> cases choice <;> cases h
    · trivial
    · exact lookFor_honest _ _ _ _
  | write | ledger => cases choice <;> cases h <;> trivial

theorem advanceSweep_honest {now recovered : Nat} {patrolId : String} {later : List String} {phase : SweepPhase}
    (h : advanceSweep cfg now recovered patrolId later q phase choice = some (P', q')) : P'.Honest q.enqueued := by
  cases phase with
  | heartbeat =>
    cases choice with
    | proceed =>
      rw [advanceSweep] at h
      split_ifs at h <;> cases h
      · exact sweepNext_honest _ _ _ _
      · trivial
    | _ => cases h
  | list =>
    cases choice with
    | proceed | listing tasks =>
      rw [advanceSweep] at h
      split_ifs at h
      cases h
      trivial
    | _ => cases h
  | rename tasks =>
    cases tasks with
    | nil =>
      cases choice <;> cases h
      trivial
    | cons taskId tasks =>
      cases choice <;> cases hrename : q.renameTask (.claimed patrolId) .pending taskId <;>
        simp only [advanceSweep, hrename, reduceCtorEq] at h
      all_goals
        cases h
        trivial
  | ledger taskId tasks => cases choice <;> cases h <;> trivial
  | removeDir =>
    cases choice <;> cases h
    exact sweepNext_honest _ _ _ _

theorem advance_honest {pid : Pid} (hplaced : Placed q f) (hP : P.Honest q.enqueued)
    (h : advance cfg pid q P choice = some (P', q')) : P'.Honest q.enqueued := by
  cases P with
  | idle last => cases h
  | enqueue task phase => exact advanceEnqueue_honest h
  | claim patrolId phase => exact advanceClaim_honest hplaced hP h
  | run patrolId task phase => exact advanceRun_honest hP h
  | beat patrolId | sweepStart =>
    cases choice <;> cases h
    trivial
  | sweepList now =>
    cases choice with
    | listing patrols =>
      rw [advance] at h
      split_ifs at h
      cases h
      exact sweepNext_honest _ _ _ _
    | _ => cases h
  | sweep now recovered patrolId phase later => exact advanceSweep_honest h

end Honest

/-! ### A step of the system -/

/-- Nothing happens to the files and the records, and no process is at its writes that was not. -/
structure Idles (s s' : State) : Prop where
  files : s'.queue.files = s.queue.files
  enqueued : s'.queue.enqueued = s.queue.enqueued
  records : Unrecorded s.queue s'.queue
  procs : ∀ pid, s'.procs pid = s.procs pid ∨
    (s'.procs pid).reported = none ∧ ∀ enqueued, (s'.procs pid).Honest enqueued

theorem Idles.of_set {s : State} {pid : Pid} {P' : Proc} {q' : Shared} (files : q'.files = s.queue.files)
    (enqueued : q'.enqueued = s.queue.enqueued) (records : Unrecorded s.queue q') (reported : P'.reported = none)
    (honest : ∀ enqueued, P'.Honest enqueued) : Idles s (s.set pid (P', q')) := by
  refine ⟨files, enqueued, records, fun pid' => ?_⟩
  by_cases hpid : pid' = pid
  · subst hpid
    have hset : (s.set pid' (P', q')).procs pid' = P' := by simp [State.set]
    exact Or.inr ⟨by rw [hset, reported], by rwa [hset]⟩
  · exact Or.inl (Function.update_of_ne hpid _ _)

theorem Operation.begin_idle (operation : Operation) :
    operation.begin.reported = none ∧ ∀ enqueued, operation.begin.Honest enqueued := by
  cases operation with
  | enqueue total task =>
    rw [begin]
    split <;> exact ⟨rfl, fun _ => trivial⟩
  | claim patrolId | heartbeat patrolId =>
    rw [begin]
    split <;> exact ⟨rfl, fun _ => trivial⟩
  | status => exact ⟨rfl, fun _ => trivial⟩

/-- A process advances, or nothing happens. -/
theorem step_advance {cfg : MayorPatrolConfig} {s s' : State} {action : Action} (h : step cfg s action = some s') :
    Idles s s' ∨ ∃ pid choice P', action = .go pid choice ∧ s'.procs = Function.update s.procs pid P' ∧
      advance cfg pid s.queue (s.procs pid) choice = some (P', s'.queue) := by
  cases action with
  | tick elapsed =>
    cases h
    exact Or.inl ⟨rfl, rfl, ⟨rfl, rfl⟩, fun _ => Or.inl rfl⟩
  | start pid operation =>
    rw [step] at h
    split at h
    · cases h
      exact Or.inl (.of_set rfl rfl ⟨rfl, rfl⟩ operation.begin_idle.1 operation.begin_idle.2)
    · cases h
  | go pid choice =>
    obtain ⟨⟨P', q'⟩, hadvance, rfl⟩ := Option.map_eq_some_iff.mp h
    exact Or.inr ⟨pid, choice, P', rfl, rfl, hadvance⟩
  | stop pid =>
    cases h
    exact Or.inl (.of_set rfl rfl ⟨rfl, rfl⟩ rfl fun _ => trivial)

theorem Deed.enqueued_subset {cfg : MayorPatrolConfig} {q q' : Shared} {P P' : Proc} {choice : Choice}
    (h : Deed cfg q P choice P' q') : q.enqueued ⊆ q'.enqueued := by
  cases h with
  | files deed _ _ =>
    cases deed with
    | rests _ enqueued | claims _ _ enqueued | reclaims _ enqueued | finishes _ _ enqueued => rw [enqueued]; exact fun _ h => h
    | enqueues _ _ enqueued =>
      rw [enqueued]
      exact List.subset_append_left _ _
  | reports _ _ queue =>
    rw [queue]
    exact fun _ h => h
  | notes _ _ enqueued _ _ _ _ =>
    rw [enqueued]
    exact fun _ h => h

/-! ### The results -/

/-- The result of the task sends it to the place. -/
def ResultTells (results : String → Option PatrolResult) (taskId : String) (place : Place) (task : PatrolTask) : Prop :=
  ∃ result, results taskId = some result ∧ destination result.verdict = place ∧ result.Fits task

/-- The entry of the ledger does. -/
def LedgerTells (ledger : Ledger) (taskId : String) (place : Place) (_ : PatrolTask) : Prop :=
  ∃ entry : LedgerEntry, ledger taskId = some entry ∧ entry.state = place.records

section Steps

variable {cfg : MayorPatrolConfig} {s s' : State} {f : Assignment} {action : Action} {pid : Pid} {choice : Choice}
  {P' : Proc} {tells : String → Place → PatrolTask → Prop} {written : Proc → Option (String × String × PatrolVerdict)}

theorem written_update (hprocs : s'.procs = Function.update s.procs pid P')
    (hwritten : written P' = none ∨ written P' = written (s.procs pid)) (pid' : Pid) :
    written (s'.procs pid') = none ∨ written (s'.procs pid') = written (s.procs pid') := by
  rw [hprocs]
  by_cases hpid : pid' = pid
  · rwa [hpid, Function.update_self]
  · exact Or.inr (by rw [Function.update_of_ne hpid])

variable (written) in
/-- What is done to the task files keeps either of the records. -/
theorem Kept.files (hnoted : ∀ P report, P.noted = some report → written P = some report)
    (hreported : ∀ P report, written P = some report → P.reported = some report)
    (h : Kept tells (fun pid => written (s.procs pid)) f) (hplaced : Placed s.queue f)
    (htime : ReportsInTime s (.go pid choice)) (hprocs : s'.procs = Function.update s.procs pid P')
    (hquiet : P'.reported = none) (hdeed : FileDeed s.queue (s.procs pid) s'.queue) :
    ∃ f', Placed s'.queue f' ∧ Kept tells (fun pid => written (s'.procs pid)) f' := by
  have hnone : written P' = none := by
    rw [Option.eq_none_iff_forall_ne_some]
    intro report hreport
    rw [hreported P' report hreport] at hquiet
    cases hquiet
  have hease (pid') : written (s'.procs pid') = none ∨ written (s'.procs pid') = written (s.procs pid') :=
    written_update hprocs (Or.inl hnone) pid'
  cases hdeed with
  | rests files enqueued => exact ⟨f, hplaced.stay files enqueued, h.ease hease⟩
  | enqueues before files enqueued =>
    have hnew := hplaced.eq_none_of_fresh htime.fresh before
    exact ⟨_, hplaced.appear hnew files enqueued,
      (h.move (fun verdict => (destination_ne_pending verdict).symm) nofun).ease hease⟩
  | claims before files enqueued =>
    obtain ⟨task, hsrc, hplaced'⟩ := hplaced.move files enqueued
    refine ⟨_, hplaced', (h.move (fun verdict => (destination_ne_claimed verdict _).symm) ?_).ease hease⟩
    intro patrolId hpatrol pid' verdict hpid'
    cases hpatrol
    exact htime.own pid choice _ _ rfl before pid' verdict (hreported _ _ hpid')
  | reclaims files enqueued =>
    obtain ⟨task, hsrc, hplaced'⟩ := hplaced.move files enqueued
    exact ⟨_, hplaced', (h.move (fun verdict => (destination_ne_pending verdict).symm) nofun).ease hease⟩
  | finishes before files enqueued =>
    obtain ⟨task, hsrc, hplaced'⟩ := hplaced.move files enqueued
    have hpid : written (s.procs pid) = some _ := hnoted _ _ before
    exact ⟨_, hplaced', (h.file hpid hsrc).ease hease⟩

theorem exists?_of_placed (hplaced : Placed s.queue f) {taskId : String} {place : Place} {task : PatrolTask}
    (hf : f taskId = some (place, task)) : s.queue.exists? place taskId = true := by
  rw [Shared.exists?, (hplaced.represents _ _ _).mpr hf]
  rfl

/-- The results of what is done are kept, and those about to be written are in order. -/
structure ResultsKept (s : State) (f : Assignment) : Prop where
  placed : Placed s.queue f
  honest : ∀ pid, (s.procs pid).Honest s.queue.enqueued
  kept : Kept (ResultTells s.queue.results) (fun pid => (s.procs pid).reported) f

/-- A result is written that says what others rely on. -/
theorem ResultsKept.report (h : ResultsKept s f) (htime : ReportsInTime s (.go pid choice)) {patrolId : String}
    {task : PatrolTask} {result : PatrolResult} (before : s.procs pid = .run patrolId task (.result result))
    (hprocs : s'.procs = Function.update s.procs pid (.run patrolId task (.ledger result)))
    (hresults : s'.queue.results = Function.update s.queue.results task.taskId (some result)) :
    Kept (ResultTells s'.queue.results) (fun pid => (s'.procs pid).reported) f := by
  have hhonest : task ∈ s.queue.enqueued ∧ result.Fits task := by
    have := h.honest pid
    rwa [before] at this
  obtain ⟨place, hplace⟩ := h.placed.placed task hhonest.1
  -- wherever the task is, the new result fits it
  have htells (verdict : PatrolVerdict) (place' : Place) (task' : PatrolTask) (hf : f task.taskId = some (place', task'))
      (hverdict : destination verdict = destination result.verdict) :
      ResultTells s'.queue.results task.taskId (destination verdict) task' := by
    rw [hplace] at hf
    cases hf
    exact ⟨result, by rw [hresults, Function.update_self], hverdict.symm, hhonest.2⟩
  have hrelied := htime.report pid choice patrolId task result rfl before
  refine h.kept.write task.taskId ?_ ?_ ?_ ?_
  · rintro id place' task' hid ⟨result', hresult', hrest⟩
    exact ⟨result', by rw [hresults, Function.update_of_ne hid, hresult'], hrest⟩
  · intro pid' patrolId' id verdict hid hpid'
    rw [hprocs] at hpid'
    by_cases hpid : pid' = pid
    · rw [hpid, Function.update_self] at hpid'
      cases hpid'
      exact absurd rfl hid
    · rwa [Function.update_of_ne hpid] at hpid'
  · intro verdict task' hf
    exact htells verdict _ task' hf (hrelied _ (.filed verdict (exists?_of_placed h.placed hf)))
  · intro pid' patrolId' verdict task' hpid' hf
    rw [hprocs] at hpid'
    by_cases hpid : pid' = pid
    · rw [hpid, Function.update_self] at hpid'
      cases hpid'
      exact htells _ _ task' hf rfl
    · rw [Function.update_of_ne hpid] at hpid'
      exact htells verdict _ task' hf (hrelied _ (.due hpid hpid' (exists?_of_placed h.placed hf)))

theorem ResultsKept.step (h : ResultsKept s f) (htime : ReportsInTime s action) (hstep : step cfg s action = some s') :
    ∃ f', ResultsKept s' f' := by
  rcases step_advance hstep with hidle | ⟨pid, choice, P', rfl, hprocs, hadvance⟩
  · refine ⟨f, h.placed.stay hidle.files hidle.enqueued, fun pid => ?_, ?_⟩
    · rw [hidle.enqueued]
      rcases hidle.procs pid with hsame | ⟨-, hhonest⟩
      · rw [hsame]
        exact h.honest pid
      · exact hhonest _
    · rw [hidle.records.results]
      exact h.kept.ease fun pid => (hidle.procs pid).symm.imp And.left fun hsame => by rw [hsame]
  have hdeed := advance_deed hadvance
  have hhonest (pid' : Pid) : (s'.procs pid').Honest s'.queue.enqueued := by
    refine .mono hdeed.enqueued_subset ?_
    rw [hprocs]
    by_cases hpid : pid' = pid
    · rw [hpid, Function.update_self]
      exact advance_honest h.placed (h.honest pid) hadvance
    · rw [Function.update_of_ne hpid]
      exact h.honest pid'
  cases hdeed with
  | files deed records reported =>
    obtain ⟨f', hplaced, hkept⟩ := h.kept.files Proc.reported (fun _ _ => Proc.reported_of_noted)
      (fun _ _ => id) h.placed htime hprocs reported deed
    exact ⟨f', hplaced, hhonest, by rwa [records.results]⟩
  | reports before after queue =>
    have hplaced : Placed s'.queue f := h.placed.stay (by rw [queue]) (by rw [queue])
    exact ⟨f, hplaced, hhonest, h.report htime before (after ▸ hprocs) (by rw [queue])⟩
  | notes before files enqueued results ledger reported noted =>
    refine ⟨f, h.placed.stay files enqueued, hhonest, ?_⟩
    rw [results]
    exact h.kept.ease (written_update hprocs reported)

/-- The entries of the ledger of what is done are kept. -/
structure LedgerKept (s : State) (f : Assignment) : Prop where
  placed : Placed s.queue f
  kept : Kept (LedgerTells s.queue.ledger) (fun pid => (s.procs pid).noted) f

theorem noted_eq_none {P : Proc} (h : P.reported = none) : P.noted = none := by
  rw [Option.eq_none_iff_forall_ne_some]
  intro report hreport
  rw [Proc.reported_of_noted hreport] at h
  cases h

/-- The ledger is updated, and says what others rely on. -/
theorem LedgerKept.note (h : LedgerKept s f) (htime : NotesInTime s (.go pid choice)) {taskId : String}
    {state : LedgerState} (before : (s.procs pid).notes = some (taskId, state))
    (hprocs : s'.procs = Function.update s.procs pid P') {entry : LedgerEntry} (hentry : entry.state = state)
    (hledger : s'.queue.ledger = Function.update s.queue.ledger taskId (some entry))
    (hnoted : ∀ patrolId taskId' verdict, P'.noted = some (patrolId, taskId', verdict) →
      taskId' = taskId ∧ state = terminalState verdict) :
    Kept (LedgerTells s'.queue.ledger) (fun pid => (s'.procs pid).noted) f := by
  have htells (place : Place) (task : PatrolTask) (hplace : place.records = state) :
      LedgerTells s'.queue.ledger taskId place task :=
    ⟨entry, by rw [hledger, Function.update_self], hentry.trans hplace.symm⟩
  have hrelied := htime.note pid choice taskId state rfl before
  refine h.kept.write taskId ?_ ?_ ?_ ?_
  · rintro id place task hid ⟨entry', hentry', hplace⟩
    exact ⟨entry', by rw [hledger, Function.update_of_ne hid, hentry'], hplace⟩
  · intro pid' patrolId id verdict hid hpid'
    rw [hprocs] at hpid'
    by_cases hpid : pid' = pid
    · rw [hpid, Function.update_self] at hpid'
      exact absurd (hnoted patrolId id verdict hpid').1 hid
    · rwa [Function.update_of_ne hpid] at hpid'
  · intro verdict task hf
    exact htells _ task (hrelied _ (.filed verdict (exists?_of_placed h.placed hf)))
  · intro pid' patrolId verdict task hpid' hf
    rw [hprocs] at hpid'
    by_cases hpid : pid' = pid
    · rw [hpid, Function.update_self] at hpid'
      exact htells _ task ((records_destination verdict).trans (hnoted patrolId taskId verdict hpid').2.symm)
    · rw [Function.update_of_ne hpid] at hpid'
      exact htells _ task (hrelied _ (.due hpid hpid' (exists?_of_placed h.placed hf)))

theorem LedgerKept.step (henabled : cfg.coordinationEnabled = true) (h : LedgerKept s f)
    (htime : ReportsInTime s action) (hnotes : NotesInTime s action) (hstep : step cfg s action = some s') :
    ∃ f', LedgerKept s' f' := by
  rcases step_advance hstep with hidle | ⟨pid, choice, P', rfl, hprocs, hadvance⟩
  · refine ⟨f, h.placed.stay hidle.files hidle.enqueued, ?_⟩
    rw [hidle.records.ledger]
    exact h.kept.ease fun pid => (hidle.procs pid).symm.imp (fun hquiet => noted_eq_none hquiet.1) fun hsame => by rw [hsame]
  cases advance_deed hadvance with
  | files deed records reported =>
    obtain ⟨f', hplaced, hkept⟩ := h.kept.files Proc.noted (fun _ _ => id)
      (fun _ _ => Proc.reported_of_noted) h.placed htime hprocs reported deed
    exact ⟨f', hplaced, by rwa [records.ledger]⟩
  | reports before after queue =>
    refine ⟨f, h.placed.stay (by rw [queue]) (by rw [queue]), ?_⟩
    rw [queue]
    exact h.kept.ease (written_update hprocs (Or.inl (by rw [after]; rfl)))
  | notes before files enqueued results ledger reported noted =>
    have hproceed : choice = .proceed := hnotes.succeeds pid choice rfl (by rw [before]; nofun)
    obtain ⟨entry, hentry, hledger⟩ := ledger henabled hproceed
    exact ⟨f, h.placed.stay files enqueued, h.note hnotes before hprocs hentry hledger noted⟩

theorem ResultsKept.agree (h : ResultsKept s f) : ResultsAgree s := by
  constructor
  · intro taskId task hread
    obtain ⟨result, hresult, hdestination, hfits⟩ := h.kept.filed taskId .success task ((h.placed.represents _ _ _).mp hread)
    have hverdict := destination_eq_done.mp hdestination
    exact ⟨result, hresult, hverdict, hfits (by rcases hverdict with hverdict | hverdict <;> rw [hverdict] <;> nofun)⟩
  · intro taskId task hread
    obtain ⟨result, hresult, hdestination, -⟩ := h.kept.filed taskId .failed task ((h.placed.represents _ _ _).mp hread)
    exact ⟨result, hresult, destination_eq_failed.mp hdestination⟩

theorem LedgerKept.agrees (h : LedgerKept s f) : LedgerAgrees s := by
  intro place taskId hplace hexists
  obtain ⟨task, hread⟩ := Option.isSome_iff_exists.mp hexists
  have hf := (h.placed.represents _ _ _).mp hread
  rcases hplace with rfl | rfl
  · exact h.kept.filed taskId .success task hf
  · exact h.kept.filed taskId .failed task hf

theorem kept_initial (tells : String → Place → PatrolTask → Prop) : Kept tells (fun _ => none) fun _ => none :=
  ⟨nofun, nofun⟩

end Steps

/-- **The records of finished tasks agree**, in every state of a run whose writes are all in time:
the results with the directories, and if the ledger is kept, it too. -/
theorem records_agree (cfg : MayorPatrolConfig) (actions : List Action) :
    (Meets (step cfg) ReportsInTime State.initial actions → Always (step cfg) ResultsAgree State.initial actions) ∧
      (cfg.coordinationEnabled = true →
        Meets (step cfg) InTime State.initial actions →
        Always (step cfg) LedgerAgrees State.initial actions) := by
  constructor
  · intro h
    have hkeep (s : State) (action : Action) (s' : State) (hs : ∃ f, ResultsKept s f) (htime : ReportsInTime s action)
        (hstep : step cfg s action = some s') : ∃ f, ResultsKept s' f := by
      obtain ⟨f, hf⟩ := hs
      exact hf.step htime hstep
    have hinitial : ResultsKept State.initial fun _ => none := ⟨placed_initial, fun _ => trivial, kept_initial _⟩
    refine (always_of_meets hkeep ⟨_, hinitial⟩ h).mono fun s hs => ?_
    obtain ⟨f, hf⟩ := hs
    exact hf.agree
  · intro henabled h
    have hkeep (s : State) (action : Action) (s' : State) (hs : ∃ f, LedgerKept s f)
        (htime : InTime s action) (hstep : step cfg s action = some s') :
        ∃ f, LedgerKept s' f := by
      obtain ⟨f, hf⟩ := hs
      exact hf.step henabled htime.1 htime.2 hstep
    have hinitial : LedgerKept State.initial fun _ => none := ⟨placed_initial, kept_initial _⟩
    refine (always_of_meets hkeep ⟨_, hinitial⟩ h).mono fun s hs => ?_
    obtain ⟨f, hf⟩ := hs
    exact hf.agrees

/-! ### Two runs -/

/-- A patrol ends the dispatch with this result, and does what comes after. -/
def finishTask (pid : Pid) (r : Except MayorError PatrolResult) : List Action :=
  .go pid (.outcome r) :: List.replicate 5 (.go pid .proceed)

section InTime

variable {s : State} {pid : Pid} {choice : Choice}

theorem InTime.of_start {operation : Operation} : InTime s (.start pid operation) := by
  refine ⟨⟨?_, ?_, ?_⟩, ⟨?_, ?_⟩⟩
  · exact fun _ _ _ haction => nomatch haction
  · exact fun _ _ _ _ haction => nomatch haction
  · exact fun _ _ _ _ _ haction => nomatch haction
  · exact fun _ _ haction => nomatch haction
  · exact fun _ _ _ _ haction => nomatch haction

/-- Whether there is anything to respect in the next step of the process. -/
def Proc.records : Proc → Bool
  | .enqueue _ .write | .enqueue _ .ledger => true
  | .claim _ (.rename _) | .claim _ (.ledger _) => true
  | .run _ _ (.result _) | .run _ _ (.ledger _) => true
  | .sweep _ _ _ (.ledger _ _) _ => true
  | _ => false

theorem Proc.notes_eq_none {P : Proc} (h : P.records = false) : P.notes = none := by
  unfold notes
  split <;> first | cases h | rfl

theorem InTime.of_not_records (h : (s.procs pid).records = false) : InTime s (.go pid choice) := by
  have hnotes := Proc.notes_eq_none h
  refine ⟨⟨?_, ?_, ?_⟩, ⟨?_, ?_⟩⟩
  · intro pid' choice' task haction hproc
    cases haction
    rw [hproc] at h
    cases h
  · intro pid' choice' patrolId taskId haction hproc
    cases haction
    rw [hproc] at h
    cases h
  · intro pid' choice' patrolId task result haction hproc
    cases haction
    rw [hproc] at h
    cases h
  · intro pid' choice' haction hnote
    cases haction
    exact absurd hnotes hnote
  · intro pid' choice' taskId state haction hnote
    cases haction
    rw [hnotes] at hnote
    cases hnote

/-- While nothing is filed away, and no other process at its writes, nobody relies on anything. -/
theorem InTime.of_alone {P : Proc} (hself : s.procs pid = P) (halone : ∀ pid', pid' ≠ pid → (s.procs pid').reported = none)
    (hfiled : ∀ verdict taskId, s.queue.exists? (destination verdict) taskId = false)
    (hfresh : ∀ task, P = .enqueue task .write → ∀ place, s.queue.exists? place task.taskId = false) :
    InTime s (.go pid .proceed) := by
  have hnobody {written : Proc → Option (String × String × PatrolVerdict)}
      (hreported : ∀ P report, written P = some report → P.reported = some report) (taskId : String) (place : Place) :
      ¬ Relied written s pid taskId place := by
    intro h
    cases h with
    | filed verdict there =>
      rw [hfiled] at there
      cases there
    | due other writer claim =>
      have := hreported _ _ writer
      rw [halone _ other] at this
      cases this
  refine ⟨⟨?_, ?_, ?_⟩, ⟨?_, ?_⟩⟩
  · intro pid' choice' task haction hproc
    cases haction
    exact hfresh task (hself.symm.trans hproc)
  · intro pid' choice' patrolId taskId haction hproc pid'' verdict
    cases haction
    by_cases hpid : pid'' = pid
    · rw [hpid, hproc]
      nofun
    · rw [halone pid'' hpid]
      nofun
  · intro pid' choice' patrolId task result haction hproc place hrelied
    cases haction
    exact absurd hrelied (hnobody (fun _ _ => id) _ _)
  · intro pid' choice' haction _
    cases haction
    rfl
  · intro pid' choice' taskId state haction hnote place hrelied
    cases haction
    exact absurd hrelied (hnobody (fun _ _ => Proc.reported_of_noted) _ _)

end InTime

def oneResult : PatrolResult := ⟨"task", "one", .success, 10, none, none, some 0⟩

/-- One task is enqueued, claimed and run. -/
def oneTask : List Action := enqueueTask 0 ++ claimTask 1 "one" ++ finishTask 1 (.ok oneResult)

/-- So much of one task is done that nobody else is at any writes, and nothing is filed away. -/
theorem oneTask_inTime : Meets (step sampleConfig) InTime State.initial oneTask := by
  -- the mayor looks everywhere, writes the task and notes it
  refine .cons rfl .of_start ?_
  iterate 6 refine .cons rfl (.of_not_records rfl) ?_
  refine .cons rfl (.of_alone (P := .enqueue (sampleTask "first") .write) rfl ?_ ?_ fun task h place => ?_) ?_
  · rintro (_ | pid) hpid
    · exact absurd rfl hpid
    · rfl
  · rintro (_ | _ | _) taskId <;> rfl
  · rfl
  refine .cons rfl (.of_alone (P := .enqueue (sampleTask "first") .ledger) rfl ?_ ?_ fun _ h => by cases h) ?_
  · rintro (_ | pid) hpid
    · exact absurd rfl hpid
    · rfl
  · rintro (_ | _ | _) taskId <;> rfl
  -- the patrol takes it, and notes that
  refine .cons rfl .of_start ?_
  iterate 4 refine .cons rfl (.of_not_records rfl) ?_
  refine .cons rfl (.of_alone (P := .claim "one" (.rename "task")) rfl ?_ ?_ nofun) ?_
  · rintro (_ | _ | pid) hpid
    · rfl
    · exact absurd rfl hpid
    · rfl
  · rintro (_ | _ | _) taskId <;> rfl
  refine .cons rfl (.of_not_records rfl) ?_
  refine .cons rfl (.of_alone (P := .claim "one" (.ledger (sampleTask "first"))) rfl ?_ ?_ nofun) ?_
  · rintro (_ | _ | pid) hpid
    · rfl
    · exact absurd rfl hpid
    · rfl
  · rintro (_ | _ | _) taskId <;> rfl
  -- it ends the dispatch, writes the result, and notes that
  iterate 2 refine .cons rfl (.of_not_records rfl) ?_
  refine .cons rfl (.of_alone (P := .run "one" (sampleTask "first") (.result oneResult)) rfl ?_ ?_ nofun) ?_
  · rintro (_ | _ | pid) hpid
    · rfl
    · exact absurd rfl hpid
    · rfl
  · rintro (_ | _ | _) taskId <;> rfl
  refine .cons rfl (.of_alone (P := .run "one" (sampleTask "first") (.ledger oneResult)) rfl ?_ ?_ nofun) ?_
  · rintro (_ | _ | pid) hpid
    · rfl
    · exact absurd rfl hpid
    · rfl
  · rintro (_ | _ | _) taskId <;> rfl
  iterate 3 refine .cons rfl (.of_not_records rfl) ?_
  trivial

/-- The records of a task that is run once agree. -/
theorem records_agree_once : Always (step sampleConfig) ResultsAgree State.initial oneTask ∧
    Always (step sampleConfig) LedgerAgrees State.initial oneTask :=
  have hreports : Meets (step sampleConfig) ReportsInTime State.initial oneTask :=
    Meets.mono (fun _ _ => And.left) oneTask_inTime
  ⟨(records_agree sampleConfig oneTask).1 hreports, (records_agree sampleConfig oneTask).2 rfl oneTask_inTime⟩

/-- The mayor ends the sweep, the second patrol succeeds, and after it the first one fails. -/
def lateResult : List Action :=
  slowDispatch ++ [.go 0 .proceed, .go 0 .proceed, .go 0 .proceed] ++
    finishTask 2 (.ok ⟨"task", "two", .success, 10, none, none, none⟩) ++ finishTask 1 (.error .queueEmpty)

/-- **The late result is the one that stays**: the task is in `done/`, and its result and its entry in the
ledger are those of a failure. -/
theorem late_result_overwrites : ∃ s, run (step sampleConfig) State.initial lateResult = some s ∧
    (∀ pid, ∃ last, s.procs pid = .idle last) ∧ ¬ ResultsAgree s ∧ ¬ LedgerAgrees s := by
  refine ⟨_, rfl, fun pid => ?_, fun h => ?_, fun h => ?_⟩
  · rcases pid with _ | _ | _ | pid <;> exact ⟨_, rfl⟩
  · obtain ⟨result, hresult, hverdict, -⟩ := h.done "task" (sampleTask "first") rfl
    have hfailed : result.verdict = .failed := by
      cases hresult
      rfl
    rw [hfailed] at hverdict
    rcases hverdict with hverdict | hverdict <;> cases hverdict
  · obtain ⟨entry, hentry, hstate⟩ := h .done "task" (Or.inl rfl) rfl
    have hfailed : entry.state = .failed := by
      cases hentry
      rfl
    rw [hfailed] at hstate
    cases hstate

end Nerve.Queue
