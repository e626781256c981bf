import Nerve.Queue.OnDisk
import Nerve.Queue.Plan

/-!
# Dispatching a plan

`dispatch_plan_steps` turns the steps of a stored plan into tasks and puts them into the queue. All
that can be known of the tasks themselves is checked before the first is written, but whether a task
of that id is already somewhere, and whether the disk takes it, is found one task at a time. So a
dispatch is all or nothing (`dispatch_iff`) just if it is the first step that is refused, or none.
-/

namespace Nerve.Store

/-- Of the documents, only plans are read as one. -/
def Stored.asPlan : Stored → Option PlanReport
  | plan p => some p
  | _ => none

end Nerve.Store

namespace Nerve.Queue

open Store Patch

/-! ### The dispatch -/

/-- Why a dispatch fails, under the message it is given first. -/
inductive DispatchError where
  | load (planId : String) (e : StoreError)
  /-- The plan is not stored. -/
  | missing (planId : String)
  | noSteps (planId : String)
  | zeroSteps (planId : String)
  | overlong (planId taskId : String)
  | enqueue (taskId : String) (e : MayorError)
  deriving DecidableEq, Repr

def DispatchError.toText : DispatchError → String
  | load planId _ | missing planId => s!"failed to load plan `{planId}` (run `nv plan` first)"
  | noSteps planId => s!"plan `{planId}` has no parseable steps in its `## Steps` section; nothing to dispatch"
  | zeroSteps planId => s!"--max-steps must be >= 1; 0 would dispatch nothing for plan `{planId}`"
  | overlong planId taskId =>
    s!"plan `{planId}` ({planId.utf8ByteSize} bytes) derives queue task id `{taskId}` ({taskId.utf8ByteSize} bytes), which " ++
      "exceeds the 128-byte queue-component limit; shorten the plan id before dispatching"
  | enqueue taskId _ => s!"failed to enqueue plan step `{taskId}`"

/-- The budgets of the configuration: a patrol's, and that of all runs. -/
structure DispatchConfig where
  perPatrolBudgetMicrousd : Option Nat
  budgetCostMicrousdCeiling : Option Nat
  deriving DecidableEq, Repr

/-- What a step's enqueue meets: an error when the directories are made or listed, and one when the
file is written. -/
structure EnqueueWorld where
  prepared : Except MayorError Unit
  written : Except MayorError Unit

/-- What a dispatch meets: the time at which each step is converted, and what the disk does at the
enqueue of each task. The text of a task's file is that of `serde_json`. -/
structure DispatchWorld where
  now : Nat → Nat
  disk : String → EnqueueWorld
  toJson : PatrolTask → ByteArray

def loadPlan (w : Workspace) (planId : String) : Except DispatchError PlanReport :=
  match validateStoreId "plan id" planId with
  | .error e => .error (.load planId e)
  | .ok () =>
    if !exists? w .plans (jsonName planId) then .error (.missing planId)
    else (Store.readJson w .plans (jsonName planId) Stored.asPlan).mapError (.load planId)

/-- The first of the steps, up to the limit. -/
def truncateSteps (maxSteps : Option Nat) (steps : List PlanStep) : List PlanStep :=
  match maxSteps with
  | none => steps
  | some limit => steps.take limit

/-- The budget of the tasks: as it is asked for, else that of a patrol, else the total, else none,
which is zero. -/
def dispatchBudget (config : DispatchConfig) (budgetMicrousd : Option Nat) : Nat :=
  budgetMicrousd.getD ((config.perPatrolBudgetMicrousd <|> config.budgetCostMicrousdCeiling).getD 0)

/-- The task of a step of the plan. -/
def taskOfStep (world : DispatchWorld) (config : DispatchConfig) (planId : String) (budgetMicrousd : Option Nat)
    (report : PlanReport) (step : PlanStep) : PatrolTask :=
  let objective :=
    match validatePlanMarkdown report.planMarkdown with
    | .ok sections => sections.objective
    | .error _ => ""
  planStepToPatrolTask (world.now step.index) planId objective step report.estimatedFiles
    (dispatchBudget config budgetMicrousd)

/-- Of `dispatch_plan_steps`, what comes before the first task is enqueued. -/
def planTasks (world : DispatchWorld) (w : Workspace) (config : DispatchConfig) (planId : String) (maxSteps : Option Nat)
    (budgetMicrousd : Option Nat) : Except DispatchError (List PatrolTask) :=
  match loadPlan w planId with
  | .error e => .error e
  | .ok report =>
    let steps := parsePlanStepsFromMarkdown report.planMarkdown
    if steps.isEmpty then .error (.noSteps planId)
    else if maxSteps = some 0 then .error (.zeroSteps planId)
    else
      let tasks := (truncateSteps maxSteps steps).map (taskOfStep world config planId budgetMicrousd report)
      match tasks.find? fun task => !isValidQueueId task.taskId with
      | some task => .error (.overlong planId task.taskId)
      | none => .ok tasks

/-- `task_exists_anywhere`. -/
def QueueDirs.taskExistsAnywhere (d : QueueDirs) (taskId : String) : Bool :=
  (d.pending.lookup (taskFile taskId)).isSome || (d.done.lookup (taskFile taskId)).isSome ||
    (d.failed.lookup (taskFile taskId)).isSome || (d.results.lookup (taskFile taskId)).isSome ||
    d.claimed.entries.any fun entry =>
      match entry.2 with
      | .file _ => false
      | .directory listing => (listing.lookup (taskFile taskId)).isSome

/-- The task's file is written. -/
def QueueDirs.addPending (toJson : PatrolTask → ByteArray) (d : QueueDirs) (task : PatrolTask) : QueueDirs :=
  { d with pending := d.pending.insert (taskFile task.taskId) (.file (toJson task)) }

/-- `Mayor::enqueue`: what it returns, and the directories it leaves. -/
def enqueueOnDisk (toJson : PatrolTask → ByteArray) (disk : EnqueueWorld) (total : Option Nat) (task : PatrolTask)
    (d : QueueDirs) : Except MayorError Unit × QueueDirs :=
  match checkEnqueue total task with
  | .error e => (.error e, d)
  | .ok () =>
    match disk.prepared with
    | .error e => (.error e, d)
    | .ok () =>
      if d.taskExistsAnywhere task.taskId then (.error (.taskAlreadyExists task.taskId), d)
      else
        match disk.written with
        | .error e => (.error e, d)
        | .ok () => (.ok (), d.addPending toJson task)

/-- A dispatch that is over: what it returns, and the directories it leaves. What it has `added` is
on no disk: the tasks whose enqueue has succeeded, in order. -/
structure Dispatched where
  result : Except DispatchError (List String)
  added : List PatrolTask
  dirs : QueueDirs

/-- The enqueues, one after the other. -/
def enqueueAll (world : DispatchWorld) (total : Option Nat) : List PatrolTask → QueueDirs → Dispatched
  | [], d => ⟨.ok [], [], d⟩
  | task :: tasks, d =>
    match enqueueOnDisk world.toJson (world.disk task.taskId) total task d with
    | (.error e, d) => ⟨.error (.enqueue task.taskId e), [], d⟩
    | (.ok (), d) =>
      let later := enqueueAll world total tasks d
      ⟨later.result.map (task.taskId :: ·), task :: later.added, later.dirs⟩

def dispatchPlanSteps (world : DispatchWorld) (w : Workspace) (config : DispatchConfig) (planId : String)
    (maxSteps budgetMicrousd : Option Nat) (d : QueueDirs) : Dispatched :=
  match planTasks world w config planId maxSteps budgetMicrousd with
  | .error e => ⟨.error e, [], d⟩
  | .ok tasks => enqueueAll world config.budgetCostMicrousdCeiling tasks d

/-! ### One enqueue -/

/-- The enqueue of the task is refused: over the total budget, or there already, or by the disk. -/
def refuses (world : DispatchWorld) (total : Option Nat) (d : QueueDirs) (task : PatrolTask) : Bool :=
  !(checkEnqueue total task).isOk || !(world.disk task.taskId).prepared.isOk || d.taskExistsAnywhere task.taskId ||
    !(world.disk task.taskId).written.isOk

section Enqueue

variable {world : DispatchWorld} {total : Option Nat} {d : QueueDirs} {task : PatrolTask}

theorem enqueueOnDisk_of_refuses (h : refuses world total d task = true) :
    ∃ e, enqueueOnDisk world.toJson (world.disk task.taskId) total task d = (.error e, d) := by
  unfold refuses at h
  unfold enqueueOnDisk
  rcases hcheck : checkEnqueue total task with e | u
  · exact ⟨e, rfl⟩
  rcases hprepared : (world.disk task.taskId).prepared with e | u
  · exact ⟨e, rfl⟩
  rcases hexists : d.taskExistsAnywhere task.taskId with _ | _
  · rcases hwritten : (world.disk task.taskId).written with e | u
    · exact ⟨e, rfl⟩
    · simp [hcheck, hprepared, hexists, hwritten, Except.isOk, Except.toBool] at h
  · exact ⟨_, rfl⟩

theorem enqueueOnDisk_of_not_refuses (h : refuses world total d task = false) :
    enqueueOnDisk world.toJson (world.disk task.taskId) total task d = (.ok (), d.addPending world.toJson task) := by
  simp only [refuses, Bool.or_eq_false_iff, Bool.not_eq_false'] at h
  obtain ⟨⟨⟨hcheck, hprepared⟩, hexists⟩, hwritten⟩ := h
  have hok {r : Except MayorError Unit} (h : r.isOk = true) : r = .ok () := by
    cases r with
    | error e => cases h
    | ok u => rfl
  unfold enqueueOnDisk
  rw [hok hcheck, hok hprepared, hexists, hok hwritten]
  rfl

/-- A task that is not refused is in no directory. -/
theorem lookup_pending_of_not_refuses (h : refuses world total d task = false) :
    d.pending.lookup (taskFile task.taskId) = none := by
  simp only [refuses, Bool.or_eq_false_iff, QueueDirs.taskExistsAnywhere] at h
  simpa using h.1.2.1.1.1.1

/-- Another task in `pending/` makes no difference. -/
theorem refuses_addPending {other : PatrolTask} (hne : other.taskId ≠ task.taskId) :
    refuses world total (d.addPending world.toJson task) other = refuses world total d other := by
  have hfile : taskFile other.taskId ≠ taskFile task.taskId := fun h => hne (taskFile_injective h)
  have hlookup : (d.addPending world.toJson task).pending.lookup (taskFile other.taskId) =
      d.pending.lookup (taskFile other.taskId) := AList.lookup_insert_ne hfile
  unfold refuses QueueDirs.taskExistsAnywhere
  rw [hlookup]
  rfl

end Enqueue

/-! ### All of them -/

/-- The files of these tasks are written. -/
def QueueDirs.addAll (toJson : PatrolTask → ByteArray) (tasks : List PatrolTask) (d : QueueDirs) : QueueDirs :=
  tasks.foldl (QueueDirs.addPending toJson) d

section AddAll

variable {toJson : PatrolTask → ByteArray} {tasks : List PatrolTask} {d : QueueDirs}

theorem lookup_addAll_of_ne {name : String} (h : ∀ task ∈ tasks, name ≠ taskFile task.taskId) :
    (d.addAll toJson tasks).pending.lookup name = d.pending.lookup name := by
  induction tasks generalizing d with
  | nil => rfl
  | cons task tasks ih =>
    obtain ⟨htask, htasks⟩ := List.forall_mem_cons.mp h
    exact (ih htasks).trans (AList.lookup_insert_ne htask)

theorem lookup_addAll {task : PatrolTask} (hnodup : (tasks.map PatrolTask.taskId).Nodup) (htask : task ∈ tasks) :
    (d.addAll toJson tasks).pending.lookup (taskFile task.taskId) = some (.file (toJson task)) := by
  induction tasks generalizing d with
  | nil => cases htask
  | cons first tasks ih =>
    rw [List.map_cons, List.nodup_cons] at hnodup
    rcases List.mem_cons.mp htask with rfl | htask
    · have hlater : ∀ other ∈ tasks, taskFile task.taskId ≠ taskFile other.taskId := by
        intro other hother heq
        exact hnodup.1 (taskFile_injective heq ▸ List.mem_map_of_mem hother)
      exact (lookup_addAll_of_ne (d := d.addPending toJson task) hlater).trans (AList.lookup_insert _)
    · exact ih hnodup.2 htask

/-- The other directories stay. -/
theorem addAll_eq (toJson : PatrolTask → ByteArray) (tasks : List PatrolTask) (d : QueueDirs) :
    d.addAll toJson tasks = { d with pending := (d.addAll toJson tasks).pending } := by
  induction tasks generalizing d with
  | nil => rfl
  | cons task tasks ih => exact ih (d.addPending toJson task)

end AddAll

section EnqueueAll

variable {world : DispatchWorld} {total : Option Nat} {d : QueueDirs}

/-- After a task that is not refused, the others are refused as before. -/
theorem not_refuses_addPending {task : PatrolTask} {tasks : List PatrolTask}
    (hnotMem : task.taskId ∉ tasks.map PatrolTask.taskId)
    (h : ∀ other ∈ tasks, refuses world total d other = false) :
    ∀ other ∈ tasks, refuses world total (d.addPending world.toJson task) other = false := by
  intro other hother
  rw [refuses_addPending, h other hother]
  exact fun heq => hnotMem (heq ▸ List.mem_map_of_mem hother)

theorem enqueueAll_of_not_refuses {tasks : List PatrolTask} (hnodup : (tasks.map PatrolTask.taskId).Nodup)
    (h : ∀ task ∈ tasks, refuses world total d task = false) :
    enqueueAll world total tasks d = ⟨.ok (tasks.map PatrolTask.taskId), tasks, d.addAll world.toJson tasks⟩ := by
  induction tasks generalizing d with
  | nil => rfl
  | cons task tasks ih =>
    rw [List.map_cons, List.nodup_cons] at hnodup
    obtain ⟨htask, htasks⟩ := List.forall_mem_cons.mp h
    rw [enqueueAll, enqueueOnDisk_of_not_refuses htask]
    simp only [ih hnodup.2 (not_refuses_addPending hnodup.1 htasks)]
    rfl

/-- Up to the first task that is refused, they are added. -/
theorem enqueueAll_of_refuses {tasks later : List PatrolTask} {task : PatrolTask}
    (hnodup : ((tasks ++ task :: later).map PatrolTask.taskId).Nodup)
    (h : ∀ task ∈ tasks, refuses world total d task = false) (hrefuses : refuses world total d task = true) :
    ∃ e, enqueueAll world total (tasks ++ task :: later) d = ⟨.error e, tasks, d.addAll world.toJson tasks⟩ := by
  induction tasks generalizing d with
  | nil =>
    obtain ⟨e, he⟩ := enqueueOnDisk_of_refuses hrefuses
    exact ⟨.enqueue task.taskId e, by rw [List.nil_append, enqueueAll, he]; rfl⟩
  | cons first tasks ih =>
    rw [List.cons_append, List.map_cons, List.nodup_cons] at hnodup
    obtain ⟨hfirst, htasks⟩ := List.forall_mem_cons.mp h
    have hnotMem : first.taskId ∉ tasks.map PatrolTask.taskId ∧ task.taskId ≠ first.taskId := by
      have := hnodup.1
      simp only [List.map_append, List.map_cons, List.mem_append, List.mem_cons, not_or] at this
      exact ⟨this.1, Ne.symm this.2.1⟩
    obtain ⟨e, he⟩ := ih hnodup.2 (not_refuses_addPending hnotMem.1 htasks) (by rw [refuses_addPending hnotMem.2, hrefuses])
    refine ⟨e, ?_⟩
    rw [List.cons_append, enqueueAll, enqueueOnDisk_of_not_refuses hfirst]
    simp only [he]
    rfl

/-- None of the tasks is refused, or there is a first one that is. -/
theorem split_refuses (world : DispatchWorld) (total : Option Nat) (d : QueueDirs) (tasks : List PatrolTask) :
    (∀ task ∈ tasks, refuses world total d task = false) ∨ ∃ before task later, tasks = before ++ task :: later ∧
      (∀ task ∈ before, refuses world total d task = false) ∧ refuses world total d task = true := by
  induction tasks with
  | nil => exact Or.inl nofun
  | cons task tasks ih =>
    rcases htask : refuses world total d task with _ | _
    · rcases ih with hnone | ⟨before, task', later, rfl, hbefore, htask'⟩
      · exact Or.inl (List.forall_mem_cons.mpr ⟨htask, hnone⟩)
      · exact Or.inr ⟨task :: before, task', later, rfl, List.forall_mem_cons.mpr ⟨htask, hbefore⟩, htask'⟩
    · exact Or.inr ⟨[], task, tasks, rfl, nofun, htask⟩

end EnqueueAll

/-! ### The whole dispatch -/

section Dispatch

variable {world : DispatchWorld} {w : Workspace} {config : DispatchConfig} {planId : String} {maxSteps budget : Option Nat}

/-- The tasks of a dispatch are those of the first steps, under ids of their own. -/
theorem planTasks_eq_ok {tasks : List PatrolTask} (h : planTasks world w config planId maxSteps budget = .ok tasks) :
    ∃ report, loadPlan w planId = .ok report ∧
      tasks = (truncateSteps maxSteps (parsePlanStepsFromMarkdown report.planMarkdown)).map
        (taskOfStep world config planId budget report) ∧ ∀ task ∈ tasks, isValidQueueId task.taskId = true := by
  unfold planTasks at h
  rcases hload : loadPlan w planId with e | report <;> simp only [hload] at h
  · cases h
  · split_ifs at h
    split at h
    · cases h
    · rename_i hvalid
      cases h
      exact ⟨report, rfl, rfl, by simpa using hvalid⟩

theorem truncateSteps_sublist (maxSteps : Option Nat) (steps : List PlanStep) :
    (truncateSteps maxSteps steps).Sublist steps := by
  cases maxSteps with
  | none => exact List.Sublist.refl _
  | some limit => exact List.take_sublist _ _

theorem nodup_truncateSteps (planId planMarkdown : String) (maxSteps : Option Nat) :
    ((truncateSteps maxSteps (parsePlanStepsFromMarkdown planMarkdown)).map fun step => stepTaskId planId step.index).Nodup :=
  (nodup_stepTaskId planId planMarkdown).sublist ((truncateSteps_sublist _ _).map _)

theorem index_truncateSteps (maxSteps : Option Nat) (planMarkdown : String) :
    (truncateSteps maxSteps (parsePlanStepsFromMarkdown planMarkdown)).map PlanStep.index =
      List.range' 1 (truncateSteps maxSteps (parsePlanStepsFromMarkdown planMarkdown)).length := by
  cases maxSteps with
  | none => exact index_parsePlanStepsFromMarkdown planMarkdown
  | some limit =>
    rw [truncateSteps, List.map_take, index_parsePlanStepsFromMarkdown, List.length_take]
    rcases Nat.le_total limit (parsePlanStepsFromMarkdown planMarkdown).length with hle | hle
    · rw [List.take_range'_of_length_ge hle, Nat.min_eq_left hle]
    · rw [List.take_range'_of_length_le hle, Nat.min_eq_right hle]

/-- These steps have been added, a pending task for each, and nothing else has changed. -/
structure AllAdded (toJson : PatrolTask → ByteArray) (task : PlanStep → PatrolTask) (steps : List PlanStep)
    (d d' : QueueDirs) : Prop where
  added : ∀ step ∈ steps, d.pending.lookup (taskFile (task step).taskId) = none ∧
    d'.pending.lookup (taskFile (task step).taskId) = some (.file (toJson (task step)))
  others : ∀ name, (∀ step ∈ steps, name ≠ taskFile (task step).taskId) → d'.pending.lookup name = d.pending.lookup name
  elsewhere : d' = { d with pending := d'.pending }

/-- A dispatch that fails should add nothing, and one that does not, the first steps up to the
limit, each under an id of its own, in order. -/
def AllOrNothing (world : DispatchWorld) (w : Workspace) (config : DispatchConfig) (planId : String)
    (maxSteps budget : Option Nat) (d : QueueDirs) (dispatched : Dispatched) : Prop :=
  match dispatched.result with
  | .error _ => ∀ name, dispatched.dirs.pending.lookup name = d.pending.lookup name
  | .ok ids => ∃ report, loadPlan w planId = .ok report ∧
      let steps := truncateSteps maxSteps (parsePlanStepsFromMarkdown report.planMarkdown)
      steps.map PlanStep.index = List.range' 1 steps.length ∧
        ids = steps.map (fun step => stepTaskId planId step.index) ∧ ids.Nodup ∧
        AllAdded world.toJson (taskOfStep world config planId budget report) steps d dispatched.dirs

theorem allAdded_addAll {report : PlanReport} {steps : List PlanStep} {tasks : List PatrolTask} {d : QueueDirs}
    {total : Option Nat}
    (htasks : tasks = steps.map (taskOfStep world config planId budget report))
    (hnodup : (tasks.map PatrolTask.taskId).Nodup) (h : ∀ task ∈ tasks, refuses world total d task = false) :
    AllAdded world.toJson (taskOfStep world config planId budget report) steps d (d.addAll world.toJson tasks) where
  added step hstep := by
    have hmem : taskOfStep world config planId budget report step ∈ tasks := htasks ▸ List.mem_map_of_mem hstep
    exact ⟨lookup_pending_of_not_refuses (h _ hmem), lookup_addAll hnodup hmem⟩
  others name hname := by
    refine lookup_addAll_of_ne fun task htask => ?_
    rw [htasks] at htask
    obtain ⟨step, hstep, rfl⟩ := List.mem_map.mp htask
    exact hname step hstep
  elsewhere := addAll_eq world.toJson tasks d

/-- **A dispatch is all or nothing** just if it is the first task that is refused, or none. -/
theorem dispatch_iff (world : DispatchWorld) (w : Workspace) (config : DispatchConfig) (planId : String)
    (maxSteps budget : Option Nat) (d : QueueDirs) :
    AllOrNothing world w config planId maxSteps budget d (dispatchPlanSteps world w config planId maxSteps budget d) ↔
      ∀ tasks, planTasks world w config planId maxSteps budget = .ok tasks →
        (∃ first ∈ tasks.head?, refuses world config.budgetCostMicrousdCeiling d first = true) ∨
          ∀ task ∈ tasks, refuses world config.budgetCostMicrousdCeiling d task = false := by
  unfold dispatchPlanSteps
  rcases hplan : planTasks world w config planId maxSteps budget with e | tasks
  · exact iff_of_true (fun _ => rfl) (fun _ h => by cases h)
  obtain ⟨report, hload, htasks, -⟩ := planTasks_eq_ok hplan
  have hids : tasks.map PatrolTask.taskId = (truncateSteps maxSteps (parsePlanStepsFromMarkdown report.planMarkdown)).map
      fun step => stepTaskId planId step.index := by
    rw [htasks, List.map_map]
    rfl
  have hnodup : (tasks.map PatrolTask.taskId).Nodup := hids ▸ nodup_truncateSteps planId report.planMarkdown maxSteps
  simp only [Except.ok.injEq, forall_eq']
  rcases split_refuses world config.budgetCostMicrousdCeiling d tasks with hnone | ⟨before, task, later, rfl, hbefore, htask⟩
  · rw [enqueueAll_of_not_refuses hnodup hnone]
    refine iff_of_true ⟨report, hload, index_truncateSteps _ _, hids, hnodup, ?_⟩ (Or.inr hnone)
    exact allAdded_addAll htasks hnodup hnone
  · obtain ⟨e, he⟩ := enqueueAll_of_refuses hnodup hbefore htask
    rw [he]
    rcases before with _ | ⟨first, before⟩
    · exact iff_of_true (fun _ => rfl) (Or.inl ⟨task, rfl, htask⟩)
    · -- the first task is in `pending/`, though the dispatch has failed
      have hfirst := hbefore first List.mem_cons_self
      refine iff_of_false (fun hnothing => ?_) ?_
      · have hadded := hnothing (taskFile first.taskId)
        rw [lookup_pending_of_not_refuses hfirst, lookup_addAll (hnodup.sublist ?_) List.mem_cons_self] at hadded
        · cases hadded
        · exact (List.sublist_append_left _ _).map _
      · rintro (⟨first', hhead, hrefuses⟩ | hnone)
        · cases hhead
          rw [hfirst] at hrefuses
          cases hrefuses
        · rw [hnone task (List.mem_append_right _ List.mem_cons_self)] at htask
          cases htask

end Dispatch

/-! ### A later step that is there already -/

/-- The file of a task without servers, made at the epoch. -/
def sampleJson (task : PatrolTask) : ByteArray :=
  ("\x7b\n  \"task_id\": \"" ++ task.taskId ++ "\",\n  \"prompt\": \"" ++ task.prompt ++ "\",\n  \"budget_microusd\": " ++
    toString task.budgetMicrousd ++ ",\n  \"mcp_servers\": [],\n  \"created_at\": \"1970-01-01T00:00:00Z\"\n\x7d").toByteArray

/-- A disk that takes everything. -/
def sampleWorld : DispatchWorld := ⟨fun _ => 0, fun _ => ⟨.ok (), .ok ()⟩, sampleJson⟩

/-- A plan of two steps. -/
def samplePlan : PlanReport := ⟨"p", "## Steps\n1. one\n2. two\n", "", none, [], none, "1970-01-01T00:00:00Z"⟩

def sampleWorkspace : Workspace := ⟨FileTree.Tree.empty, AList.singleton (.plans, "p.json") (.plan samplePlan)⟩

/-- The second step is in the queue. -/
def secondPending : QueueDirs :=
  ⟨AList.singleton "p-step-02.json" (.file (sampleJson ⟨"p-step-02", "Step 2: two", 0, [], some 0⟩)), ∅, ∅, ∅, ∅⟩

/-- **The dispatch fails, and the first step is in the queue.** -/
theorem first_step_left_pending :
    ¬ ∀ (world : DispatchWorld) (w : Workspace) (config : DispatchConfig) (planId : String) (maxSteps budget : Option Nat)
      (d : QueueDirs),
      AllOrNothing world w config planId maxSteps budget d (dispatchPlanSteps world w config planId maxSteps budget d) := by
  intro h
  have hnothing := h sampleWorld sampleWorkspace ⟨none, none⟩ "p" none none secondPending
  have hfails : (dispatchPlanSteps sampleWorld sampleWorkspace ⟨none, none⟩ "p" none none secondPending).result =
      .error (.enqueue "p-step-02" (.taskAlreadyExists "p-step-02")) := by decide +kernel
  unfold AllOrNothing at hnothing
  rw [hfails] at hnothing
  exact absurd (hnothing "p-step-01.json") (by decide +kernel)

end Nerve.Queue
