import Nerve.Daemon.Model
import Nerve.Daemon.Stream

/-!
# Steps of the daemon

What an operation of the read loop does and what a step of the daemon is, each said once
(`Performs`, `daemonStep_cases`), and what an execution keeps: `EveryRun` is for what every run
keeps by itself, `Keeps` for what the read loop keeps to, by a protocol whose record is related to
what the loop and the runs share.
-/

namespace Nerve.Daemon

open Nerve Nerve.Patch Nerve.Run Nerve.Session Dialogue TransitionSystem

variable {D : Setup}

/-! ### Operations -/

/-- The operation gives the answer and leaves the rest of the system so. -/
inductive Performs (D : Setup) (s : Shared) : (op : Op) → op.Answer → Shared → Prop
  | nextLine (bytes : List UInt8) : Performs D s (.nextLine bytes) () s
  | println (line : Line) : Performs D s (.println line) () (s.say line)
  | world (w : World) (hfresh : w.taskId 0 ∉ s.spawned) : Performs D s .world w s
  | iterate {registry ids : List String} (hperm : ids.Perm registry) : Performs D s (.iterate registry) ids s
  | spawn (call : LoopCall) : Performs D s (.spawn call) () (s.spawn D call)
  | isFinished (runId : String) : Performs D s (.isFinished runId) ((s.runs runId).any Run.isFinished) s
  | setHandle (handle : Handle) (runId : String) :
    Performs D s (.setHandle handle runId) () (s.modifyRun runId (Run.setHandle handle))
  | isCancelled (runId : String) : Performs D s (.isCancelled runId) ((s.runs runId).any Run.cancel) s
  | recordApproval (runId : String) : Performs D s (.recordApproval runId) () s
  | serve (request : Request) (answer : Except RunError (List String)) : Performs D s (.serve request) answer s
  | join {runId : String} (hfinished : (s.runs runId).any Run.isFinished = true) : Performs D s (.join runId) () s
  | tryUnwrap : Performs D s .tryUnwrap s.busFree s
  | removed : Performs D s .removeToken (.ok ()) { s with token := false }
  | notRemoved (e : RunError) : Performs D s .removeToken (.error e) s

theorem performs_of_perform {s s' : Shared} {world : (op : Op) → op.Answer} {op : Op} {answer : op.Answer}
    (h : s.perform D world op = some (answer, s')) : Performs D s op answer s' := by
  cases op with
  | world | iterate | join =>
    simp only [Shared.perform] at h
    split_ifs at h
    cases h
    constructor
    assumption
  | removeToken =>
    simp only [Shared.perform, Option.some.injEq, Prod.mk.injEq] at h
    obtain ⟨rfl, rfl⟩ := h
    rcases world .removeToken with e | ⟨⟩
    · simpa [Except.toBool] using Performs.notRemoved (D := D) (s := s) e
    · simpa [Except.toBool] using Performs.removed (D := D) (s := s)
  | _ =>
    cases h
    constructor

/-! ### Steps -/

/-- After a step of a run. -/
def Shared.stepped (s : Shared) (runId : String) (run : Run) (line : Option Line) : Shared :=
  line.elim (s.setRun runId run) (s.setRun runId run).say

/-- A step is an operation of the read loop, or a step of one run. -/
theorem daemonStep_cases {s s' : State} {a : Action} (h : daemonStep D s a = some s') :
    (∃ world op next answer shared, a = .main world ∧ s.main = .ask op next ∧
      s.shared.perform D world op = some (answer, shared) ∧ Performs D s.shared op answer shared ∧
      s' = ⟨next answer, s.log ++ [⟨op, answer⟩], shared⟩) ∨
    ∃ runId action run run' line, a = .run runId action ∧ s.returned = false ∧ s.shared.runs runId = some run ∧
      run.step action = some (run', line) ∧ s' = { s with shared := s.shared.stepped runId run' line } := by
  cases a with
  | main world =>
    rw [daemonStep] at h
    split at h
    · next op next hmain =>
      obtain ⟨⟨answer, shared⟩, hperform, rfl⟩ := Option.map_eq_some_iff.mp h
      exact Or.inl ⟨world, op, next, answer, shared, rfl, hmain, hperform, performs_of_perform hperform, rfl⟩
    · cases h
  | run runId action =>
    rw [daemonStep] at h
    split_ifs at h with hreturned
    obtain ⟨shared, hrun, rfl⟩ := Option.map_eq_some_iff.mp h
    rw [Shared.runStep] at hrun
    split at hrun
    · next run hlookup =>
      obtain ⟨⟨run', line⟩, hstep, rfl⟩ := Option.map_eq_some_iff.mp hrun
      exact Or.inr ⟨runId, action, run, run', line, rfl, by simpa using hreturned, hlookup, hstep, rfl⟩
    · cases hrun

/-! ### What the parts leave alone -/

namespace Shared

variable (s : Shared) (runId : String) (run : Run) (line : Line)

theorem runs_setRun (id : String) : (s.setRun runId run).runs id = if id = runId then some run else s.runs id := by
  simp [setRun, Function.update_apply]

theorem runs_stepped (said : Option Line) (id : String) :
    (s.stepped runId run said).runs id = if id = runId then some run else s.runs id := by
  rw [← runs_setRun]
  cases said <;> rfl

theorem runs_modifyRun (f : Run → Run) (id : String) :
    (s.modifyRun runId f).runs id = if id = runId then (s.runs id).map f else s.runs id := by
  unfold modifyRun
  split
  · next run hrun =>
    rw [runs_setRun]
    split_ifs with hid
    · rw [hid, hrun]
      rfl
    · rfl
  · next hnone =>
    split_ifs with hid
    · rw [hid, hnone]
      rfl
    · rfl

theorem runs_spawn (call : LoopCall) (id : String) :
    (s.spawn D call).runs id = if id = call.task.id then some (.spawn D.externals call) else s.runs id :=
  runs_setRun _ _ _ _

theorem stdout_modifyRun (f : Run → Run) : (s.modifyRun runId f).stdout = s.stdout := by
  unfold modifyRun
  split <;> rfl

theorem spawned_modifyRun (f : Run → Run) : (s.modifyRun runId f).spawned = s.spawned := by
  unfold modifyRun
  split <;> rfl

theorem stdout_stepped (said : Option Line) : (s.stepped runId run said).stdout = s.stdout ++ said.toList := by
  cases said with
  | none => exact (List.append_nil _).symm
  | some line => rfl

theorem spawned_stepped (said : Option Line) : (s.stepped runId run said).spawned = s.spawned := by cases said <;> rfl

theorem token_stepped (said : Option Line) : (s.stepped runId run said).token = s.token := by cases said <;> rfl

theorem token_modifyRun (f : Run → Run) : (s.modifyRun runId f).token = s.token := by
  unfold modifyRun
  split <;> rfl

end Shared

/-! ### Executions -/

/-- Every run satisfies `I`. -/
def EveryRun (I : String → Run → Prop) (s : Shared) : Prop := ∀ id run, s.runs id = some run → I id run

/-- What an operation does to a run: it starts it, sets its handles, or leaves it alone. -/
theorem Performs.runs {s s' : Shared} {op : Op} {answer : op.Answer} (h : Performs D s op answer s') {id : String}
    {run' : Run} (hrun' : s'.runs id = some run') :
    (∃ call, op = .spawn call ∧ call.task.id = id ∧ run' = .spawn D.externals call) ∨
      (∃ handle run, op = .setHandle handle id ∧ s.runs id = some run ∧ run' = run.setHandle handle) ∨
      s.runs id = some run' := by
  cases h with
  | spawn call =>
    rw [Shared.runs_spawn] at hrun'
    split_ifs at hrun' with hid
    · exact Or.inl ⟨call, rfl, hid.symm, (Option.some.inj hrun').symm⟩
    · exact Or.inr (Or.inr hrun')
  | setHandle handle runId =>
    rw [Shared.runs_modifyRun] at hrun'
    split_ifs at hrun' with hid
    · obtain ⟨run, hrun, rfl⟩ := Option.map_eq_some_iff.mp hrun'
      exact Or.inr (Or.inl ⟨handle, run, by rw [hid], hrun, rfl⟩)
    · exact Or.inr (Or.inr hrun')
  | _ => exact Or.inr (Or.inr hrun')

theorem EveryRun.performs {I : String → Run → Prop} (hspawn : ∀ call, I call.task.id (.spawn D.externals call))
    (hhandle : ∀ id run handle, I id run → I id (run.setHandle handle)) {s s' : Shared} {op : Op} {answer : op.Answer}
    (hs : EveryRun I s) (h : Performs D s op answer s') : EveryRun I s' := by
  intro id run' hrun'
  obtain ⟨call, -, rfl, rfl⟩ | ⟨handle, run, -, hrun, rfl⟩ | hrun := h.runs hrun'
  · exact hspawn call
  · exact hhandle id run handle (hs id run hrun)
  · exact hs id run' hrun

theorem EveryRun.stepped {I : String → Run → Prop} {s : Shared} {runId : String} {run : Run} {line : Option Line}
    (hs : EveryRun I s) (hrun : I runId run) : EveryRun I (s.stepped runId run line) := by
  intro id found hfound
  rw [Shared.runs_stepped] at hfound
  split_ifs at hfound with hid
  · cases hfound
    exact hid ▸ hrun
  · exact hs id found hfound

/-- Every run was started. -/
def Listed (s : Shared) : Prop := ∀ id run, s.runs id = some run → id ∈ s.spawned

theorem listed_performs {s s' : Shared} {op : Op} {answer : op.Answer} (hs : Listed s) (h : Performs D s op answer s') :
    Listed s' := by
  intro id run' hrun'
  have hspawned : s.spawned ⊆ s'.spawned := by
    cases h with
    | spawn call => exact List.subset_append_left _ _
    | setHandle => exact (Shared.spawned_modifyRun _ _ _).symm ▸ List.Subset.refl _
    | _ => exact List.Subset.refl _
  obtain ⟨call, rfl, rfl, -⟩ | ⟨_, run, -, hrun, -⟩ | hrun := h.runs hrun'
  · cases h
    exact List.mem_append_right _ (List.mem_singleton_self _)
  · exact hspawned (hs id run hrun)
  · exact hspawned (hs id run' hrun)

theorem listed_stepped {s : Shared} {runId : String} {run run' : Run} {line : Option Line} (hs : Listed s)
    (hrun : s.runs runId = some run) : Listed (s.stepped runId run' line) := by
  intro id found hfound
  rw [Shared.spawned_stepped]
  rw [Shared.runs_stepped] at hfound
  split_ifs at hfound with hid
  · exact hid ▸ hs runId run hrun
  · exact hs id found hfound

/-- A run is under the identifier of its task, and what it has said agrees with how far it is. -/
def ToldUnder (D : Setup) (id : String) (run : Run) : Prop := run.call.task.id = id ∧ Told D.externals run

theorem told_performs {s s' : Shared} {op : Op} {answer : op.Answer} (hs : EveryRun (ToldUnder D) s)
    (h : Performs D s op answer s') : EveryRun (ToldUnder D) s' :=
  hs.performs (fun call => ⟨rfl, told_spawn _ call⟩)
    (fun _ _ handle hrun => ⟨by cases handle <;> exact hrun.1, hrun.2.setHandle handle⟩) h

theorem told_stepped {s : Shared} {runId : String} {run run' : Run} {line : Option Line} (hs : EveryRun (ToldUnder D) s)
    (hrun : s.runs runId = some run) (h : run.StepsTo run' line) : EveryRun (ToldUnder D) (s.stepped runId run' line) := by
  obtain ⟨hid, htold⟩ := hs runId run hrun
  exact hs.stepped ⟨by rw [h.call_eq, hid], htold.step h⟩

theorem told_step {s s' : State} {a : Action} (hs : EveryRun (ToldUnder D) s.shared) (ha : daemonStep D s a = some s') :
    EveryRun (ToldUnder D) s'.shared := by
  rcases daemonStep_cases ha with ⟨_, _, _, _, _, -, -, -, hperforms, rfl⟩ | ⟨_, _, _, _, _, -, -, hrun, hstep, rfl⟩
  · exact told_performs hs hperforms
  · exact told_stepped hs hrun (Run.stepsTo_of_step hstep)

theorem told_start (D : Setup) (stdin : List UInt8) : EveryRun (ToldUnder D) (start D stdin).shared :=
  fun _ _ hrun => by cases hrun

/-- What the read loop has done leads to where it is. -/
theorem leads_step {d : DaemonM Unit} {s s' : State} {a : Action} (hs : Leads d s.log s.main)
    (ha : daemonStep D s a = some s') : Leads d s'.log s'.main := by
  rcases daemonStep_cases ha with ⟨_, op, next, answer, shared, -, hask, -, -, rfl⟩ |
    ⟨_, _, _, _, _, -, -, -, -, rfl⟩
  · rw [hask] at hs
    exact hs.ask answer
  · exact hs

section Keeps

variable {γ : Type*} (P : Protocol Op Op.Answer γ) (Φ : γ → Except RunError Unit → Prop) (R : γ → Shared → Prop) (g : γ)

/-- The read loop keeps to the protocol, and what is kept of it is so related to what is shared. -/
structure Keeps (s : State) : Prop where
  follows : s.main.Follows P Φ (P.after g s.log)
  related : R (P.after g s.log) s.shared

variable {P Φ R g}

theorem Keeps.step (hmain : ∀ g s op answer s', R g s → P.may g op → Performs D s op answer s' →
      P.hears g op answer → R (P.next g op answer) s')
    (hrun : ∀ g s runId run run' line, R g s → s.runs runId = some run → run.StepsTo run' line →
      R g (s.stepped runId run' line))
    {s s' : State} {a : Action} (h : Keeps P Φ R g s) (ha : daemonStep D s a = some s')
    (hhears : ∀ op next answer shared, s.main = .ask op next → Performs D s.shared op answer shared →
      P.hears (P.after g s.log) op answer) : Keeps P Φ R g s' := by
  rcases daemonStep_cases ha with ⟨_, op, next, answer, shared, -, hask, -, hperforms, rfl⟩ |
    ⟨runId, _, run, run', line, -, -, hlookup, hstep, rfl⟩
  · have hfollows := h.follows
    rw [hask] at hfollows
    have hheard := hhears op next answer shared hask hperforms
    refine ⟨?_, ?_⟩ <;> rw [P.after_concat]
    · exact hfollows.2 answer hheard
    · exact hmain _ _ _ _ _ h.related hfollows.1 hperforms hheard
  · exact ⟨h.follows, hrun _ _ _ _ _ _ h.related hlookup (Run.stepsTo_of_step hstep)⟩

end Keeps

end Nerve.Daemon
