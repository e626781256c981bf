import Nerve.Session.Provenance

/-!
# Operator ceilings

A configuration caps what a run may cost, in money and in tokens, and may set a ceiling for the caps
that `/budget` puts in the place of its own. When is a run of a session within the ceiling of the
configuration it is loaded with, and when does it have that configuration's own cap if no `/budget`
named another?

The caps of a session are its `/budget` commands' (`kept_eq_carried`): the last value typed, and
where none was typed the first that some configuration had when `/budget` was used for the other
dimension. They are looked at against the ceiling of that moment only. So a run is governed exactly
when what is carried to it fits the configuration of the run (`governed_iff`); a change of
directory, or of the file, is enough for it not to (`not_governed_elsewhere`).
-/

namespace Nerve.Session

open Nerve.Patch Nerve.Run TransitionSystem Text

/-! ### Dimensions -/

/-- What a run is limited in. -/
inductive Dimension where
  | cost
  | tokens
  deriving DecidableEq, Repr

namespace Dimension

def pick {α : Type} (cost tokens : α) : Dimension → α
  | .cost => cost
  | .tokens => tokens

variable (d : Dimension)

/-- The cap a configuration sets. -/
def cap (o : Orchestration) : Option Nat := d.pick o.maxEstimatedCostMicrousd o.maxTotalTokens

def ceiling (loaded : LoadedConfig) : Option Nat := d.pick loaded.budgetCostMicrousdCeiling loaded.budgetTokensCeiling

/-- The cap a session keeps. -/
def kept (state : InteractiveState) : Option Nat := d.pick state.budgetOverrideCostMicrousd state.budgetOverrideTokens

end Dimension

/-! ### One command -/

section Command

variable {R : Readers} {w : World}

theorem raiseLimit_eq_ok {label unit : String} {ceiling current requested : Option Nat} {force asked : Bool}
    {r : Option Nat × Bool} (h : raiseLimit w label unit ceiling current requested force asked = .ok r) :
    r.1 = (requested <|> current) ∧ ∀ cap limit, requested = some cap → ceiling = some limit → cap ≤ limit := by
  cases requested with
  | none =>
    cases h
    exact ⟨rfl, nofun⟩
  | some requested =>
    rw [raiseLimit] at h
    split_ifs at h with hexceeds hconfirm
    · obtain ⟨confirmed, -, h⟩ := bind_eq_ok.mp h
      cases confirmed with
      | false => cases h
      | true =>
        cases h
        refine ⟨rfl, fun cap limit hcap hlimit => ?_⟩
        cases hcap
        simpa [hlimit] using hexceeds
    · cases h
      refine ⟨rfl, fun cap limit hcap hlimit => ?_⟩
      cases hcap
      simpa [hlimit] using hexceeds

/-- A `/budget` that goes through shows the caps, or sets both: what was typed is within the
ceiling; the other is what was kept, or the configuration's. -/
theorem handleBudgetCommand_eq_ok {args : List String} {state state' : InteractiveState} {cwd : PathBuf}
    (h : handleBudgetCommand R w args state cwd = .ok state') :
    (parseBudgetArgs args = .ok .show ∧ state' = state) ∨
    ∃ cost tokens force loaded, parseBudgetArgs args = .ok (.set cost tokens force) ∧ loadFrom R w cwd = .ok loaded ∧
      ∀ d : Dimension, d.kept state' = (d.pick cost tokens <|> d.kept state <|> d.cap loaded.config.orchestration) ∧
        ∀ cap limit, d.pick cost tokens = some cap → d.ceiling loaded = some limit → cap ≤ limit := by
  unfold handleBudgetCommand at h
  split_ifs at h
  obtain ⟨action, haction, h⟩ := bind_eq_ok.mp h
  rw [mapError_eq_ok] at haction
  obtain ⟨loaded, hloaded, h⟩ := bind_eq_ok.mp h
  cases action with
  | «show» =>
    cases h
    exact Or.inl ⟨haction, rfl⟩
  | set cost tokens force =>
    obtain ⟨⟨newCost, asked⟩, hcost, h⟩ := bind_eq_ok.mp h
    obtain ⟨⟨newTokens, asked'⟩, htokens, h⟩ := bind_eq_ok.mp h
    obtain ⟨_, -, h⟩ := bind_eq_ok.mp h
    cases h
    refine Or.inr ⟨cost, tokens, force, loaded, haction, hloaded, fun d => ?_⟩
    cases d with
    | cost => exact raiseLimit_eq_ok hcost
    | tokens => exact raiseLimit_eq_ok htokens

end Command

/-! ### What a session's commands leave -/

/-- A `/budget` that set caps: the values typed, and the configuration of the moment. -/
structure Budgeted where
  cost : Option Nat
  tokens : Option Nat
  loaded : LoadedConfig

/-- The caps that a `/budget` with these arguments sets, if it goes through. -/
def budgetedBy (R : Readers) (w : World) (args : List String) (state : InteractiveState) (cwd : PathBuf) :
    Option Budgeted :=
  match handleBudgetCommand R w args state cwd, parseBudgetArgs args, loadFrom R w cwd with
  | .ok _, .ok (.set cost tokens _), .ok loaded => some ⟨cost, tokens, loaded⟩
  | _, _, _ => none

def budgeted (R : Readers) (s : Shell) (i : Input) : Option Budgeted :=
  match s.command i.line, i.world.currentDir with
  | some command, .ok cwd =>
    match words command with
    | "budget" :: args => budgetedBy R i.world args s.state cwd
    | _ => none
  | _, _ => none

/-- The cap carried from the commands to the next run: the last value typed, or the first that a
configuration had. -/
def Dimension.carried (d : Dimension) (budgets : List Budgeted) : Option Nat :=
  (budgets.filterMap fun b => d.pick b.cost b.tokens).getLast? <|>
    (budgets.filterMap fun b => d.cap b.loaded.config.orchestration).head?

section Commands

variable {R : Readers} (d : Dimension)

theorem setMode_kept (mode : String) (state : InteractiveState) : d.kept (setMode mode state) = d.kept state := by
  unfold setMode
  split_ifs <;> rfl

theorem setAdapter_kept (adapter : String) (state : InteractiveState) :
    d.kept (setAdapter adapter state) = d.kept state := by
  unfold setAdapter
  split_ifs <;> rfl

theorem refreshActiveGoal_kept (files : Files) (state : InteractiveState) (cwd : PathBuf) :
    d.kept (refreshActiveGoal R files state cwd) = d.kept state := by
  unfold refreshActiveGoal
  split <;> rfl

variable {w : World}

theorem registerGoal_kept {state state' : InteractiveState} {spec : GoalSpec} {screening : String}
    (h : registerGoal w state spec screening = .ok state') : d.kept state' = d.kept state := by
  obtain ⟨_, -, h⟩ := bind_eq_ok.mp h
  obtain ⟨_, -, h⟩ := bind_eq_ok.mp h
  cases h
  rfl

theorem handleGoalCommand_kept {args : List String} {raw : List Char} {state state' : InteractiveState} {cwd : PathBuf}
    (h : handleGoalCommand R w args raw state cwd = .ok state') : d.kept state' = d.kept state := by
  unfold handleGoalCommand at h
  split at h
  · cases h
  · cases h
    rfl
  · cases h
    rfl
  · exact registerGoal_kept d h
  · unfold registerGoalFromNaturalLanguage at h
    split_ifs at h
    obtain ⟨_, -, h⟩ := bind_eq_ok.mp h
    obtain ⟨proposed, -, h⟩ := bind_eq_ok.mp h
    obtain ⟨confirmed, -, h⟩ := bind_eq_ok.mp h
    cases confirmed with
    | false =>
      cases h
      rfl
    | true =>
      obtain ⟨_, -, h⟩ := bind_eq_ok.mp h
      exact registerGoal_kept d h

theorem budgeted_eq_none {s : Shell} {i : Input} (h : ∀ command args, s.command i.line = some command →
    words command ≠ "budget" :: args) : budgeted R s i = none := by
  unfold budgeted
  split
  · split
    · exact absurd ‹_› (h _ _ ‹_›)
    · rfl
  · rfl

theorem handleInteractiveCommand_budget {command : List Char} {args : List String} {cwd : PathBuf}
    (hcwd : w.currentDir = .ok cwd) (hwords : words command = "budget" :: args) (state : InteractiveState) :
    handleInteractiveCommand R w command state =
      .ofState ((handleBudgetCommand R w args state cwd).toOption.getD state) := by
  rw [handleInteractiveCommand, hcwd, hwords]
  rfl

theorem budgeted_of_budget {s : Shell} {i : Input} {command : List Char} {args : List String} {cwd : PathBuf}
    (hcommand : s.command i.line = some command) (hcwd : i.world.currentDir = .ok cwd)
    (hwords : words command = "budget" :: args) : budgeted R s i = budgetedBy R i.world args s.state cwd := by
  rw [budgeted, hcommand, hcwd]
  dsimp only
  rw [hwords]
  rfl

/-- A `/budget` sets both caps, if it sets any. -/
theorem handleInteractiveCommand_kept_of_budget {s : Shell} {i : Input} {command : List Char} {args : List String}
    (hcommand : s.command i.line = some command) (hwords : words command = "budget" :: args) :
    d.kept (handleInteractiveCommand R i.world command s.state).state = match budgeted R s i with
      | some b => d.pick b.cost b.tokens <|> d.kept s.state <|> d.cap b.loaded.config.orchestration
      | none => d.kept s.state := by
  rcases hcwd : i.world.currentDir with e | cwd
  · rw [handleInteractiveCommand, budgeted, hcommand, hcwd]
    rfl
  rw [handleInteractiveCommand_budget hcwd hwords, budgeted_of_budget hcommand hcwd hwords, budgetedBy]
  rcases hrun : handleBudgetCommand R i.world args s.state cwd with e | state'
  · rfl
  rcases handleBudgetCommand_eq_ok hrun with ⟨hshow, rfl⟩ | ⟨cost, tokens, force, loaded, hset, hloaded, hkept⟩
  · rw [hshow]
    rfl
  · rw [hset, hloaded]
    exact (hkept d).1

theorem handleInteractiveCommand_kept_of_other {command : List Char} {state : InteractiveState}
    (hwords : ∀ args, words command ≠ "budget" :: args) :
    d.kept (handleInteractiveCommand R w command state).state = d.kept state := by
  have h := handleInteractiveCommand_effect (R := R) (w := w) command state
  generalize handleInteractiveCommand R w command state = o at h ⊢
  cases h with
  | nothing | template | benchmark | quit => rfl
  | mode mode => exact setMode_kept d mode state
  | adapter adapter => exact setAdapter_kept d adapter state
  | cd => exact refreshActiveGoal_kept d _ state _
  | goal _ h => exact handleGoalCommand_kept d h
  | budget hbudget => exact absurd hbudget (hwords _)

/-- **One line** leaves the caps alone, or is a `/budget` and sets both. -/
theorem step_kept {s t : Shell} {i : Input} (h : step R s i = some t) :
    d.kept t.state = match budgeted R s i with
      | some b => d.pick b.cost b.tokens <|> d.kept s.state <|> d.cap b.loaded.config.orchestration
      | none => d.kept s.state := by
  have hquiet (hnone : s.command i.line = none) : budgeted R s i = none :=
    budgeted_eq_none fun command _ hcommand => by rw [hnone] at hcommand; cases hcommand
  rw [step_eq_some h]
  have heffect := processInteractiveInput_effect (R := R) (w := i.world) i.line s
  generalize (processInteractiveInput R i.world i.line s).1 = o at heffect ⊢
  cases heffect with
  | nothing hnone =>
    rw [hquiet hnone]
    rfl
  | task hnone prompt =>
    rw [hquiet hnone]
    rfl
  | @command command hcommand =>
    by_cases hbudget : ∃ args, words command = "budget" :: args
    · obtain ⟨args, hwords⟩ := hbudget
      exact handleInteractiveCommand_kept_of_budget d hcommand hwords
    · have hother : ∀ args, words command ≠ "budget" :: args := fun args h => hbudget ⟨args, h⟩
      rw [handleInteractiveCommand_kept_of_other d hother, budgeted_eq_none]
      intro command' args hcommand'
      obtain rfl := Option.some.inj (hcommand.symm.trans hcommand')
      exact hother args

theorem carried_concat (budgets : List Budgeted) (b : Budgeted) : d.carried (budgets ++ [b]) =
    (d.pick b.cost b.tokens <|> d.carried budgets <|> d.cap b.loaded.config.orchestration) := by
  unfold Dimension.carried
  rw [List.filterMap_append, List.filterMap_append, List.getLast?_append, List.head?_append]
  cases hpick : d.pick b.cost b.tokens <;> cases hcap : d.cap b.loaded.config.orchestration <;>
    simp [hpick, hcap]

/-- **A session's caps** are those its commands leave. -/
theorem kept_eq_carried {apply mock : Bool} {worktreeOverride : Option Bool} {s₀ s : Shell} {before : List Input}
    (hstart : start R w apply mock worktreeOverride = .ok s₀) (hrun : run (step R) s₀ before = some s) :
    d.kept s.state = d.carried (outputs (step R) (budgeted R) s₀ before) := by
  refine run_induction (I := fun before s => d.kept s.state = d.carried (outputs (step R) (budgeted R) s₀ before))
    ?_ ?_ hrun
  · obtain ⟨cwd, -, h⟩ := bind_eq_ok.mp hstart
    cases h
    rw [refreshActiveGoal_kept]
    cases d <;> rfl
  · intro before s i t hrun ih hstep
    rw [outputs_concat hrun hstep, step_kept d hstep, ih]
    rcases budgeted R s i with _ | b
    · rw [Option.toList_none, List.append_nil]
    · exact (carried_concat d _ b).symm

end Commands

/-! ### Runs -/

/-- The line calls the loop for a benchmark. -/
def benchmarks (s : Shell) (i : Input) : Bool :=
  ((s.command i.line).bind fun command => (words command).head?) == some "benchmark"

/-- The cap that a run of the line takes from `/budget`. -/
def Dimension.override (d : Dimension) (s : Shell) (i : Input) : Option Nat :=
  if benchmarks s i then none else d.kept s.state

/-- The values that the line has in a `/budget`, whatever comes of it. -/
def typedValues (s : Shell) (i : Input) : Option Nat × Option Nat :=
  match (s.command i.line).map words with
  | some ("budget" :: args) =>
    match parseBudgetArgs args with
    | .ok (.set cost tokens _) => (cost, tokens)
    | _ => (none, none)
  | _ => (none, none)

abbrev Names (d : Dimension) (s : Shell) (i : Input) : Prop := (d.pick (typedValues s i).1 (typedValues s i).2).isSome

/-- No line so far names the dimension. -/
def Unnamed (R : Readers) (d : Dimension) (s₀ : Shell) (before : List Input) : Prop :=
  Meets (step R) (fun s i => ¬ Names d s i) s₀ before

/-- What the operator is promised of a run: the configuration's ceiling holds for a cap that comes
from `/budget`, and the cap is the configuration's own if no `/budget` named the dimension. -/
structure Governed (d : Dimension) (s : Shell) (i : Input) (unnamed : Prop) (call : LoopCall) (loaded : LoadedConfig) :
    Prop where
  ceiling : (d.override s i).isSome → ∀ cap limit, d.cap call.config.orchestration = some cap →
    d.ceiling loaded = some limit → cap ≤ limit
  own : unnamed → d.cap call.config.orchestration = d.cap loaded.config.orchestration

section Runs

variable {R : Readers} {w : World} {d : Dimension}

variable (d) in
theorem runReportWithOverrides_cap {prompt : String} {apply : Bool} {goal : Option GoalSpec} {cost tokens : Option Nat}
    {worktree : Option Bool} {call : LoopCall}
    (h : runReportWithOverrides R w prompt apply goal cost tokens worktree = .ok call) :
    ∃ loaded, loadFrom R w call.task.cwd = .ok loaded ∧
      d.cap call.config.orchestration = (d.pick cost tokens <|> d.cap loaded.config.orchestration) := by
  obtain ⟨cwd, -, h⟩ := bind_eq_ok.mp h
  obtain ⟨loaded, hloaded, h⟩ := bind_eq_ok.mp h
  cases h
  exact ⟨loaded, hloaded, by cases d <;> rfl⟩

variable (d) in
/-- The cap of a run: what it takes from `/budget`, or else what its own configuration sets. -/
theorem cap_of_mem_calls {s : Shell} {i : Input} {call : LoopCall}
    (h : call ∈ (processInteractiveInput R i.world i.line s).1.calls) :
    ∃ loaded, loadFrom R i.world call.task.cwd = .ok loaded ∧
      d.cap call.config.orchestration = (d.override s i <|> d.cap loaded.config.orchestration) := by
  have heffect := processInteractiveInput_effect (R := R) (w := i.world) i.line s
  generalize (processInteractiveInput R i.world i.line s).1 = o at heffect h
  cases heffect with
  | nothing => exact absurd h List.not_mem_nil
  | task hnone prompt =>
    have hno : benchmarks s i = false := by rw [benchmarks, hnone]; rfl
    rw [Dimension.override, hno]
    exact runReportWithOverrides_cap d (mem_runInteractiveTask h)
  | @command command hcommand =>
    have hline : benchmarks s i = ((words command).head? == some "benchmark") := by rw [benchmarks, hcommand]; rfl
    have hc := handleInteractiveCommand_effect (R := R) (w := i.world) command s.state
    generalize handleInteractiveCommand R i.world command s.state = o at hc h
    cases hc with
    | template hwords prompt =>
      rw [Dimension.override, hline, hwords]
      exact runReportWithOverrides_cap d (mem_runInteractiveTask h)
    | benchmark hwords target rest =>
      obtain ⟨loaded, hloaded, hconfig, -⟩ := mem_runBenchmark h
      refine ⟨loaded, hloaded, ?_⟩
      rw [Dimension.override, hline, hwords, hconfig]
      rfl
    | _ => exact absurd h List.not_mem_nil

/-- It is the cap taken from `/budget` that decides. -/
theorem governed_iff_of_cap {s : Shell} {i : Input} {unnamed : Prop} {call : LoopCall} {loaded : LoadedConfig}
    (hcap : d.cap call.config.orchestration = (d.override s i <|> d.cap loaded.config.orchestration)) :
    Governed d s i unnamed call loaded ↔ ∀ cap, d.override s i = some cap →
      (∀ limit, d.ceiling loaded = some limit → cap ≤ limit) ∧
      (unnamed → d.cap loaded.config.orchestration = some cap) := by
  rcases htaken : d.override s i with _ | taken
  · rw [htaken] at hcap
    refine iff_of_true ⟨fun h => ?_, fun _ => hcap⟩ nofun
    rw [htaken] at h
    cases h
  rw [htaken] at hcap
  constructor
  · intro h cap hsome
    obtain rfl := Option.some.inj hsome
    refine ⟨fun limit hlimit => h.ceiling (by rw [htaken]; rfl) _ _ hcap hlimit, fun hunnamed => ?_⟩
    rw [← h.own hunnamed, hcap]
    rfl
  · intro h
    obtain ⟨hwithin, hsame⟩ := h taken rfl
    refine ⟨fun _ cap limit hc hlimit => ?_, fun hunnamed => ?_⟩
    · obtain rfl := Option.some.inj (hcap.symm.trans hc)
      exact hwithin limit hlimit
    · rw [hcap, hsame hunnamed]
      rfl

variable (d) in
/-- A run takes from `/budget` what is carried to it, unless it is a benchmark's. -/
theorem override_eq_some_iff {apply mock : Bool} {worktreeOverride : Option Bool} {s₀ s : Shell} {before : List Input}
    (hstart : start R w apply mock worktreeOverride = .ok s₀) (hrun : run (step R) s₀ before = some s) (i : Input)
    (cap : Nat) : d.override s i = some cap ↔
      benchmarks s i = false ∧ d.carried (outputs (step R) (budgeted R) s₀ before) = some cap := by
  rw [Dimension.override, ← kept_eq_carried d hstart hrun]
  cases benchmarks s i with
  | true => simp
  | false => simp

/-- **Which runs are governed**: the benchmarks, and every run to which nothing is carried or a cap
that is within the ceiling of its configuration and, if no line named the dimension, the one this
configuration sets itself. -/
theorem governed_iff {apply mock : Bool} {worktreeOverride : Option Bool} {s₀ s : Shell} {before : List Input} {i : Input}
    {call : LoopCall} (hstart : start R w apply mock worktreeOverride = .ok s₀)
    (hrun : run (step R) s₀ before = some s) (hcall : call ∈ (processInteractiveInput R i.world i.line s).1.calls) :
    ∃ loaded, loadFrom R i.world call.task.cwd = .ok loaded ∧
      (Governed d s i (Unnamed R d s₀ before) call loaded ↔
        benchmarks s i = true ∨ ∀ cap, d.carried (outputs (step R) (budgeted R) s₀ before) = some cap →
          (∀ limit, d.ceiling loaded = some limit → cap ≤ limit) ∧
          (Unnamed R d s₀ before → d.cap loaded.config.orchestration = some cap)) := by
  obtain ⟨loaded, hloaded, hcap⟩ := cap_of_mem_calls d hcall
  refine ⟨loaded, hloaded, ?_⟩
  rw [governed_iff_of_cap hcap]
  simp only [override_eq_some_iff d hstart hrun]
  cases benchmarks s i with
  | true => simp
  | false => simp

/-! ### A configuration that stays -/

theorem budgetedBy_eq_some {args : List String} {state : InteractiveState} {cwd : PathBuf} {b : Budgeted}
    (h : budgetedBy R w args state cwd = some b) : (∃ force, parseBudgetArgs args = .ok (.set b.cost b.tokens force)) ∧
      ∀ cap limit, d.pick b.cost b.tokens = some cap → d.ceiling b.loaded = some limit → cap ≤ limit := by
  unfold budgetedBy at h
  split at h
  · rename_i hhandle hparse hload
    cases h
    rcases handleBudgetCommand_eq_ok hhandle with ⟨hshow, -⟩ | ⟨cost, tokens, force, loaded, hset, hloaded, hkept⟩
    · rw [hshow] at hparse
      cases hparse
    · rw [hset] at hparse
      cases hparse
      rw [hloaded] at hload
      cases hload
      exact ⟨⟨_, hset⟩, (hkept d).2⟩
  · cases h

theorem budgeted_eq_some {s : Shell} {i : Input} {b : Budgeted} (h : budgeted R s i = some b) :
    typedValues s i = (b.cost, b.tokens) ∧
      ∀ cap limit, d.pick b.cost b.tokens = some cap → d.ceiling b.loaded = some limit → cap ≤ limit := by
  unfold budgeted at h
  split at h
  · rename_i hcommand hcwd
    split at h
    · rename_i hwords
      obtain ⟨⟨force, hset⟩, hwithin⟩ := budgetedBy_eq_some (d := d) h
      refine ⟨?_, hwithin⟩
      rw [typedValues, hcommand, Option.map_some, hwords]
      simp only [hset]
    · cases h
  · cases h

theorem exists_of_carried {budgets : List Budgeted} {cap : Nat} (h : d.carried budgets = some cap) :
    ∃ b ∈ budgets, d.pick b.cost b.tokens = some cap ∨ d.cap b.loaded.config.orchestration = some cap := by
  unfold Dimension.carried at h
  rcases hlast : (budgets.filterMap fun b => d.pick b.cost b.tokens).getLast? with _ | typed
  · rw [hlast] at h
    obtain ⟨b, hb, hcap⟩ := List.mem_filterMap.mp (List.mem_of_head? h)
    exact ⟨b, hb, Or.inr hcap⟩
  · rw [hlast] at h
    obtain ⟨b, hb, hcap⟩ := List.mem_filterMap.mp (List.mem_of_getLast? hlast)
    exact ⟨b, hb, Or.inl (hcap.trans h)⟩

/-- Where every `/budget` finds the limits that a run is loaded with, and these agree with one
another, the run is governed. -/
theorem governed_of_steady {apply mock : Bool} {worktreeOverride : Option Bool} {s₀ s : Shell} {before : List Input}
    {i : Input} {call : LoopCall} {loaded : LoadedConfig} (hstart : start R w apply mock worktreeOverride = .ok s₀)
    (hrun : run (step R) s₀ before = some s) (hcall : call ∈ (processInteractiveInput R i.world i.line s).1.calls)
    (hloaded : loadFrom R i.world call.task.cwd = .ok loaded)
    (hsteady : ∀ b ∈ outputs (step R) (budgeted R) s₀ before, d.ceiling b.loaded = d.ceiling loaded ∧
      d.cap b.loaded.config.orchestration = d.cap loaded.config.orchestration)
    (hown : ∀ cap limit, d.cap loaded.config.orchestration = some cap → d.ceiling loaded = some limit → cap ≤ limit) :
    Governed d s i (Unnamed R d s₀ before) call loaded := by
  obtain ⟨loaded', hloaded', hcap⟩ := cap_of_mem_calls d hcall
  obtain rfl := Except.ok.inj (hloaded'.symm.trans hloaded)
  rw [governed_iff_of_cap hcap]
  intro cap hsome
  obtain ⟨b, hb, hcarried⟩ := exists_of_carried ((override_eq_some_iff d hstart hrun i cap).mp hsome).2
  obtain ⟨hceiling, hsame⟩ := hsteady b hb
  rcases hcarried with htyped | hconfigured
  · refine ⟨fun limit hlimit => ?_, fun hunnamed => ?_⟩
    · obtain ⟨u, a, -, hbudgeted⟩ := exists_of_mem_outputs (C := fun _ _ => True) hrun
        (meets_of_forall (fun _ _ => trivial) _ _) hb
      exact (budgeted_eq_some hbudgeted).2 cap limit htyped (hceiling.trans hlimit)
    · obtain ⟨u, a, hno, hbudgeted⟩ := exists_of_mem_outputs hrun hunnamed hb
      rw [Names, (budgeted_eq_some (d := d) hbudgeted).1, htyped] at hno
      exact absurd rfl hno
  · rw [hsame] at hconfigured
    exact ⟨fun limit hlimit => hown cap limit hconfigured hlimit, fun _ => hconfigured⟩

end Runs

/-! ### Two workspaces -/

/-- Other crates as far as the sample sessions go: a configuration with a cap on tokens, and one
with a ceiling for costs. -/
def capReaders : Readers where
  goalSpec _ := .error ["expected value"]
  config raw :=
    let config := sampleConfig .leadPriority
    if raw = "capped" then
      .ok ⟨{ config with orchestration := { config.orchestration with maxTotalTokens := some 1000 } }, [], none, none⟩
    else .ok ⟨config, [], some 1000000, none⟩
  defaultConfig := .error ["expected value"]

/-- A machine with two workspaces, whose session is in one of them. -/
def twoWorkspaces (cwd : String) : World where
  files path :=
    if path.text = "/work/nerve.config.json" then some (.ok "capped")
    else if path.text = "/strict/nerve.config.json" then some (.ok "bounded")
    else none
  home := none
  userProfile := none
  currentDir := .ok ⟨cwd⟩
  setCurrentDir _ := .ok ()
  taskId _ := "task"
  collectContextPaths _ _ := []
  raiseAnswer _ := "yes"
  appendBudgetAuditEntry _ _ _ _ := .ok ()
  tempDir := ⟨"/tmp"⟩
  iterationsBegun := 0
  now := "20260101T000000Z"
  stdinIsTerminal := true
  convert _ := .error []
  confirmGoalIntent := .ok false
  appendGoalHistory := .ok ()
  writeActiveGoal _ := .ok ()

def typedIn (cwd line : String) : Input := ⟨twoWorkspaces cwd, line.toList⟩

/-- A cap within the ceiling of the workspace it is typed and used in. -/
theorem governed_iff_strict : ∃ s₀ s call loaded,
    start capReaders (twoWorkspaces "/strict") false true none = .ok s₀ ∧
    run (step capReaders) s₀ [typedIn "/strict" "/budget cost=$0.75"] = some s ∧
    call ∈ (processInteractiveInput capReaders (twoWorkspaces "/strict") "add a file".toList s).1.calls ∧
    loadFrom capReaders (twoWorkspaces "/strict") call.task.cwd = .ok loaded ∧
    Governed .cost s (typedIn "/strict" "add a file")
      (Unnamed capReaders .cost s₀ [typedIn "/strict" "/budget cost=$0.75"]) call loaded := by
  obtain ⟨loaded, hloaded, hiff⟩ := @governed_iff capReaders (twoWorkspaces "/strict") .cost false true none _ _
    [typedIn "/strict" "/budget cost=$0.75"] (typedIn "/strict" "add a file") _ rfl rfl (List.mem_singleton.mpr rfl)
  refine ⟨_, _, _, loaded, rfl, rfl, List.mem_singleton.mpr rfl, hloaded, hiff.mpr (Or.inr fun cap hcap => ?_)⟩
  cases hloaded
  cases hcap
  exact ⟨fun limit hlimit => by cases hlimit; decide, fun hunnamed => absurd (by decide) (hunnamed _ rfl).1⟩

/-- **A cap that is carried along**: typed where there is no ceiling, above that of the next
workspace; and with it the cap on tokens of the first workspace, which no line has named. -/
theorem not_governed_elsewhere : ∃ s₀ s call loaded,
    start capReaders (twoWorkspaces "/work") false true none = .ok s₀ ∧
    run (step capReaders) s₀ [typedIn "/work" "/budget cost=$5", typedIn "/work" "/cd /strict"] = some s ∧
    call ∈ (processInteractiveInput capReaders (twoWorkspaces "/strict") "add a file".toList s).1.calls ∧
    loadFrom capReaders (twoWorkspaces "/strict") call.task.cwd = .ok loaded ∧
    ¬ Governed .cost s (typedIn "/strict" "add a file")
      (Unnamed capReaders .cost s₀ [typedIn "/work" "/budget cost=$5", typedIn "/work" "/cd /strict"]) call loaded ∧
    ¬ Governed .tokens s (typedIn "/strict" "add a file")
      (Unnamed capReaders .tokens s₀ [typedIn "/work" "/budget cost=$5", typedIn "/work" "/cd /strict"]) call loaded := by
  refine ⟨_, _, _, _, rfl, rfl, List.mem_singleton.mpr rfl, rfl, fun h => ?_, fun h => ?_⟩
  · exact absurd (h.ceiling (by decide) 5000000 1000000 rfl rfl) (by decide)
  · refine absurd (h.own (.cons rfl (by decide) (.cons rfl (by decide) trivial))) (by decide)

end Nerve.Session
