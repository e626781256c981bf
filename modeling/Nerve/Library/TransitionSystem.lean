import Mathlib.Data.List.Induction
import Mathlib.Tactic.Common

/-!
# Transition systems

A system is a step function: the state after an action, if the action can happen. A run is a
list of actions. `Always` says something of every state a run passes through, `Meets`
something of every action together with the state it happens in, and `always_of_meets` is
the induction along a run. Where a condition on the steps is exactly what keeps a
property true, `always_iff_meets` says so.
-/

namespace Nerve.TransitionSystem

universe u v

variable {σ : Type u} {α : Type v} (step : σ → α → Option σ)

/-- The state after the actions, if each can happen in its turn. -/
def run (s : σ) : List α → Option σ
  | [] => some s
  | a :: as => (step s a).bind fun t => run t as

/-- Every state of the run satisfies `P`, up to the first action that cannot happen. -/
def Always (P : σ → Prop) : σ → List α → Prop
  | s, [] => P s
  | s, a :: as => P s ∧ ∀ t, step s a = some t → Always P t as

/-- Every action of the run meets `C` in the state it happens in. -/
def Meets (C : σ → α → Prop) : σ → List α → Prop
  | _, [] => True
  | s, a :: as => ∀ t, step s a = some t → C s a ∧ Meets C t as

/-- What the actions of the run put out, each in the state it happens in. -/
def outputs {β : Type*} (out : σ → α → Option β) : σ → List α → List β
  | _, [] => []
  | s, a :: as => (out s a).toList ++ ((step s a).map fun t => outputs out t as).getD []

variable {step} {P Q Inv : σ → Prop} {C : σ → α → Prop}

theorem Meets.cons {s t : σ} {a : α} {as : List α} (ht : step s a = some t) (hC : C s a) (h : Meets step C t as) :
    Meets step C s (a :: as) := by
  intro u hu
  rw [ht] at hu
  cases hu
  exact ⟨hC, h⟩

theorem Meets.mono {D : σ → α → Prop} (hCD : ∀ s a, C s a → D s a) {s : σ} {as : List α} (h : Meets step C s as) :
    Meets step D s as := by
  induction as generalizing s with
  | nil => trivial
  | cons a as ih =>
    intro t ht
    obtain ⟨hC, hrest⟩ := h t ht
    exact ⟨hCD s a hC, ih hrest⟩

theorem meets_of_forall (h : ∀ s a, C s a) (s : σ) (as : List α) : Meets step C s as := by
  induction as generalizing s with
  | nil => trivial
  | cons a as ih => exact fun t _ => ⟨h s a, ih t⟩

theorem meets_of_mem {D : α → Prop} {as : List α} (h : ∀ a ∈ as, D a) {s : σ} : Meets step (fun _ a => D a) s as := by
  induction as generalizing s with
  | nil => trivial
  | cons a as ih =>
    obtain ⟨ha, has⟩ := List.forall_mem_cons.mp h
    exact fun t _ => ⟨ha, ih has⟩

theorem Always.head {s : σ} {as : List α} (h : Always step P s as) : P s := by
  cases as with
  | nil => exact h
  | cons a as => exact h.1

theorem Always.mono (hPQ : ∀ s, P s → Q s) {s : σ} {as : List α} (h : Always step P s as) : Always step Q s as := by
  induction as generalizing s with
  | nil => exact hPQ s h
  | cons a as ih => exact ⟨hPQ s h.1, fun t ht => ih (h.2 t ht)⟩

theorem Always.and {s : σ} {as : List α} (h : Always step P s as) (h' : Always step Q s as) :
    Always step (fun s => P s ∧ Q s) s as := by
  induction as generalizing s with
  | nil => exact ⟨h, h'⟩
  | cons a as ih => exact ⟨⟨h.1, h'.1⟩, fun t ht => ih (h.2 t ht) (h'.2 t ht)⟩

/-- **Induction along a run**: what holds at first and is kept by the actions that meet the condition. -/
theorem always_of_meets (hkeep : ∀ s a t, Inv s → C s a → step s a = some t → Inv t) {s : σ} {as : List α}
    (hs : Inv s) (h : Meets step C s as) : Always step Inv s as := by
  induction as generalizing s with
  | nil => exact hs
  | cons a as ih =>
    refine ⟨hs, fun t ht => ?_⟩
    obtain ⟨hC, hrest⟩ := h t ht
    exact ih (hkeep s a t hs hC ht) hrest

theorem run_append {s : σ} {as as' : List α} : run step s (as ++ as') = (run step s as).bind fun t => run step t as' := by
  induction as generalizing s with
  | nil => rfl
  | cons a as ih =>
    rw [List.cons_append, run, run]
    rcases step s a with _ | t
    · rfl
    · exact ih

theorem meets_append {s t : σ} {as as' : List α} (h : run step s as = some t) :
    Meets step C s (as ++ as') ↔ Meets step C s as ∧ Meets step C t as' := by
  induction as generalizing s with
  | nil =>
    cases h
    exact (true_and _).to_iff.symm
  | cons a as ih =>
    obtain ⟨u, hu, h⟩ := Option.bind_eq_some_iff.mp h
    rw [List.cons_append, Meets, Meets, hu]
    simp only [Option.some.injEq, forall_eq', ih h, and_assoc]

theorem outputs_append {β : Type*} {out : σ → α → Option β} {s t : σ} {as as' : List α} (h : run step s as = some t) :
    outputs step out s (as ++ as') = outputs step out s as ++ outputs step out t as' := by
  induction as generalizing s with
  | nil =>
    cases h
    rfl
  | cons a as ih =>
    obtain ⟨u, hu, h⟩ := Option.bind_eq_some_iff.mp h
    rw [List.cons_append, outputs, outputs, hu, Option.map_some, Option.map_some, Option.getD_some, Option.getD_some, ih h,
      List.append_assoc]

/-- The last action adds what it puts out in the state before it. -/
theorem outputs_concat {β : Type*} {out : σ → α → Option β} {s t u : σ} {as : List α} {a : α}
    (h : run step s as = some t) (ha : step t a = some u) :
    outputs step out s (as ++ [a]) = outputs step out s as ++ (out t a).toList := by
  rw [outputs_append h, outputs, ha]
  exact congrArg _ (List.append_nil _)

/-- What a run puts out, one of its actions puts out. -/
theorem exists_of_mem_outputs {β : Type*} {out : σ → α → Option β} {s t : σ} {as : List α} (h : run step s as = some t)
    (hC : Meets step C s as) {b : β} (hb : b ∈ outputs step out s as) : ∃ u a, C u a ∧ out u a = some b := by
  induction as generalizing s with
  | nil => exact absurd hb List.not_mem_nil
  | cons a as ih =>
    obtain ⟨u, hu, h⟩ := Option.bind_eq_some_iff.mp h
    obtain ⟨hCa, hC⟩ := hC u hu
    rw [outputs, hu, Option.map_some, Option.getD_some, List.mem_append, Option.mem_toList] at hb
    rcases hb with hb | hb
    · exact ⟨s, a, hCa, hb⟩
    · exact ih h hC hb

/-- **Induction on the end of a run**, of a statement about the run and the state it leads to. -/
theorem run_induction {I : List α → σ → Prop} {s : σ} (hs : I [] s)
    (hstep : ∀ as t a u, run step s as = some t → I as t → step t a = some u → I (as ++ [a]) u) {as : List α} {t : σ}
    (h : run step s as = some t) : I as t := by
  induction as using List.reverseRecOn generalizing t with
  | nil =>
    cases h
    exact hs
  | append_singleton as a ih =>
    rw [run_append] at h
    obtain ⟨u, hu, h⟩ := Option.bind_eq_some_iff.mp h
    obtain ⟨v, hv, h⟩ := Option.bind_eq_some_iff.mp h
    cases h
    exact hstep as u a t hu (ih hu) hv

/-- If an action that misses the condition makes the property false, the property holds along a run
exactly when the condition does. -/
theorem always_iff_meets (hP : ∀ s, Inv s → P s)
    (hkeep : ∀ s a t, Inv s → C s a → step s a = some t → Inv t)
    (hbreak : ∀ s a t, Inv s → ¬ C s a → step s a = some t → ¬ P t) {s : σ} (hs : Inv s) (as : List α) :
    Always step P s as ↔ Meets step C s as := by
  constructor
  · intro h
    induction as generalizing s with
    | nil => trivial
    | cons a as ih =>
      intro t ht
      have hC : C s a := by
        by_contra hC
        exact hbreak s a t hs hC ht (h.2 t ht).head
      exact ⟨hC, ih (hkeep s a t hs hC ht) (h.2 t ht)⟩
  · intro h
    exact (always_of_meets hkeep hs h).mono hP

end Nerve.TransitionSystem
