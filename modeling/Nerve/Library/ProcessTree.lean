import Mathlib.Data.Finset.Card
import Mathlib.Order.Lattice
import Mathlib.Logic.Function.Basic

/-!
# Process trees

Live processes, each with what it comes from, the group that it is in, and limits. A process that forks passes all of
this on; it can lower its limits, but not raise them, and it stays in its group. A group has an owner, and some groups
have a cap: a process forks only while its group has room. What holds of a process, and stays true when
limits are lowered, holds of all that descend from it (`forall_act`), and a cap that holds goes on to hold
(`card_members_act`).
-/

namespace Nerve.ProcessTree

/-- What a process passes on when it forks. -/
structure Process (ι γ α : Type*) where
  origin : Option ι
  group : Option γ
  limits : α

structure Group (ι β : Type*) where
  owner : Option ι
  settings : β

/-- What `process` says is meant of the live processes. -/
structure State (π ι γ β α : Type*) where
  live : Finset π
  process : π → Process ι γ α
  groups : γ → Option (Group ι β)

/-- What a process does by itself. -/
inductive Act (π α : Type*) where
  | fork (child : π)
  | exit
  | lower (bound : α)

namespace State

variable {π ι γ β α : Type*} {s t : State π ι γ β α} {p q : π} {g : γ} {i : ι} {x : Process ι γ α}

/-! ### Processes -/

section processes

variable [DecidableEq π]

/-- The process changes. -/
def set (s : State π ι γ β α) (p : π) (x : Process ι γ α) : State π ι γ β α :=
  { s with process := Function.update s.process p x }

/-- A new process. -/
def spawn (s : State π ι γ β α) (p : π) (x : Process ι γ α) : State π ι γ β α :=
  { s with live := insert p s.live, process := Function.update s.process p x }

def kill (s : State π ι γ β α) (p : π) : State π ι γ β α := { s with live := s.live.erase p }

@[simp] theorem live_set : (s.set p x).live = s.live := rfl

@[simp] theorem groups_set : (s.set p x).groups = s.groups := rfl

@[simp] theorem process_set_self : (s.set p x).process p = x := Function.update_self ..

theorem process_set_of_ne (h : q ≠ p) : (s.set p x).process q = s.process q := Function.update_of_ne h ..

@[simp] theorem groups_spawn : (s.spawn p x).groups = s.groups := rfl

@[simp] theorem mem_live_spawn : q ∈ (s.spawn p x).live ↔ q = p ∨ q ∈ s.live := Finset.mem_insert

@[simp] theorem process_spawn_self : (s.spawn p x).process p = x := Function.update_self ..

theorem process_spawn_of_ne (h : q ≠ p) : (s.spawn p x).process q = s.process q := Function.update_of_ne h ..

@[simp] theorem mem_live_kill : q ∈ (s.kill p).live ↔ q ≠ p ∧ q ∈ s.live := Finset.mem_erase

@[simp] theorem process_kill : (s.kill p).process = s.process := rfl

@[simp] theorem groups_kill : (s.kill p).groups = s.groups := rfl

/-- What holds of every process. -/
theorem forall_set {R : π → Process ι γ α → Prop} (hs : ∀ q ∈ s.live, R q (s.process q)) (hx : R p x) :
    ∀ q ∈ (s.set p x).live, R q ((s.set p x).process q) := by
  intro q hq
  by_cases h : q = p
  · subst h
    simpa using hx
  · rw [process_set_of_ne h]
    exact hs q hq

theorem forall_spawn {R : π → Process ι γ α → Prop} (hs : ∀ q ∈ s.live, R q (s.process q)) (hx : R p x) :
    ∀ q ∈ (s.spawn p x).live, R q ((s.spawn p x).process q) := by
  intro q hq
  by_cases h : q = p
  · subst h
    simpa using hx
  · rw [process_spawn_of_ne h]
    exact hs q ((mem_live_spawn.mp hq).resolve_left h)

end processes

/-! ### What a process does -/

section act

variable [DecidableEq γ]

def members (s : State π ι γ β α) (g : γ) : Finset π := s.live.filter fun p => (s.process p).group = some g

@[simp] theorem mem_members : p ∈ s.members g ↔ p ∈ s.live ∧ (s.process p).group = some g := by simp [members]

def capOf (cap : β → Option Nat) (s : State π ι γ β α) (g : γ) : Option Nat :=
  (s.groups g).bind fun group => cap group.settings

def full (cap : β → Option Nat) (s : State π ι γ β α) (g : γ) : Bool :=
  (s.capOf cap g).any fun n => n ≤ (s.members g).card

variable [DecidableEq π] [Min α]

def act (cap : β → Option Nat) (s : State π ι γ β α) (p : π) : Act π α → Option (State π ι γ β α)
  | .fork child =>
    if child ∈ s.live ∨ (s.process p).group.any (s.full cap) then none else some (s.spawn child (s.process p))
  | .exit => some (s.kill p)
  | .lower bound => some (s.set p { s.process p with limits := (s.process p).limits ⊓ bound })

variable {cap : β → Option Nat} {a : Act π α}

/-- **What a process passes on.** What holds of every process goes on to hold if it stays true of the one that acts when that
one lowers its limits, and comes to be true of what it forks. -/
theorem forall_act {R : π → Process ι γ α → Prop} (h : s.act cap p a = some t) (hs : ∀ q ∈ s.live, R q (s.process q))
    (hlower : ∀ bound, a = .lower bound → R p { s.process p with limits := (s.process p).limits ⊓ bound })
    (hfork : ∀ child, a = .fork child → child ∉ s.live → R child (s.process p)) :
    ∀ q ∈ t.live, R q (t.process q) := by
  cases a with
  | fork child =>
    simp only [act] at h
    split_ifs at h with hroom
    cases h
    exact forall_spawn hs (hfork child rfl fun hchild => hroom (.inl hchild))
  | exit =>
    cases h
    exact fun q hq => hs q (mem_live_kill.mp hq).2
  | lower bound =>
    cases h
    exact forall_set hs (hlower bound rfl)

theorem groups_act (h : s.act cap p a = some t) : t.groups = s.groups := by
  cases a with
  | fork child =>
    simp only [act] at h
    split_ifs at h
    cases h
    rfl
  | exit | lower bound =>
    cases h
    rfl

/-- **A cap that holds goes on to hold**, whatever processes do. -/
theorem card_members_act {n : Nat} (h : s.act cap p a = some t) (hcap : s.capOf cap g = some n)
    (hs : (s.members g).card ≤ n) : (t.members g).card ≤ n := by
  cases a with
  | fork child =>
    simp only [act] at h
    split_ifs at h with hroom
    cases h
    rw [not_or] at hroom
    have hold : ∀ q ∈ (s.spawn child (s.process p)).members g, q ≠ child → q ∈ s.members g := by
      intro q hq hne
      rw [mem_members, mem_live_spawn, process_spawn_of_ne hne] at hq
      exact mem_members.mpr ⟨hq.1.resolve_left hne, hq.2⟩
    by_cases hgroup : (s.process p).group = some g
    · have hlt : (s.members g).card < n := by simpa [hgroup, full, hcap] using hroom.2
      have hsub : (s.spawn child (s.process p)).members g ⊆ insert child (s.members g) := fun q hq => by
        by_cases hne : q = child
        · exact Finset.mem_insert.mpr (.inl hne)
        · exact Finset.mem_insert_of_mem (hold q hq hne)
      exact (Finset.card_le_card hsub).trans ((Finset.card_insert_le _ _).trans hlt)
    · refine (Finset.card_le_card fun q hq => hold q hq ?_).trans hs
      rintro rfl
      rw [mem_members, process_spawn_self] at hq
      exact hgroup hq.2
  | exit =>
    cases h
    refine (Finset.card_le_card fun q hq => ?_).trans hs
    simp only [mem_members, mem_live_kill, process_kill] at hq ⊢
    exact ⟨hq.1.2, hq.2⟩
  | lower bound =>
    cases h
    refine (Finset.card_le_card fun q hq => ?_).trans hs
    rw [mem_members, live_set] at hq
    by_cases hqp : q = p
    · subst hqp
      simpa using hq
    · simpa [process_set_of_ne hqp] using hq

end act

/-! ### Whose a group is -/

/-- If the process is in a group, it comes from its owner. -/
def Owned (groups : γ → Option (Group ι β)) (x : Process ι γ α) : Prop :=
  ∀ g, x.group = some g → ∃ group, groups g = some group ∧ group.owner = x.origin

def Sound (s : State π ι γ β α) : Prop := ∀ p ∈ s.live, Owned s.groups (s.process p)

/-- The process is live and comes from `i`. -/
def Of (s : State π ι γ β α) (i : ι) (p : π) : Prop := p ∈ s.live ∧ (s.process p).origin = some i

/-- Nothing of `i` has changed, but that processes may have ended. -/
structure Leaves (i : ι) (s t : State π ι γ β α) : Prop where
  process : ∀ p, t.Of i p → s.Of i p ∧ t.process p = s.process p
  group : ∀ g settings, s.groups g = some ⟨some i, settings⟩ → t.groups g = some ⟨some i, settings⟩

theorem Leaves.refl (i : ι) (s : State π ι γ β α) : Leaves i s s := ⟨fun _ hp => ⟨hp, rfl⟩, fun _ _ hg => hg⟩

theorem Leaves.trans {u : State π ι γ β α} (h : Leaves i s t) (h' : Leaves i t u) : Leaves i s u := by
  refine ⟨fun p hp => ?_, fun g settings hg => h'.group g settings (h.group g settings hg)⟩
  obtain ⟨hp', heq'⟩ := h'.process p hp
  obtain ⟨hp'', heq⟩ := h.process p hp'
  exact ⟨hp'', heq'.trans heq⟩

section processes

variable [DecidableEq π]

theorem of_set (hx : x.origin = (s.process p).origin) : (s.set p x).Of i q ↔ s.Of i q := by
  unfold Of
  by_cases h : q = p
  · subst h
    rw [live_set, process_set_self, hx]
  · rw [live_set, process_set_of_ne h]

theorem Sound.kill (hs : s.Sound) : (s.kill p).Sound := fun q hq => hs q (mem_live_kill.mp hq).2

theorem Sound.set (hs : s.Sound) (hx : Owned s.groups x) : (s.set p x).Sound :=
  forall_set (R := fun _ => Owned s.groups) hs hx

theorem Sound.spawn (hs : s.Sound) (hx : Owned s.groups x) : (s.spawn p x).Sound :=
  forall_spawn (R := fun _ => Owned s.groups) hs hx

theorem leaves_kill : Leaves i s (s.kill p) :=
  ⟨fun _ hq => ⟨⟨(mem_live_kill.mp hq.1).2, hq.2⟩, rfl⟩, fun _ _ hg => hg⟩

theorem leaves_set (hp : (s.process p).origin ≠ some i) (hx : x.origin = (s.process p).origin) :
    Leaves i s (s.set p x) := by
  refine ⟨fun q ⟨hlive, horigin⟩ => ?_, fun _ _ hg => hg⟩
  by_cases h : q = p
  · subst h
    rw [process_set_self, hx] at horigin
    exact absurd horigin hp
  · rw [process_set_of_ne h] at horigin ⊢
    exact ⟨⟨hlive, horigin⟩, rfl⟩

theorem leaves_spawn (hx : x.origin ≠ some i) : Leaves i s (s.spawn p x) := by
  refine ⟨fun q ⟨hlive, horigin⟩ => ?_, fun _ _ hg => hg⟩
  by_cases h : q = p
  · subst h
    rw [process_spawn_self] at horigin
    exact absurd horigin hx
  · rw [process_spawn_of_ne h] at horigin ⊢
    exact ⟨⟨(mem_live_spawn.mp hlive).resolve_left h, horigin⟩, rfl⟩

end processes

section groups

variable [DecidableEq γ]

def setGroup (s : State π ι γ β α) (g : γ) (group : Option (Group ι β)) : State π ι γ β α :=
  { s with groups := Function.update s.groups g group }

@[simp] theorem groups_setGroup_self {group : Option (Group ι β)} : (s.setGroup g group).groups g = group :=
  Function.update_self ..

/-- What is in a group of `i` was in it before. -/
theorem Leaves.members (h : Leaves i s t) (ht : t.Sound) {settings : β} (hg : s.groups g = some ⟨some i, settings⟩) :
    t.members g ⊆ s.members g := by
  intro p hp
  obtain ⟨hlive, hgroup⟩ := mem_members.mp hp
  obtain ⟨group, hsome, howner⟩ := ht p hlive g hgroup
  obtain rfl := Option.some.inj (hsome.symm.trans (h.group g settings hg))
  obtain ⟨hof, heq⟩ := h.process p ⟨hlive, howner.symm⟩
  exact mem_members.mpr ⟨hof.1, by rw [← heq]; exact hgroup⟩

/-- A group is made, or its settings change, or it goes when it is empty. -/
theorem Sound.setGroup {group : Option (Group ι β)} (hs : s.Sound)
    (h : (∀ old, s.groups g = some old → ∃ new, group = some new ∧ new.owner = old.owner) ∨ s.members g = ∅) :
    (s.setGroup g group).Sound := by
  intro q hq g' hg'
  obtain ⟨old, hold, howner⟩ := hs q hq g' hg'
  by_cases heq : g' = g
  · subst heq
    obtain hkeep | hempty := h
    · obtain ⟨new, rfl, hnew⟩ := hkeep old hold
      exact ⟨new, groups_setGroup_self, hnew.trans howner⟩
    · have hmem : q ∈ s.members g' := mem_members.mpr ⟨hq, hg'⟩
      simp [hempty] at hmem
  · exact ⟨old, (Function.update_of_ne heq ..).trans hold, howner⟩

theorem leaves_setGroup {group : Option (Group ι β)} (h : ∀ settings, s.groups g ≠ some ⟨some i, settings⟩) :
    Leaves i s (s.setGroup g group) := by
  refine ⟨fun q hq => ⟨hq, rfl⟩, fun g' settings hg' => ?_⟩
  have hne : g' ≠ g := by
    rintro rfl
    exact h settings hg'
  exact (Function.update_of_ne hne ..).trans hg'

variable [DecidableEq π] [Min α] {cap : β → Option Nat} {a : Act π α}

theorem Sound.act (hs : s.Sound) (h : s.act cap p a = some t) (hp : p ∈ s.live) : t.Sound := by
  unfold Sound
  rw [groups_act h]
  exact forall_act (R := fun _ => Owned s.groups) h hs (fun _ _ => hs p hp) (fun _ _ _ => hs p hp)

/-- A process that comes from elsewhere acts. -/
theorem leaves_act (h : s.act cap p a = some t) (hp : (s.process p).origin ≠ some i) : Leaves i s t := by
  have hall := forall_act (R := fun q x => x.origin = some i → s.Of i q ∧ x = s.process q) h
    (fun q hlive horigin => ⟨⟨hlive, horigin⟩, rfl⟩) (fun _ _ horigin => absurd horigin hp)
    (fun _ _ _ horigin => absurd horigin hp)
  refine ⟨fun q hq => hall q hq.1 hq.2, fun g settings hg => ?_⟩
  rw [groups_act h]
  exact hg

end groups

end State

end Nerve.ProcessTree
