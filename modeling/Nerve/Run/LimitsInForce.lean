import Nerve.Run.CheckLimits

/-!
# What a check may use

The invariant of the evaluators of `Nerve.Run.CheckLimits`: before exec a check has at most its child, which is in the
group when it has joined it; from exec on all of its processes are within the limits and in the group, and the cap of
the group holds. The group is nobody else's from the moment it is made until it is removed.
-/

namespace Nerve.Run.CheckLimits

open Dialogue ProcessTree ProcessTree.State TransitionSystem

/-! ### What a call changes -/

section answering

variable {k k' : Kernel} {i : Nat} {dir : String} {owned : Option Caps} {q : CgroupCall} {a : q.Answer}

/-- The check has of its group what `owned` says. -/
def Holds (k : Kernel) (i : Nat) (dir : String) (owned : Option Caps) : Prop :=
  ∀ caps, owned = some caps → k.groups dir = some ⟨some i, caps⟩

/-- The processes stay as they are, and the groups of others. -/
structure Regroups (i : Nat) (k k' : Kernel) : Prop where
  sound : k'.Sound
  live : k'.live = k.live
  process : k'.process = k.process
  others : ∀ j, j ≠ i → Leaves j k k'

theorem Regroups.refl (hk : k.Sound) : Regroups i k k := ⟨hk, rfl, rfl, fun j _ => Leaves.refl j k⟩

theorem Regroups.of_iff (h : Regroups i k k') {j p : Nat} : k'.Of j p ↔ k.Of j p := by
  unfold State.Of
  rw [h.live, h.process]

/-- The one group of the check changes. -/
theorem regroups_setGroup {group : Option (Group Nat Caps)} (hk : k.Sound)
    (hother : ∀ j, j ≠ i → ∀ caps, k.groups dir ≠ some ⟨some j, caps⟩)
    (hgroup : (∀ old, k.groups dir = some old → ∃ new, group = some new ∧ new.owner = old.owner) ∨ k.members dir = ∅) :
    Regroups i k (k.setGroup dir group) :=
  ⟨hk.setGroup hgroup, rfl, rfl, fun j hj => leaves_setGroup (hother j hj)⟩

theorem not_others {caps : Caps} (h : k.groups dir = some ⟨some i, caps⟩) :
    ∀ j, j ≠ i → ∀ caps, k.groups dir ≠ some ⟨some j, caps⟩ := by
  intro j hj caps' h'
  rw [h] at h'
  cases h'
  exact hj rfl

theorem answer_setsUp (h : answer k i q a = some k') (hk : k.Sound) (hq : SetsUp dir owned q)
    (hheld : Holds k i dir owned) : Regroups i k k' ∧ Holds k' i dir (owning owned q a) := by
  cases q with
  | createDir d =>
    cases a with
    | error e =>
      cases h
      exact ⟨.refl hk, hheld⟩
    | ok =>
      obtain ⟨rfl, -⟩ := hq
      simp only [answer] at h
      split_ifs at h with hfree
      cases h
      have hnone : k.groups d = none := by simpa using hfree
      refine ⟨regroups_setGroup hk (by simp [hnone]) (.inl (by simp [hnone])), fun caps hcaps => ?_⟩
      cases hcaps
      exact groups_setGroup_self
  | setPidsMax d n | setMemoryMax d n =>
    cases a with
    | error e =>
      cases h
      exact ⟨.refl hk, hheld⟩
    | ok =>
      obtain ⟨rfl, hsome⟩ := hq
      obtain ⟨caps, rfl⟩ := Option.isSome_iff_exists.mp hsome
      have hgroup := hheld caps rfl
      simp only [answer, hgroup, Option.map_some, Option.some.injEq] at h
      subst h
      refine ⟨regroups_setGroup hk (not_others hgroup) (.inl ?_), fun caps' hcaps => ?_⟩
      · simp [hgroup]
      · cases hcaps
        exact groups_setGroup_self
  | removeDir d =>
    cases a with
    | error e =>
      cases h
      exact ⟨.refl hk, hheld⟩
    | ok =>
      obtain ⟨rfl, hsome⟩ := hq
      obtain ⟨caps, rfl⟩ := Option.isSome_iff_exists.mp hsome
      simp only [answer] at h
      split_ifs at h with hempty
      cases h
      exact ⟨regroups_setGroup hk (not_others (hheld caps rfl)) (.inr hempty.2), fun caps' hcaps => by cases hcaps⟩
  | _ =>
    cases h
    exact ⟨.refl hk, hheld⟩

theorem answer_tearsDown {removed : Bool} {caps : Caps} (h : answer k i q a = some k') (hk : k.Sound)
    (hq : TearsDown dir removed q) (hheld : removed = false → k.groups dir = some ⟨some i, caps⟩) :
    removing removed q a = removed ∧ k' = k ∨
      removing removed q a = true ∧ removed = false ∧ Regroups i k k' ∧ k.members dir = ∅ := by
  cases q with
  | createDir d | setPidsMax d n | setMemoryMax d n => exact hq.elim
  | removeDir d =>
    cases a with
    | error e =>
      cases h
      exact .inl ⟨rfl, rfl⟩
    | ok =>
      obtain ⟨rfl, rfl⟩ := hq
      simp only [answer] at h
      split_ifs at h with hempty
      cases h
      exact .inr ⟨rfl, rfl, regroups_setGroup hk (not_others (hheld rfl)) (.inr hempty.2), hempty.2⟩
  | _ =>
    cases h
    exact .inl ⟨rfl, rfl⟩

end answering

/-! ### The invariant -/

section invariant

variable (platform : Platform)

/-- No process comes from the check. -/
def Absent (k : Kernel) (i : Nat) : Prop := ∀ p, ¬k.Of i p

/-- Every process of the check is within the limits and in the group, and the cap of the group holds. -/
structure Guarded (k : Kernel) (i : Nat) (input : CheckInput) (guard : Option String) : Prop where
  limits : ∀ p, k.Of i p → ∀ r, InForce platform input r ((k.process p).limits r)
  member : ∀ p dir, k.Of i p → guard = some dir → (k.process p).group = some dir
  capped : ∀ dir n, guard = some dir → input.limit .nproc = some n → (k.members dir).card ≤ n

/-- A group is asked for, below the base. -/
structure CheckInput.Requests (input : CheckInput) (base : String) : Prop where
  linux : platform.os = "linux"
  base : input.base = some base
  capped : (input.limit .nproc).isSome ∨ (input.limit .addressSpace).isSome

def CheckInput.caps (input : CheckInput) : Caps := ⟨input.limit .nproc, input.limit .addressSpace⟩

/-- The group is there as asked, or it was told that it is not. -/
def Granted (k : Kernel) (i : Nat) (input : CheckInput) (told : List String) : Option String → Prop
  | some dir => dir = input.leaf ∧ k.groups dir = some ⟨some i, input.caps⟩
  | none => ∀ base, input.Requests platform base → ∃ e, degradedNote base e ∈ told

def PreExec.Ok (k : Kernel) (i : Nat) (input : CheckInput) (guard : Option String) (pid : Nat) : PreExec → Prop
  | .joining left => left = formatPid pid ∧ (k.Of i pid → (k.process pid).limits = input.limits)
  | .limiting rest => k.Of i pid →
    (∀ dir, guard = some dir → (k.process pid).group = some dir) ∧ Sets platform input [] rest (k.process pid).limits

def Stage.Ok (k : Kernel) (i : Nat) (input : CheckInput) (told : List String) : Stage → Prop
  | .preparing rest => Absent k i ∧ ∃ spec owned, input.ulimit = some spec ∧
    rest.Abides (SetsUp input.leaf) owning (SetUp input spec) owned ∧ Holds k i input.leaf owned
  | .spawning guard => Absent k i ∧ Granted platform k i input told guard
  | .starting guard pid pre => (∀ p, k.Of i p → p = pid) ∧ Granted platform k i input told guard ∧
    pre.Ok platform k i input guard pid
  | .running guard => Guarded platform k i input guard ∧ Granted platform k i input told guard
  | .ending dir rest => ∃ removed, rest.Abides (TearsDown dir) removing Removed removed ∧
    if removed then Absent k i
    else Guarded platform k i input (some dir) ∧ Granted platform k i input told (some dir)
  | .finished guard => Absent k i ∨ Guarded platform k i input guard ∧ Granted platform k i input told guard ∧
    ∀ dir, guard = some dir → ∃ e, removeWarning dir e ∈ told

structure Check.Ok (k : Kernel) (i : Nat) (c : Check) : Prop where
  notes : platform.unix = true → ∀ field ∈ c.input.notes platform, unenforcedWarning field ∈ c.told
  stage : c.stage.Ok platform k i c.input c.told

end invariant

section keeping

variable {platform : Platform} {k k' : Kernel} {i : Nat} {input : CheckInput} {told told' : List String}
  {guard : Option String}

theorem Absent.leaves (h : Absent k i) (hk : Leaves i k k') : Absent k' i := fun p hp => h p (hk.process p hp).1

theorem Granted.leaves (h : Granted platform k i input told guard) (hk : Leaves i k k') :
    Granted platform k' i input told guard := by
  cases guard with
  | some dir => exact ⟨h.1, hk.group dir _ h.2⟩
  | none => exact h

theorem Guarded.leaves (h : Guarded platform k i input guard) (hgranted : Granted platform k i input told guard)
    (hk : Leaves i k k') (hsound : k'.Sound) : Guarded platform k' i input guard := by
  refine ⟨fun p hp r => ?_, fun p dir hp hguard => ?_, fun dir n hguard hn => ?_⟩
  · obtain ⟨hold, heq⟩ := hk.process p hp
    rw [heq]
    exact h.limits p hold r
  · obtain ⟨hold, heq⟩ := hk.process p hp
    rw [heq]
    exact h.member p dir hold hguard
  · subst hguard
    exact (Finset.card_le_card (hk.members hsound hgranted.2)).trans (h.capped dir n rfl hn)

theorem PreExec.Ok.leaves {pid : Nat} {pre : PreExec} (h : pre.Ok platform k i input guard pid) (hk : Leaves i k k') :
    pre.Ok platform k' i input guard pid := by
  cases pre with
  | joining left =>
    refine ⟨h.1, fun hpid => ?_⟩
    obtain ⟨hold, heq⟩ := hk.process pid hpid
    rw [heq]
    exact h.2 hold
  | limiting rest =>
    intro hpid
    obtain ⟨hold, heq⟩ := hk.process pid hpid
    rw [heq]
    exact h hold

/-- What others do leaves the check as it is. -/
theorem Check.Ok.leaves {c : Check} (h : c.Ok platform k i) (hk : Leaves i k k') (hsound : k'.Sound) :
    c.Ok platform k' i := by
  refine ⟨h.notes, ?_⟩
  have hstage := h.stage
  cases hc : c.stage with
  | preparing rest =>
    rw [hc] at hstage
    obtain ⟨habsent, spec, owned, hspec, hrest, hheld⟩ := hstage
    exact ⟨habsent.leaves hk, spec, owned, hspec, hrest, fun caps hcaps => hk.group _ _ (hheld caps hcaps)⟩
  | spawning guard =>
    rw [hc] at hstage
    exact ⟨hstage.1.leaves hk, hstage.2.leaves hk⟩
  | starting guard pid pre =>
    rw [hc] at hstage
    exact ⟨fun p hp => hstage.1 p (hk.process p hp).1, hstage.2.1.leaves hk, hstage.2.2.leaves hk⟩
  | running guard =>
    rw [hc] at hstage
    exact ⟨hstage.1.leaves hstage.2 hk hsound, hstage.2.leaves hk⟩
  | ending dir rest =>
    rw [hc] at hstage
    obtain ⟨removed, hrest, hremoved⟩ := hstage
    refine ⟨removed, hrest, ?_⟩
    split_ifs at hremoved ⊢
    · exact hremoved.leaves hk
    · exact ⟨hremoved.1.leaves hremoved.2 hk hsound, hremoved.2.leaves hk⟩
  | finished guard =>
    rw [hc] at hstage
    obtain habsent | ⟨hguarded, hgranted, htold⟩ := hstage
    · exact .inl (habsent.leaves hk)
    · exact .inr ⟨hguarded.leaves hgranted hk hsound, hgranted.leaves hk, htold⟩

theorem Granted.mono (h : Granted platform k i input told guard) (hsub : ∀ m ∈ told, m ∈ told') :
    Granted platform k i input told' guard := by
  cases guard with
  | some dir => exact h
  | none => exact fun base hbase => (h base hbase).imp fun e he => hsub _ he

/-- Whoever is in the group comes from the check. -/
theorem Granted.of_members {dir : String} (h : Granted platform k i input told (some dir)) (hk : k.Sound) {p : Nat}
    (hp : p ∈ k.members dir) : k.Of i p := by
  obtain ⟨hlive, hgroup⟩ := mem_members.mp hp
  obtain ⟨group, hsome, howner⟩ := hk p hlive dir hgroup
  obtain rfl := Option.some.inj (hsome.symm.trans h.2)
  exact ⟨hlive, howner.symm⟩

theorem limit_ne_zero (input : CheckInput) (r : Resource) : input.limit r ≠ some 0 := by
  unfold CheckInput.limit
  cases hspec : input.ulimit with
  | none => simp
  | some spec =>
    have hvalid := input.valid spec hspec
    simp only [validate] at hvalid
    split_ifs at hvalid
    cases r <;> simpa [CheckUlimit.limit]

/-- A check with one process at most is guarded by what is true of that one. -/
theorem guarded_of_only {pid : Nat} (hk : k.Sound) (hgranted : Granted platform k i input told guard)
    (honly : ∀ p, k.Of i p → p = pid)
    (hpid : k.Of i pid → (∀ dir, guard = some dir → (k.process pid).group = some dir) ∧
      ∀ r, InForce platform input r ((k.process pid).limits r)) : Guarded platform k i input guard := by
  refine ⟨fun p hp => ?_, fun p dir hp hguard => ?_, fun dir n hguard hn => ?_⟩
  · obtain rfl := honly p hp
    exact (hpid hp).2
  · obtain rfl := honly p hp
    exact (hpid hp).1 dir hguard
  · subst hguard
    have hsub : k.members dir ⊆ {pid} := fun p hp =>
      Finset.mem_singleton.mpr (honly p (hgranted.of_members hk hp))
    have hone : 0 < n := Nat.pos_of_ne_zero fun h => limit_ne_zero input .nproc (h ▸ hn)
    exact (Finset.card_le_card hsub).trans hone

theorem guarded_of_absent (hk : k.Sound) (hgranted : Granted platform k i input told guard) (h : Absent k i) :
    Guarded platform k i input guard :=
  guarded_of_only hk hgranted (fun p hp => absurd hp (h p)) fun hp => absurd hp (h 0)

end keeping

/-! ### Steps of an evaluator -/

section steps

variable {platform : Platform} {k k' : Kernel} {i : Nat} {c c' : Check}

/-- The check goes on to be as it should, and the others are left as they are. -/
structure Keeps (platform : Platform) (i : Nat) (k k' : Kernel) (c' : Check) : Prop where
  sound : k'.Sound
  check : c'.Ok platform k' i
  others : ∀ j, j ≠ i → Leaves j k k'

theorem Keeps.same (hk : k.Sound) (h : c'.Ok platform k i) : Keeps platform i k k c' := ⟨hk, h, fun j _ => Leaves.refl j k⟩

theorem caps_eq {input : CheckInput} {spec : CheckUlimit} (hspec : input.ulimit = some spec) : input.caps = spec.caps := by
  simp only [CheckInput.caps, CheckInput.limit, hspec, Option.bind_some]
  rfl

theorem call_keeps {answers : (q : CgroupCall) → q.Answer} (hk : k.Sound) (hc : c.Ok platform k i)
    (h : c.call i k answers = some (c', k')) : Keeps platform i k k' c' := by
  obtain ⟨hnotes, hstage⟩ := hc
  unfold Check.call at h
  split at h
  · rename_i q next hcase
    rw [hcase] at hstage
    obtain ⟨habsent, spec, owned, hspec, hrest, hheld⟩ := hstage
    obtain ⟨k₁, hanswer, heq⟩ := Option.map_eq_some_iff.mp h
    obtain ⟨rfl, rfl⟩ := Prod.mk.inj heq
    obtain ⟨hregroups, hheld'⟩ := answer_setsUp hanswer hk hrest.1 hheld
    refine ⟨hregroups.sound, ⟨hnotes, ?_⟩, hregroups.others⟩
    exact ⟨fun p hp => habsent p (hregroups.of_iff.mp hp), spec, _, hspec, hrest.2 _, hheld'⟩
  · rename_i dir q next hcase
    rw [hcase] at hstage
    obtain ⟨removed, hrest, hremoved⟩ := hstage
    obtain ⟨k₁, hanswer, heq⟩ := Option.map_eq_some_iff.mp h
    obtain ⟨rfl, rfl⟩ := Prod.mk.inj heq
    have hheld : removed = false → k.groups dir = some ⟨some i, _⟩ := fun hfalse => by
      rw [hfalse] at hremoved
      exact hremoved.2.2
    obtain ⟨hsame, rfl⟩ | ⟨htrue, rfl, hregroups, hempty⟩ := answer_tearsDown hanswer hk hrest.1 hheld
    · refine .same hk ⟨hnotes, removed, ?_, hremoved⟩
      rw [← hsame]
      exact hrest.2 _
    · refine ⟨hregroups.sound, ⟨hnotes, true, ?_, ?_⟩, hregroups.others⟩
      · rw [← htrue]
        exact hrest.2 _
      · intro p hp
        -- All processes of the check are in the group, which is empty.
        have hold := hregroups.of_iff.mp hp
        have hmem : p ∈ k.members dir := mem_members.mpr ⟨hold.1, hremoved.1.member p dir hold rfl⟩
        simp [hempty] at hmem
  · cases h

theorem proceed_keeps (hk : k.Sound) (hc : c.Ok platform k i) (h : c.proceed = some c') :
    Keeps platform i k k c' := by
  obtain ⟨hnotes, hstage⟩ := hc
  have hmore (more : List String) (hunix : platform.unix = true) (field : String)
      (hfield : field ∈ c.input.notes platform) : unenforcedWarning field ∈ c.told ++ more :=
    List.mem_append_left _ (hnotes hunix field hfield)
  unfold Check.proceed at h
  split at h
  · rename_i dir hcase
    cases h
    rw [hcase] at hstage
    obtain ⟨habsent, spec, owned, hspec, ⟨rfl, rfl⟩, hheld⟩ := hstage
    exact .same hk ⟨hnotes, habsent, rfl, by rw [caps_eq hspec]; exact hheld _ rfl⟩
  · rename_i note hcase
    cases h
    rw [hcase] at hstage
    obtain ⟨habsent, spec, owned, hspec, hnote, hheld⟩ := hstage
    refine .same hk ⟨hmore _, habsent, fun base hbase => ?_⟩
    have hcapped : spec.nproc.isSome ∨ spec.addressSpaceBytes.isSome := by
      simpa [CheckInput.limit, hspec, CheckUlimit.limit] using hbase.capped
    obtain ⟨e, rfl⟩ := hnote hcapped base hbase.base
    exact ⟨e, by simp⟩
  · rename_i dir e hcase
    cases h
    rw [hcase] at hstage
    obtain ⟨removed, hrest, hremoved⟩ := hstage
    refine .same hk ⟨hmore _, ?_⟩
    cases removed with
    | true => exact .inl hremoved
    | false =>
      cases e with
      | none => exact absurd (hrest rfl) (by simp)
      | some e =>
        refine .inr ⟨hremoved.1, hremoved.2, fun dir' hdir' => ⟨e, ?_⟩⟩
        cases hdir'
        simp
  · cases h

/-- When the guard is dropped. -/
theorem leave_ok {input : CheckInput} {told : List String} {guard : Option String}
    (hguarded : Guarded platform k i input guard) (hgranted : Granted platform k i input told guard) :
    (leave guard).Ok platform k i input told := by
  cases guard with
  | none => exact .inr ⟨hguarded, hgranted, by simp⟩
  | some dir => exact ⟨false, abides_teardown dir, hguarded, hgranted⟩

theorem spawn_keeps {pid : Option Nat} (hk : k.Sound) (hc : c.Ok platform k i)
    (h : c.spawn platform i k pid = some (c', k')) : Keeps platform i k k' c' := by
  obtain ⟨hnotes, hstage⟩ := hc
  unfold Check.spawn at h
  split at h
  · rename_i guard hcase
    obtain ⟨rfl, rfl⟩ := Prod.mk.inj (Option.some.inj h)
    rw [hcase] at hstage
    exact .same hk ⟨hnotes, leave_ok (guarded_of_absent hk hstage.2 hstage.1) hstage.2⟩
  · rename_i guard pid hcase
    by_cases hfresh : pid ∈ k.live
    · rw [if_pos hfresh] at h
      cases h
    rw [if_neg hfresh] at h
    obtain ⟨rfl, rfl⟩ := Prod.mk.inj (Option.some.inj h)
    rw [hcase] at hstage
    obtain ⟨habsent, hgranted⟩ := hstage
    have hsound : (k.spawn pid ⟨some i, none, c.input.limits⟩).Sound := hk.spawn fun g hg => by cases hg
    refine ⟨hsound, ⟨hnotes, fun p hp => ?_, ?_, ?_⟩, fun j hj => leaves_spawn fun h => hj (Option.some.inj h).symm⟩
    · by_contra hne
      have hprocess := process_spawn_of_ne (s := k) (x := ⟨some i, none, c.input.limits⟩) hne
      refine habsent p ⟨(mem_live_spawn.mp hp.1).resolve_left hne, ?_⟩
      rw [← hprocess]
      exact hp.2
    · cases guard <;> exact hgranted
    · cases guard with
      | some dir => exact ⟨rfl, fun _ => by simp⟩
      | none =>
        intro _
        refine ⟨by simp, ?_⟩
        rw [process_spawn_self]
        exact sets_limiting c.input
  · cases h

theorem giveUp_keeps {guard : Option String} {pid : Nat} (hk : k.Sound)
    (hnotes : platform.unix = true → ∀ field ∈ c.input.notes platform, unenforcedWarning field ∈ c.told)
    (honly : ∀ p, k.Of i p → p = pid) (hgranted : Granted platform k i c.input c.told guard) :
    Keeps platform i k (c.giveUp guard pid k).2 (c.giveUp guard pid k).1 := by
  have hleaves (j : Nat) : Leaves j k (k.kill pid) := leaves_kill
  have habsent : Absent (k.kill pid) i := fun p hp =>
    (mem_live_kill.mp hp.1).1 (honly p ((hleaves i).process p hp).1)
  have hgranted' := hgranted.leaves (hleaves i)
  exact ⟨hk.kill, ⟨hnotes, leave_ok (guarded_of_absent hk.kill hgranted' habsent) hgranted'⟩, fun j _ => hleaves j⟩

theorem hasChild_iff {pid : Nat} : hasChild k i pid = true ↔ k.Of i pid := by simp [hasChild, State.Of]

theorem writeProcs_cases {dir : String} {pid : Nat} {written : Except Int Nat}
    (h : writeProcs k dir (formatPid pid) written = some k') :
    (∃ errno, written = .error errno ∧ k' = k) ∨
      ∃ n, written = .ok n ∧ n = (formatPid pid).length ∧ k' = k.set pid { k.process pid with group := some dir } := by
  cases written with
  | error errno =>
    cases h
    exact .inl ⟨errno, rfl, rfl⟩
  | ok n =>
    simp only [writeProcs, readPid_formatPid] at h
    split_ifs at h with hwhole
    cases h
    exact .inr ⟨n, rfl, hwhole.1, rfl⟩

theorem join_keeps {written : Except Int Nat} (hk : k.Sound) (hc : c.Ok platform k i)
    (h : c.join platform i k written = some (c', k')) : Keeps platform i k k' c' := by
  obtain ⟨hnotes, hstage⟩ := hc
  unfold Check.join at h
  split at h
  swap
  · cases h
  rename_i dir pid left hcase
  split_ifs at h with hchild
  rw [hcase] at hstage
  obtain ⟨honly, hgranted, rfl, hlimits⟩ := hstage
  have hof := hasChild_iff.mp hchild
  obtain ⟨k₁, hwrite, heq⟩ := Option.map_eq_some_iff.mp h
  obtain ⟨errno, rfl, rfl⟩ | ⟨n, rfl, hn, rfl⟩ := writeProcs_cases hwrite
  · simp only [joinViaFd] at heq
    split_ifs at heq
    · obtain ⟨rfl, rfl⟩ := Prod.mk.inj heq
      exact .same hk ⟨hnotes, honly, hgranted, rfl, hlimits⟩
    · obtain ⟨rfl, rfl⟩ := Prod.mk.inj heq
      exact giveUp_keeps hk hnotes honly hgranted
  · -- The child is in the group from here on, and so is whatever it forks.
    have hsound : (k.set pid { k.process pid with group := some dir }).Sound := by
      refine hk.set fun g hg => ?_
      cases hg
      exact ⟨_, hgranted.2, hof.2.symm⟩
    have hothers (j : Nat) (hj : j ≠ i) : Leaves j k (k.set pid { k.process pid with group := some dir }) :=
      leaves_set (by rw [hof.2]; exact fun h => hj (Option.some.inj h).symm) rfl
    have honly' : ∀ p, (k.set pid { k.process pid with group := some dir }).Of i p → p = pid :=
      fun p hp => honly p ((of_set (x := { k.process pid with group := some dir }) rfl).mp hp)
    have hgranted' : Granted platform (k.set pid { k.process pid with group := some dir }) i c.input c.told (some dir) :=
      hgranted
    have hjoin : joinViaFd (formatPid pid) (.ok n) = .failed ∨ joinViaFd (formatPid pid) (.ok n) = .joined := by
      rw [joinViaFd, hn, List.drop_length]
      by_cases hzero : (formatPid pid).length = 0 <;> simp [hzero]
    obtain hjoin | hjoin := hjoin
    · rw [hjoin] at heq
      obtain ⟨rfl, rfl⟩ := Prod.mk.inj heq
      have hkeeps := giveUp_keeps hsound hnotes honly' hgranted'
      exact ⟨hkeeps.sound, hkeeps.check, fun j hj => (hothers j hj).trans (hkeeps.others j hj)⟩
    · rw [hjoin] at heq
      obtain ⟨rfl, rfl⟩ := Prod.mk.inj heq
      refine ⟨hsound, ⟨hnotes, honly', hgranted', fun _ => ⟨?_, ?_⟩⟩, hothers⟩
      · simp
      · rw [process_set_self, hlimits hof]
        exact sets_limiting c.input

theorem limit_keeps {errno : Option Int} (hk : k.Sound) (hc : c.Ok platform k i)
    (h : c.limit i k errno = some (c', k')) : Keeps platform i k k' c' := by
  obtain ⟨hnotes, hstage⟩ := hc
  unfold Check.limit at h
  split at h
  swap
  · cases h
  rename_i guard pid call next hcase
  split_ifs at h with hchild
  obtain ⟨rfl, rfl⟩ := Prod.mk.inj (Option.some.inj h)
  rw [hcase] at hstage
  obtain ⟨honly, hgranted, hpre⟩ := hstage
  have hof := hasChild_iff.mp hchild
  obtain ⟨hmember, hsets⟩ := hpre hof
  cases errno with
  | some errno => exact .same hk ⟨hnotes, honly, hgranted, fun _ => ⟨hmember, hsets.2 (some errno)⟩⟩
  | none =>
    have hset : setrlimit k pid call none =
        k.set pid { k.process pid with limits := afterRlimit (k.process pid).limits call none } := rfl
    rw [hset]
    refine ⟨hk.set (hk pid hof.1), ⟨hnotes, fun p hp => honly p ((of_set ?_).mp hp), ?_, fun _ => ⟨?_, ?_⟩⟩, fun j hj => ?_⟩
    · rfl
    · cases guard <;> exact hgranted
    · simpa using hmember
    · rw [process_set_self]
      exact hsets.2 none
    · exact leaves_set (by rw [hof.2]; exact fun h => hj (Option.some.inj h).symm) rfl

theorem execute_keeps {errno : Option Int} (hk : k.Sound) (hc : c.Ok platform k i)
    (h : c.execute i k errno = some (c', k')) : Keeps platform i k k' c' := by
  obtain ⟨hnotes, hstage⟩ := hc
  unfold Check.execute at h
  split at h
  · rename_i guard pid hcase
    rw [hcase] at hstage
    obtain ⟨honly, hgranted, hpre⟩ := hstage
    split_ifs at h with hchild herrno
    · obtain ⟨rfl, rfl⟩ := Prod.mk.inj (Option.some.inj h)
      obtain ⟨hmember, hsets⟩ := hpre (hasChild_iff.mp hchild)
      refine .same hk ⟨hnotes, guarded_of_only hk hgranted honly fun _ => ⟨hmember, fun r => ?_⟩, hgranted⟩
      simpa using hsets rfl r
    · obtain ⟨rfl, rfl⟩ := Prod.mk.inj (Option.some.inj h)
      exact giveUp_keeps hk hnotes honly hgranted
  · rename_i guard pid e hcase
    rw [hcase] at hstage
    split_ifs at h
    obtain ⟨rfl, rfl⟩ := Prod.mk.inj (Option.some.inj h)
    exact giveUp_keeps hk hnotes hstage.1 hstage.2.1
  · cases h

theorem miss_keeps (hk : k.Sound) (hc : c.Ok platform k i) (h : c.miss i k = some c') : Keeps platform i k k c' := by
  obtain ⟨hnotes, hstage⟩ := hc
  unfold Check.miss at h
  split at h
  · rename_i guard pid pre hcase
    rw [hcase] at hstage
    split_ifs at h with hchild
    cases h
    refine .same hk ⟨hnotes, guarded_of_only hk hstage.2.1 hstage.1 fun hof => ?_, hstage.2.1⟩
    exact absurd (hasChild_iff.mpr hof) hchild
  · cases h

theorem finish_keeps (hk : k.Sound) (hc : c.Ok platform k i) (h : c.finish = some c') : Keeps platform i k k c' := by
  obtain ⟨hnotes, hstage⟩ := hc
  unfold Check.finish at h
  split at h
  · rename_i guard hcase
    cases h
    rw [hcase] at hstage
    exact .same hk ⟨hnotes, leave_ok hstage.1 hstage.2⟩
  · cases h

theorem begin_keeps {input : CheckInput} (hk : k.Sound) (habsent : Absent k i) :
    Keeps platform i k k (input.begin platform) := by
  refine .same hk ?_
  unfold CheckInput.begin
  by_cases hunix : (!platform.unix && input.ulimit.isSome) = true
  · rw [if_pos hunix]
    exact ⟨fun h => by simp [h] at hunix, .inl habsent⟩
  · rw [if_neg hunix]
    have hnotes : platform.unix = true → ∀ field ∈ input.notes platform,
        unenforcedWarning field ∈ (input.notes platform).map unenforcedWarning :=
      fun _ field hfield => List.mem_map_of_mem hfield
    cases hspec : input.ulimit with
    | some spec =>
      show Check.Ok platform k i (if _ then _ else _)
      split_ifs with hlinux
      · exact ⟨hnotes, habsent, spec, none, hspec, abides_prepareWithBase input spec, fun _ h => by cases h⟩
      · exact ⟨hnotes, habsent, fun base hbase => absurd (beq_iff_eq.mpr hbase.linux) hlinux⟩
    | none =>
      refine ⟨hnotes, habsent, fun base hbase => ?_⟩
      have hcapped := hbase.capped
      simp [CheckInput.limit, hspec] at hcapped

end steps

/-! ### Every run -/

section runs

variable {platform : Platform} {k k' : Kernel} {s t : Machine} {i : Nat} {c : Check}

structure Machine.Ok (platform : Platform) (s : Machine) : Prop where
  sound : s.kernel.Sound
  check : ∀ i c, s.checks i = some c → c.Ok platform s.kernel i
  absent : ∀ i, s.checks i = none → Absent s.kernel i

theorem Machine.Ok.set (hs : s.Ok platform) (h : Keeps platform i s.kernel k c) : (s.set i c k).Ok platform := by
  refine ⟨h.sound, fun j d hd => ?_, fun j hj => ?_⟩
  · by_cases heq : j = i
    · subst heq
      simp only [Machine.set, Function.update_self, Option.some.injEq] at hd
      exact hd ▸ h.check
    · simp only [Machine.set, Function.update_of_ne heq] at hd
      exact (hs.check j d hd).leaves (h.others j heq) h.sound
  · by_cases heq : j = i
    · subst heq
      simp [Machine.set] at hj
    · simp only [Machine.set, Function.update_of_ne heq] at hj
      exact (hs.absent j hj).leaves (h.others j heq)

/-- What the processes of a check do keeps them where they are. -/
theorem Guarded.act {input : CheckInput} {told : List String} {guard : Option String} {p : Nat} {a : Act Nat Limits}
    (h : Guarded platform k i input guard) (hgranted : Granted platform k i input told guard) (hp : p ∈ k.live)
    (hact : k.act pidsMax p a = some k') : Guarded platform k' i input guard := by
  refine ⟨fun q hq => ?_, fun q dir hq hguard => ?_, fun dir n hguard hn => ?_⟩
  · have hlimits := forall_act
      (R := fun _ (x : Process Nat String Limits) => x.origin = some i → ∀ r, InForce platform input r (x.limits r)) hact
      (fun q hlive horigin => h.limits q ⟨hlive, horigin⟩)
      (fun bound _ horigin r => (h.limits p ⟨hp, horigin⟩ r).mono inf_le_left)
      (fun _ _ _ horigin => h.limits p ⟨hp, horigin⟩)
    exact hlimits q hq.1 hq.2
  · have hmember := forall_act (R := fun _ x => x.origin = some i → x.group = some dir) hact
      (fun q hlive horigin => h.member q dir ⟨hlive, horigin⟩ hguard)
      (fun _ _ horigin => h.member p dir ⟨hp, horigin⟩ hguard)
      (fun _ _ _ horigin => h.member p dir ⟨hp, horigin⟩ hguard)
    exact hmember q hq.1 hq.2
  · subst hguard
    refine card_members_act hact ?_ (h.capped dir n rfl hn)
    rw [capOf, hgranted.2]
    exact hn

theorem Granted.act {input : CheckInput} {told : List String} {guard : Option String} {p : Nat} {a : Act Nat Limits}
    (h : Granted platform k i input told guard) (hact : k.act pidsMax p a = some k') :
    Granted platform k' i input told guard := by
  cases guard with
  | none => exact h
  | some dir => exact ⟨h.1, by rw [groups_act hact]; exact h.2⟩

/-- A process of the check acts, which Nerve's own code in the child does not. -/
theorem Check.Ok.act {p : Nat} {a : Act Nat Limits} (h : c.Ok platform k i) (hp : k.Of i p)
    (hstarting : ∀ guard pid pre, c.stage ≠ .starting guard pid pre) (hact : k.act pidsMax p a = some k') :
    c.Ok platform k' i := by
  refine ⟨h.notes, ?_⟩
  have hstage := h.stage
  cases hc : c.stage with
  | preparing rest | spawning guard =>
    rw [hc] at hstage
    exact absurd hp (hstage.1 p)
  | starting guard pid pre => exact absurd hc (hstarting guard pid pre)
  | running guard =>
    rw [hc] at hstage
    exact ⟨hstage.1.act hstage.2 hp.1 hact, hstage.2.act hact⟩
  | ending dir rest =>
    rw [hc] at hstage
    obtain ⟨removed, hrest, hremoved⟩ := hstage
    refine ⟨removed, hrest, ?_⟩
    split_ifs at hremoved ⊢
    · exact absurd hp (hremoved p)
    · exact ⟨hremoved.1.act hremoved.2 hp.1 hact, hremoved.2.act hact⟩
  | finished guard =>
    rw [hc] at hstage
    obtain habsent | ⟨hguarded, hgranted, htold⟩ := hstage
    · exact absurd hp (habsent p)
    · exact .inr ⟨hguarded.act hgranted hp.1 hact, hgranted.act hact, htold⟩

theorem Machine.Ok.leaves (hs : s.Ok platform) (hsound : k.Sound) (h : ∀ i, Leaves i s.kernel k) :
    Machine.Ok platform { s with kernel := k } :=
  ⟨hsound, fun i c hc => (hs.check i c hc).leaves (h i) hsound, fun i hi => (hs.absent i hi).leaves (h i)⟩

theorem Machine.Ok.act {p : Nat} {a : Act Nat Limits} (hs : s.Ok platform) (hp : p ∈ s.kernel.live)
    (hstarting : ∀ i, (s.kernel.process p).origin = some i → s.isStarting i = false)
    (hact : s.kernel.act pidsMax p a = some k) : Machine.Ok platform { s with kernel := k } := by
  have hsound := hs.sound.act hact hp
  refine ⟨hsound, fun i c hc => ?_, fun i hi => ?_⟩
  · by_cases horigin : (s.kernel.process p).origin = some i
    · refine (hs.check i c hc).act ⟨hp, horigin⟩ (fun guard pid pre hstage => ?_) hact
      have hnot := hstarting i horigin
      obtain ⟨input, alive, told, stage⟩ := c
      obtain rfl : stage = _ := hstage
      rw [Machine.isStarting, hc] at hnot
      cases hnot
    · exact (hs.check i c hc).leaves (leaves_act hact horigin) hsound
  · have horigin : (s.kernel.process p).origin ≠ some i := fun horigin => hs.absent i hi p ⟨hp, horigin⟩
    exact (hs.absent i hi).leaves (leaves_act hact horigin)

def Action.Tampers : Action → Prop
  | .tampers _ => True
  | _ => False

/-- **The invariant is kept.** -/
theorem Machine.Ok.step {a : Action} (hs : s.Ok platform) (ha : ¬a.Tampers) (h : step platform s a = some t) :
    t.Ok platform := by
  cases a with
  | begins i input =>
    simp only [CheckLimits.step] at h
    split_ifs at h with hnew
    cases h
    exact hs.set (begin_keeps hs.sound (hs.absent i (by simpa using hnew)))
  | call i answers =>
    obtain ⟨c, hc, h⟩ := Option.bind_eq_some_iff.mp h
    split_ifs at h
    obtain ⟨⟨c', k⟩, hcall, rfl⟩ := Option.map_eq_some_iff.mp h
    exact hs.set (call_keeps hs.sound (hs.check i c hc) hcall)
  | proceeds i =>
    obtain ⟨c, hc, h⟩ := Option.bind_eq_some_iff.mp h
    split_ifs at h
    obtain ⟨c', hproceed, rfl⟩ := Option.map_eq_some_iff.mp h
    exact hs.set (proceed_keeps hs.sound (hs.check i c hc) hproceed)
  | spawns i pid =>
    obtain ⟨c, hc, h⟩ := Option.bind_eq_some_iff.mp h
    split_ifs at h
    obtain ⟨⟨c', k⟩, hspawn, rfl⟩ := Option.map_eq_some_iff.mp h
    exact hs.set (spawn_keeps hs.sound (hs.check i c hc) hspawn)
  | joins i written =>
    obtain ⟨c, hc, h⟩ := Option.bind_eq_some_iff.mp h
    obtain ⟨⟨c', k⟩, hjoin, rfl⟩ := Option.map_eq_some_iff.mp h
    exact hs.set (join_keeps hs.sound (hs.check i c hc) hjoin)
  | limits i errno =>
    obtain ⟨c, hc, h⟩ := Option.bind_eq_some_iff.mp h
    obtain ⟨⟨c', k⟩, hlimit, rfl⟩ := Option.map_eq_some_iff.mp h
    exact hs.set (limit_keeps hs.sound (hs.check i c hc) hlimit)
  | executes i errno =>
    obtain ⟨c, hc, h⟩ := Option.bind_eq_some_iff.mp h
    obtain ⟨⟨c', k⟩, hexecute, rfl⟩ := Option.map_eq_some_iff.mp h
    exact hs.set (execute_keeps hs.sound (hs.check i c hc) hexecute)
  | misses i =>
    obtain ⟨c, hc, h⟩ := Option.bind_eq_some_iff.mp h
    split_ifs at h
    obtain ⟨c', hmiss, rfl⟩ := Option.map_eq_some_iff.mp h
    exact hs.set (miss_keeps hs.sound (hs.check i c hc) hmiss)
  | returns i =>
    obtain ⟨c, hc, h⟩ := Option.bind_eq_some_iff.mp h
    split_ifs at h
    obtain ⟨c', hfinish, rfl⟩ := Option.map_eq_some_iff.mp h
    exact hs.set (finish_keeps hs.sound (hs.check i c hc) hfinish)
  | dies i =>
    obtain ⟨c, hc, rfl⟩ := Option.map_eq_some_iff.mp h
    exact hs.set (.same hs.sound ⟨(hs.check i c hc).notes, (hs.check i c hc).stage⟩)
  | acts p act =>
    simp only [CheckLimits.step] at h
    split_ifs at h with hp
    split at h
    · cases h
      exact hs.leaves hs.sound.kill fun i => leaves_kill
    · rename_i i act horigin _
      split_ifs at h with hstarting
      obtain ⟨k, hact, rfl⟩ := Option.map_eq_some_iff.mp h
      refine hs.act hp (fun j hj => ?_) hact
      obtain rfl := Option.some.inj (horigin.symm.trans hj)
      simpa using hstarting
    · rename_i act horigin _
      obtain ⟨k, hact, rfl⟩ := Option.map_eq_some_iff.mp h
      exact hs.act hp (fun j hj => by simp [horigin] at hj) hact
  | tampers k => exact absurd trivial ha

theorem always_ok {as : List Action} (hs : s.Ok platform) (has : ∀ a ∈ as, ¬a.Tampers) :
    Always (step platform) (Machine.Ok platform) s as :=
  always_of_meets (C := fun _ a => ¬a.Tampers) (fun _ _ _ hs ha h => hs.step ha h) hs (meets_of_mem has)

/-- The child has executed the check, or is gone. -/
def Stage.pastExec : Stage → Bool
  | .running _ | .ending _ _ | .finished _ => true
  | _ => false

theorem Check.Ok.pastExec (h : c.Ok platform k i) (hc : c.stage.pastExec = true) :
    Absent k i ∨ ∃ guard, Guarded platform k i c.input guard ∧ Granted platform k i c.input c.told guard := by
  have hstage := h.stage
  cases heq : c.stage with
  | preparing rest | spawning guard | starting guard pid pre =>
    rw [heq] at hc
    cases hc
  | running guard =>
    rw [heq] at hstage
    exact .inr ⟨guard, hstage⟩
  | ending dir rest =>
    rw [heq] at hstage
    obtain ⟨removed, -, hremoved⟩ := hstage
    split_ifs at hremoved
    · exact .inl hremoved
    · exact .inr ⟨some dir, hremoved⟩
  | finished guard =>
    rw [heq] at hstage
    exact hstage.imp_right fun h => ⟨guard, h.1, h.2.1⟩

/-- Nothing comes from a check yet. -/
structure Fresh (k : Kernel) : Prop where
  sound : k.Sound
  absent : ∀ i, Absent k i

theorem Fresh.ok (hk : Fresh k) : Machine.Ok platform ⟨k, fun _ => none⟩ :=
  ⟨hk.sound, fun _ _ h => absurd h (by simp), fun i _ => hk.absent i⟩

/-- A check with at most two processes and ten seconds of CPU time, on Linux below a group, where every call succeeds: it
forks one process, and is swept away after the evaluator has returned. -/
def linux : Platform := ⟨"linux", true, UInt64.size - 1, fun _ => rfl⟩

def twoProcesses : CheckInput :=
  ⟨some ⟨some 2, none, none, some 10⟩, some "/sys/fs/cgroup/nv", 5, 0, fun _ => 100, by simp [validate]⟩

def granting : (q : CgroupCall) → q.Answer
  | .isDir _ => true
  | .statfs _ => some cgroup2SuperMagic
  | .readProcs _ => .ok [7, 8]
  | .sigkill _ => ()
  | .delegate _ _ | .createDir _ | .setPidsMax _ _ | .setMemoryMax _ _ | .openProcs _ | .killAll _ | .removeDir _ => .ok ()

def idle : Kernel := ⟨∅, fun _ => ⟨none, none, fun _ => 100⟩, fun _ => none⟩

theorem fresh_idle : Fresh idle := ⟨fun p hp => by simp [idle] at hp, fun i p hp => by simp [idle, State.Of] at hp⟩

def forking : List Action :=
  [.begins 1 twoProcesses, .call 1 granting, .call 1 granting, .call 1 granting, .call 1 granting, .call 1 granting,
    .call 1 granting, .proceeds 1, .spawns 1 (some 7), .joins 1 (.ok 2), .limits 1 none, .limits 1 none,
    .executes 1 none, .acts 7 (.fork 8)]

def sweeping : List Action :=
  [.returns 1, .call 1 granting, .call 1 granting, .call 1 granting, .call 1 granting, .acts 7 .exit, .acts 8 .exit,
    .call 1 granting, .proceeds 1]

/-- A third process cannot be forked. -/
example : ((run (step linux) ⟨idle, fun _ => none⟩ forking).map fun s => s.kernel.live) = some {7, 8} ∧
    (run (step linux) ⟨idle, fun _ => none⟩ (forking ++ [.acts 8 (.fork 9)])).isNone ∧
    ((run (step linux) ⟨idle, fun _ => none⟩ (forking ++ sweeping)).map fun s => s.kernel.live) = some ∅ := by
  decide +kernel

/-- Every process that comes from a check has each limit that is configured, except the one that macOS does not enforce, which
was told; and the others at most as the evaluator has them. -/
def Machine.Limited (platform : Platform) (s : Machine) : Prop :=
  ∀ i c, s.checks i = some c → c.stage.pastExec = true → ∀ p, s.kernel.Of i p → ∀ r,
    (∀ value, c.input.limit r = some value → (s.kernel.process p).limits r ≤ value ∨
      r = .nproc ∧ platform.os = "macos" ∧ unenforcedWarning "nproc" ∈ c.told) ∧
    (c.input.limit r = none → (s.kernel.process p).limits r ≤ c.input.limits r)

/-- **Limits are in force**, at every moment of every run, for whatever descends from a check. -/
theorem limits_in_force (platform : Platform) (hk : Fresh k) (as : List Action) (has : ∀ a ∈ as, ¬a.Tampers) :
    Always (step platform) (Machine.Limited platform) ⟨k, fun _ => none⟩ as := by
  refine (always_ok hk.ok has).mono fun s hs i c hc hpast p hp r => ?_
  have hok := hs.check i c hc
  obtain habsent | ⟨guard, hguarded, -⟩ := hok.pastExec hpast
  · exact absurd hp (habsent p)
  have hlimit := hguarded.limits p hp r
  unfold InForce at hlimit
  constructor
  · intro value hvalue
    rw [hvalue] at hlimit
    refine hlimit.imp_right ?_
    rintro ⟨rfl, hmac⟩
    refine ⟨rfl, hmac, hok.notes (platform.isUnix (.inr hmac)) _ ?_⟩
    obtain ⟨spec, hspec, hnproc⟩ := Option.bind_eq_some_iff.mp hvalue
    have hsome : spec.nproc = some value := hnproc
    simp [CheckInput.notes, unenforcedNotes, hspec, hmac, hsome]
  · intro hnone
    rwa [hnone] at hlimit

theorem limits_in_force_forking : Always (step linux) (Machine.Limited linux) ⟨idle, fun _ => none⟩ forking :=
  limits_in_force linux fresh_idle forking (by simp [forking, Action.Tampers])

def processesOf (k : Kernel) (i : Nat) : Finset Nat := k.live.filter fun p => (k.process p).origin = some i

/-- Where a group is asked for, every process that comes from the check is in it, and they are never more than it may have; or
it was told that there is none. -/
def Machine.Grouped (platform : Platform) (s : Machine) : Prop :=
  ∀ i c base, s.checks i = some c → c.stage.pastExec = true → c.input.Requests platform base →
    (∃ e, degradedNote base e ∈ c.told) ∨
    ∀ p, s.kernel.Of i p → (s.kernel.process p).group = some c.input.leaf ∧
      s.kernel.groups c.input.leaf = some ⟨some i, c.input.caps⟩ ∧
      ∀ n, c.input.limit .nproc = some n → (processesOf s.kernel i).card ≤ n

/-- **A group is in force**, at every moment of every run, however the processes of a check fork. -/
theorem group_in_force (platform : Platform) (hk : Fresh k) (as : List Action) (has : ∀ a ∈ as, ¬a.Tampers) :
    Always (step platform) (Machine.Grouped platform) ⟨k, fun _ => none⟩ as := by
  refine (always_ok hk.ok has).mono fun s hs i c base hc hpast hrequests => ?_
  obtain habsent | ⟨guard, hguarded, hgranted⟩ := (hs.check i c hc).pastExec hpast
  · exact .inr fun p hp => absurd hp (habsent p)
  cases guard with
  | none => exact .inl (hgranted base hrequests)
  | some dir =>
    obtain ⟨rfl, hgroup⟩ := hgranted
    refine .inr fun p hp => ⟨hguarded.member p _ hp rfl, hgroup, fun n hn => ?_⟩
    refine (Finset.card_le_card fun q hq => ?_).trans (hguarded.capped _ n rfl hn)
    rw [processesOf, Finset.mem_filter] at hq
    exact mem_members.mpr ⟨hq.1, hguarded.member q _ hq rfl⟩

theorem group_in_force_forking : Always (step linux) (Machine.Grouped linux) ⟨idle, fun _ => none⟩ forking :=
  group_in_force linux fresh_idle forking (by simp [forking, Action.Tampers])

/-- When the evaluation of a check with a group is over, no process that comes from the check is live, or a warning was given
that the group is still there. -/
def Machine.Swept (s : Machine) : Prop :=
  ∀ i c dir, s.checks i = some c → c.stage = .finished (some dir) →
    processesOf s.kernel i = ∅ ∨ ∃ e, removeWarning dir e ∈ c.told

/-- **No process is left behind in silence**, however the processes of a check fork while they are killed. -/
theorem none_left_behind (platform : Platform) (hk : Fresh k) (as : List Action) (has : ∀ a ∈ as, ¬a.Tampers) :
    Always (step platform) Machine.Swept ⟨k, fun _ => none⟩ as := by
  refine (always_ok hk.ok has).mono fun s hs i c dir hc hover => ?_
  have hstage := (hs.check i c hc).stage
  rw [hover] at hstage
  obtain habsent | ⟨-, -, htold⟩ := hstage
  · exact .inl (Finset.filter_eq_empty_iff.mpr fun p hlive horigin => habsent p ⟨hlive, horigin⟩)
  · exact .inr (htold dir rfl)

theorem none_left_behind_sweeping :
    Always (step linux) Machine.Swept ⟨idle, fun _ => none⟩ (forking ++ sweeping) :=
  none_left_behind linux fresh_idle (forking ++ sweeping) (by simp [forking, sweeping, Action.Tampers])

end runs

end Nerve.Run.CheckLimits
