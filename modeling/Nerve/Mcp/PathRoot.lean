import Nerve.Mcp.Model
import Mathlib.Data.List.Infix
import Mathlib.Tactic.Common

/-!
# Paths that stay below the project root

A path argument is walked component by component, from the root if it is relative and from `/` if it is
absolute, without a look at the file system. `pathIsWithinRoot_iff` says of every candidate what the one
pass over a stack decides: an absolute candidate goes down to the root first, and nothing it visits from
there on is outside. It is not enough that it ends inside; `../project` leaves the root and is refused.
-/

namespace Nerve.Mcp

open FileTree Nerve.Patch

/-! ### The walk -/

/-- Where a component leads from a location, given as the names below `/`. A step back from `/` itself leads
nowhere, as `Path::parent` has it. -/
def walkStep (loc : Loc String) : Component → Option (Loc String)
  | .rootDir => some []
  | .curDir => some loc
  | .parentDir => if loc = [] then none else some loc.dropLast
  | .normal name => some (loc ++ [name])

def walk (loc : Loc String) : List Component → Option (Loc String)
  | [] => some loc
  | c :: cs => (walkStep loc c).bind fun loc => walk loc cs

/-- Every location that the walk visits is the root or below it. -/
def StaysBelow (root loc : Loc String) (cs : List Component) : Prop :=
  ∀ visited, visited <+: cs → ∃ loc', walk loc visited = some loc' ∧ root <+: loc'

/-- The walk of a candidate: an absolute one goes down to the root first, and from there on none leaves it. -/
def Within (root : Loc String) : List Component → Prop
  | .rootDir :: cs => ∃ down rest, cs = down ++ rest ∧ .parentDir ∉ down ∧ walk [] down = some root ∧
      StaysBelow root root rest
  | cs => StaysBelow root root cs

section Walk

variable {root loc : Loc String} {c : Component} {cs : List Component}

theorem walk_cons : walk loc (c :: cs) = (walkStep loc c).bind fun loc => walk loc cs := rfl

theorem staysBelow_nil : StaysBelow root loc [] ↔ root <+: loc := by
  simp [StaysBelow, walk]

theorem staysBelow_cons : StaysBelow root loc (c :: cs) ↔
    root <+: loc ∧ ∃ loc', walkStep loc c = some loc' ∧ StaysBelow root loc' cs := by
  constructor
  · intro h
    obtain ⟨here, hhere, hroot⟩ := h [] List.nil_prefix
    obtain rfl := Option.some.inj hhere
    refine ⟨hroot, ?_⟩
    obtain ⟨next, hnext, -⟩ := h [c] ⟨cs, rfl⟩
    obtain ⟨loc', hstep, -⟩ := Option.bind_eq_some_iff.mp hnext
    refine ⟨loc', hstep, fun visited hvisited => ?_⟩
    obtain ⟨last, hlast, hbelow⟩ := h (c :: visited) (List.cons_prefix_cons.mpr ⟨rfl, hvisited⟩)
    rw [walk_cons, hstep, Option.bind_some] at hlast
    exact ⟨last, hlast, hbelow⟩
  · rintro ⟨hroot, loc', hstep, hrest⟩ visited hvisited
    cases visited with
    | nil => exact ⟨loc, rfl, hroot⟩
    | cons d visited =>
      obtain ⟨rfl, htail⟩ := List.cons_prefix_cons.mp hvisited
      rw [walk_cons, hstep, Option.bind_some]
      exact hrest visited htail

/-- A walk that stays below the root ends there. -/
theorem StaysBelow.ends (h : StaysBelow root loc cs) : ∃ loc', walk loc cs = some loc' ∧ root <+: loc' :=
  h cs List.prefix_rfl

theorem StaysBelow.start (h : StaysBelow root loc cs) : root <+: loc := by
  obtain ⟨here, hhere, hroot⟩ := h [] List.nil_prefix
  obtain rfl := Option.some.inj hhere
  exact hroot

end Walk

/-! ### The stack -/

section Stack

/-- The stack of a location. -/
def stackOf (loc : Loc String) : List Component := .rootDir :: loc.map .normal

variable {root loc : Loc String} {cs : List Component} {stack final : List Component} {depth : Nat}

theorem length_stackOf : (stackOf loc).length = loc.length + 1 := by
  simp [stackOf]

theorem stackOf_prefix_iff {loc' : Loc String} : stackOf loc <+: stackOf loc' ↔ loc <+: loc' := by
  rw [stackOf, stackOf, List.cons_prefix_cons, and_iff_right rfl]
  exact List.prefix_map_iff_of_injective fun _ _ h => Component.normal.inj h

theorem stackOf_concat {name : String} : stackOf loc ++ [.normal name] = stackOf (loc ++ [name]) := by
  simp [stackOf]

theorem dropLast_stackOf (h : loc ≠ []) : (stackOf loc).dropLast = stackOf loc.dropLast := by
  rw [stackOf, List.dropLast_cons_of_ne_nil (by simpa using h), ← List.map_dropLast, stackOf]

/-- What lies below the boundary stays on the stack. -/
theorem take_prefix_of_walkComponents (h : walkComponents depth stack cs = some final) : stack.take depth <+: final := by
  have hpush (stack : List Component) (c : Component) : stack.take depth <+: (stack ++ [c]).take depth := by
    rw [List.take_append]
    exact List.prefix_append ..
  induction cs generalizing stack with
  | nil =>
    obtain rfl : stack = final := Option.some.inj h
    exact List.take_prefix depth stack
  | cons c cs ih =>
    cases c with
    | rootDir => exact (hpush stack _).trans (ih h)
    | normal name => exact (hpush stack _).trans (ih h)
    | curDir => exact ih h
    | parentDir =>
      rw [walkComponents] at h
      split_ifs at h with hlen
      have htake := ih h
      rwa [List.dropLast_eq_take, List.take_take, Nat.min_eq_left (by omega)] at htake

/-- From the root on, the pass goes through exactly if the walk stays below. -/
theorem accepts_iff_staysBelow (hbelow : root <+: loc) (hcs : .rootDir ∉ cs) :
    (walkComponents (stackOf root).length (stackOf loc) cs).any (stackOf root).isPrefixOf = true ↔
      StaysBelow root loc cs := by
  induction cs generalizing loc with
  | nil => simp [walkComponents, staysBelow_nil, stackOf_prefix_iff]
  | cons c cs ih =>
    obtain ⟨hc, htail⟩ := List.ne_and_not_mem_of_not_mem_cons hcs
    rw [staysBelow_cons, and_iff_right hbelow]
    cases c with
    | rootDir => exact absurd rfl hc
    | curDir =>
      rw [walkComponents, ih hbelow htail]
      simp [walkStep]
    | normal name =>
      rw [walkComponents, stackOf_concat, ih (hbelow.trans (List.prefix_append ..)) htail]
      · simp [walkStep]
      · exact nofun
      · exact nofun
    | parentDir =>
      rw [walkComponents, length_stackOf, length_stackOf]
      by_cases hlen : loc.length ≤ root.length
      · -- the walk is at the root itself, and leaves it
        obtain rfl : root = loc := hbelow.eq_of_length_le hlen
        rw [if_pos le_rfl]
        refine iff_of_false (by simp) ?_
        rintro ⟨loc', hstep, hrest⟩
        rw [walkStep] at hstep
        split_ifs at hstep with hnil
        obtain rfl := Option.some.inj hstep
        have hle := hrest.start.length_le
        have hpos : 0 < root.length := List.length_pos_iff.mpr hnil
        rw [List.length_dropLast] at hle
        omega
      · have hne : loc ≠ [] := List.ne_nil_of_length_pos (by omega)
        have hdrop : root <+: loc.dropLast :=
          List.prefix_of_prefix_length_le hbelow (List.dropLast_prefix loc) (by rw [List.length_dropLast]; omega)
        rw [if_neg (by omega), dropLast_stackOf hne, ← length_stackOf, ih hdrop htail]
        simp [walkStep, hne]

/-- On the way down the stack is that of the walk. -/
theorem walkComponents_down {down rest : List Component} {loc' : Loc String} (hroot : .rootDir ∉ down)
    (hparent : .parentDir ∉ down) (h : walk loc down = some loc') :
    walkComponents depth (stackOf loc) (down ++ rest) = walkComponents depth (stackOf loc') rest := by
  induction down generalizing loc with
  | nil =>
    obtain rfl : loc = loc' := Option.some.inj h
    rfl
  | cons c down ih =>
    obtain ⟨hc, hroot'⟩ := List.ne_and_not_mem_of_not_mem_cons hroot
    obtain ⟨hc', hparent'⟩ := List.ne_and_not_mem_of_not_mem_cons hparent
    rw [walk_cons] at h
    cases c with
    | rootDir => exact absurd rfl hc
    | parentDir => exact absurd rfl hc'
    | curDir => exact ih hroot' hparent' h
    | normal name =>
      rw [List.cons_append, walkComponents, stackOf_concat]
      · exact ih hroot' hparent' h
      · exact nofun
      · exact nofun

/-- From above, the pass goes through exactly if the walk goes down to the root and stays below. -/
theorem accepts_iff_goesDown (hlen : loc.length ≤ root.length) (hcs : .rootDir ∉ cs) :
    (walkComponents (stackOf root).length (stackOf loc) cs).any (stackOf root).isPrefixOf = true ↔
      ∃ down rest, cs = down ++ rest ∧ .parentDir ∉ down ∧ walk loc down = some root ∧ StaysBelow root root rest := by
  constructor
  · intro h
    induction cs generalizing loc with
    | nil =>
      rw [walkComponents, Option.any_some, List.isPrefixOf_iff_prefix, stackOf_prefix_iff] at h
      obtain rfl := h.eq_of_length_le hlen
      exact ⟨[], [], rfl, List.not_mem_nil, rfl, staysBelow_nil.mpr List.prefix_rfl⟩
    | cons c cs ih =>
      by_cases heq : loc = root
      · subst heq
        exact ⟨[], c :: cs, rfl, List.not_mem_nil, rfl, (accepts_iff_staysBelow List.prefix_rfl hcs).mp h⟩
      obtain ⟨hc, htail⟩ := List.ne_and_not_mem_of_not_mem_cons hcs
      -- at the depth of the root the stack is settled, so the walk is still above it
      have hlt : loc.length < root.length := by
        refine lt_of_le_of_ne hlen fun hlength => heq ?_
        obtain ⟨final, hfinal, hprefix⟩ := (Option.any_eq_true ..).mp h
        have hlengths : (stackOf loc).length = (stackOf root).length := by rw [length_stackOf, length_stackOf, hlength]
        have hkept := take_prefix_of_walkComponents hfinal
        rw [← hlengths, List.take_length] at hkept
        have hboth : stackOf loc <+: stackOf root :=
          List.prefix_of_prefix_length_le hkept (List.isPrefixOf_iff_prefix.mp hprefix) hlengths.le
        exact (stackOf_prefix_iff.mp hboth).eq_of_length hlength
      cases c with
      | rootDir => exact absurd rfl hc
      | parentDir =>
        rw [walkComponents, if_pos (by rw [length_stackOf, length_stackOf]; omega)] at h
        cases h
      | curDir =>
        obtain ⟨down, rest, rfl, hparent, hdown, hrest⟩ := ih hlen htail h
        exact ⟨.curDir :: down, rest, rfl, by simpa using hparent, hdown, hrest⟩
      | normal name =>
        have hpush : walkComponents (stackOf root).length (stackOf loc) (.normal name :: cs) =
            walkComponents (stackOf root).length (stackOf (loc ++ [name])) cs := by
          rw [← stackOf_concat]
          rfl
        rw [hpush] at h
        obtain ⟨down, rest, rfl, hparent, hdown, hrest⟩ := ih (by rw [List.length_append]; exact hlt) htail h
        exact ⟨.normal name :: down, rest, rfl, by simpa using hparent, hdown, hrest⟩
  · rintro ⟨down, rest, rfl, hparent, hdown, hrest⟩
    obtain ⟨hroot, hroot'⟩ : .rootDir ∉ down ∧ .rootDir ∉ rest := by simpa using hcs
    rw [walkComponents_down hroot hparent hdown]
    exact (accepts_iff_staysBelow List.prefix_rfl hroot').mpr hrest

end Stack

/-! ### The components of a path -/

theorem component_ne_rootDir {piece : List Char} : component piece ≠ some .rootDir := by
  unfold component
  split <;> simp

/-- Only a leading separator is the root directory. -/
theorem rootDir_notMem_tail {p : PathBuf} : .rootDir ∉ p.components.tail := by
  have hpieces (pieces : List (List Char)) : .rootDir ∉ pieces.filterMap component := by
    rw [List.mem_filterMap]
    rintro ⟨piece, -, h⟩
    exact component_ne_rootDir h
  unfold PathBuf.components
  split
  · exact List.not_mem_nil
  · exact List.not_mem_nil
  · exact hpieces _
  · exact hpieces _
  · exact fun h => hpieces _ (List.mem_of_mem_tail h)

theorem map_normal_filterMap {f : Component → Option String} (hf : ∀ name, f (.normal name) = some name)
    {cs : List Component} (hcs : ∀ c ∈ cs, ∃ name, c = .normal name) : (cs.filterMap f).map .normal = cs := by
  induction cs with
  | nil => rfl
  | cons c cs ih =>
    obtain ⟨⟨name, rfl⟩, htail⟩ := List.forall_mem_cons.mp hcs
    rw [List.filterMap_cons_some (hf name), List.map_cons, ih htail]

/-- A root without `.` and `..` is its location, below `/`. -/
theorem components_eq_stackOf {root : PathBuf} (habs : root.components.head? = some .rootDir)
    (hcur : .curDir ∉ root.components) (hparent : .parentDir ∉ root.components) :
    root.components = stackOf root.loc := by
  obtain ⟨names, hnames⟩ := List.head?_eq_some_iff.mp habs
  have hroot := rootDir_notMem_tail (p := root)
  rw [hnames] at hcur hparent hroot
  have hnormal : ∀ c ∈ names, ∃ name, c = .normal name := by
    intro c hc
    cases c with
    | rootDir => exact absurd hc hroot
    | curDir => exact absurd (List.mem_cons_of_mem _ hc) hcur
    | parentDir => exact absurd (List.mem_cons_of_mem _ hc) hparent
    | normal name => exact ⟨name, rfl⟩
  rw [PathBuf.loc, hnames, List.filterMap_cons_none rfl, stackOf, map_normal_filterMap (fun _ => rfl) hnormal]

/-! ### Every candidate -/

theorem walk_append {loc : Loc String} {cs rest : List Component} :
    walk loc (cs ++ rest) = (walk loc cs).bind fun loc => walk loc rest := by
  induction cs generalizing loc with
  | nil => rfl
  | cons c cs ih =>
    rw [List.cons_append, walk, walk, Option.bind_assoc]
    exact congrArg _ (funext fun _ => ih)

theorem within_relative {root : Loc String} {cs : List Component} (h : cs.head? ≠ some .rootDir) :
    Within root cs ↔ StaysBelow root root cs := by
  cases cs with
  | nil => rfl
  | cons c cs =>
    cases c with
    | rootDir => exact absurd rfl h
    | curDir | parentDir | normal => rfl

/-- A walk that stays within the root ends there. -/
theorem Within.ends {root : Loc String} {cs : List Component} (h : Within root cs) :
    ∃ loc, walk root cs = some loc ∧ root <+: loc := by
  by_cases hhead : cs.head? = some .rootDir
  · obtain ⟨cs, rfl⟩ := List.head?_eq_some_iff.mp hhead
    obtain ⟨down, rest, rfl, -, hdown, hrest⟩ := h
    obtain ⟨loc, hloc, hbelow⟩ := hrest.ends
    refine ⟨loc, ?_, hbelow⟩
    rw [walk_cons, walkStep, Option.bind_some, walk_append, hdown, Option.bind_some, hloc]
  · exact ((within_relative hhead).mp h).ends

/-- **What `path_is_within_root` decides**, of every candidate; one that is accepted resolves inside the root. -/
theorem pathIsWithinRoot_iff (root : PathBuf) (habs : root.components.head? = some .rootDir)
    (hcur : .curDir ∉ root.components) (hparent : .parentDir ∉ root.components) (candidate : String) :
    (pathIsWithinRoot candidate root = true ↔ Within root.loc (PathBuf.mk candidate).components) ∧
      (pathIsWithinRoot candidate root = true →
        ∃ loc, walk root.loc (PathBuf.mk candidate).components = some loc ∧ root.loc <+: loc) := by
  have hiff : pathIsWithinRoot candidate root = true ↔ Within root.loc (PathBuf.mk candidate).components := by
    have htail := rootDir_notMem_tail (p := ⟨candidate⟩)
    unfold pathIsWithinRoot
    dsimp only
    rw [components_eq_stackOf habs hcur hparent]
    by_cases hhead : (PathBuf.mk candidate).components.head? = some .rootDir
    · obtain ⟨cs, hcs⟩ := List.head?_eq_some_iff.mp hhead
      rw [hcs] at htail ⊢
      have hstart : ([] : Loc String).length ≤ root.loc.length := Nat.zero_le _
      exact accepts_iff_goesDown hstart htail
    · have hroot : .rootDir ∉ (PathBuf.mk candidate).components := by
        cases hcs : (PathBuf.mk candidate).components with
        | nil => exact List.not_mem_nil
        | cons c cs =>
          rw [hcs] at hhead htail
          exact List.not_mem_cons_of_ne_of_not_mem (fun h => hhead (h ▸ rfl)) htail
      rw [within_relative hhead, if_neg (by simpa using hhead)]
      exact accepts_iff_staysBelow List.prefix_rfl hroot
  exact ⟨hiff, fun h => (hiff.mp h).ends⟩

/-- Down and back inside the root, and out of it and in again. -/
theorem pathIsWithinRoot_reentry :
    (pathIsWithinRoot "a/../b" ⟨"/srv/project"⟩ = true ∧
      ∃ loc, walk ["srv", "project"] [.normal "a", .parentDir, .normal "b"] = some loc ∧ ["srv", "project"] <+: loc) ∧
    ¬ Within ["srv", "project"] [.parentDir, .normal "project", .normal "secret"] := by
  have hin := pathIsWithinRoot_iff ⟨"/srv/project"⟩ (by decide) (by decide) (by decide) "a/../b"
  have hout := pathIsWithinRoot_iff ⟨"/srv/project"⟩ (by decide) (by decide) (by decide) "../project/secret"
  have haccepts : pathIsWithinRoot "a/../b" ⟨"/srv/project"⟩ = true := by decide +kernel
  have hrefuses : ¬ pathIsWithinRoot "../project/secret" ⟨"/srv/project"⟩ = true := by decide +kernel
  exact ⟨⟨haccepts, hin.2 haccepts⟩, fun h => hrefuses (hout.1.mpr h)⟩

end Nerve.Mcp
