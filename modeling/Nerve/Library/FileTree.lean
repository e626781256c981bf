import Mathlib.Data.List.Infix
import Mathlib.Data.List.TakeWhile
import Mathlib.Logic.Function.Basic
import Mathlib.Tactic.Common

/-!
# Trees of files and directories

A tree without links: a location is the list of names on the way down from the
root, and holds a file, a directory, or nothing. What exists has a directory
above it, so that is part of the type. The operations are the ones a program
writing whole files uses: create the directories of a path, put a file in
place (a rename of a finished temporary file), unlink, read.

A program's changes are a list of effects, each a write or a clear, run in order
until one fails. Over the tree stands a flat map from locations to contents, in
which nothing fails. `exec_ok` says what one effect does, and that it fails just where it
clashes: a write below a file or on a directory, a clear on a directory. `run_ok` says that
a run on the tree computes the flat map.
-/

namespace Nerve.FileTree

variable {ν β : Type*}

/-- The names on the way down from the root. -/
abbrev Loc (ν : Type*) := List ν

/-- What a location holds. -/
inductive Node (β : Type*) where
  /-- A file and its content. -/
  | file (content : β)
  /-- A directory. -/
  | dir

/-- The kinds of failure of an operation. -/
inductive IoErrorKind where
  /-- Nothing is there. -/
  | notFound
  /-- A file stands where a directory is needed. -/
  | notADirectory
  /-- A directory stands where a file is needed. -/
  | isADirectory
  /-- A file stands where the directory itself is to be created. -/
  | alreadyExists
  /-- The directory itself is named where an entry in it is needed. -/
  | resourceBusy
  deriving DecidableEq, Repr

/-! ### Steps in order -/

section Steps

variable {σ γ ε : Type*} (step : σ → γ → Except ε σ)

/-- Do the steps in order until one fails. -/
def inOrder (s : σ) : List γ → Except ε Unit × σ
  | [] => (.ok (), s)
  | c :: cs =>
    match step s c with
    | .error e => (.error e, s)
    | .ok s' => inOrder s' cs

@[simp] theorem inOrder_nil (s : σ) : inOrder step s [] = (.ok (), s) := rfl

theorem inOrder_cons (s : σ) (c : γ) (cs : List γ) : inOrder step s (c :: cs) =
    match step s c with
    | .error e => (.error e, s)
    | .ok s' => inOrder step s' cs := rfl

variable {step}

theorem inOrder_append {s s₁ : σ} {cs cs' : List γ} (h : inOrder step s cs = (.ok (), s₁)) :
    inOrder step s (cs ++ cs') = inOrder step s₁ cs' := by
  induction cs generalizing s with
  | nil => cases h; rfl
  | cons c cs ih =>
    simp only [inOrder_cons, List.cons_append] at h ⊢
    split at h
    · simp at h
    · exact ih h

theorem inOrder_append_error {s s₁ : σ} {cs cs' : List γ} {e : ε} (h : inOrder step s cs = (.error e, s₁)) :
    inOrder step s (cs ++ cs') = (.error e, s₁) := by
  induction cs generalizing s with
  | nil => simp at h
  | cons c cs ih =>
    simp only [inOrder_cons, List.cons_append] at h ⊢
    split at h
    · simpa using h
    · exact ih h

theorem inOrder_append_ok {s s₂ : σ} {cs cs' : List γ} (h : inOrder step s (cs ++ cs') = (.ok (), s₂)) :
    ∃ s₁, inOrder step s cs = (.ok (), s₁) ∧ inOrder step s₁ cs' = (.ok (), s₂) := by
  rcases hcs : inOrder step s cs with ⟨e | ⟨⟩, s₁⟩
  · rw [inOrder_append_error hcs] at h
    cases h
  · exact ⟨s₁, rfl, inOrder_append hcs ▸ h⟩

/-- Steps that fail stop at one that fails after those before it. -/
theorem inOrder_error {s s' : σ} {cs : List γ} {e : ε} (h : inOrder step s cs = (.error e, s')) :
    ∃ done c rest, cs = done ++ c :: rest ∧ inOrder step s done = (.ok (), s') ∧ step s' c = .error e := by
  induction cs generalizing s with
  | nil => simp at h
  | cons c cs ih =>
    simp only [inOrder_cons] at h
    split at h
    next e' h₁ =>
      obtain ⟨he, rfl⟩ := Prod.mk.inj h
      exact ⟨[], c, cs, rfl, rfl, h₁.trans (congrArg Except.error (Except.error.inj he))⟩
    next s₁ h₁ =>
      obtain ⟨done, c', rest, rfl, hdone, hc⟩ := ih h
      exact ⟨c :: done, c', rest, rfl, by simp only [inOrder_cons, h₁, hdone], hc⟩

theorem inOrder_stop {s s₁ : σ} {done : List γ} (rest : List γ) {c : γ} {e : ε}
    (h : inOrder step s done = (.ok (), s₁)) (hc : step s₁ c = .error e) :
    inOrder step s (done ++ c :: rest) = (.error e, s₁) := by
  rw [inOrder_append h, inOrder_cons, hc]

end Steps

/-! ### Above -/

/-- `u` is a proper ancestor of `p`. -/
def Above (u p : Loc ν) : Prop := u <+: p ∧ u ≠ p

instance [DecidableEq ν] (u p : Loc ν) : Decidable (Above u p) := inferInstanceAs (Decidable (_ ∧ _))

theorem Above.trans {u v p : Loc ν} (h₁ : Above u v) (h₂ : Above v p) : Above u p := by
  refine ⟨h₁.1.trans h₂.1, ?_⟩
  rintro rfl
  exact h₁.2 (h₁.1.eq_of_length_le h₂.1.length_le)

theorem Above.ne {u p : Loc ν} (h : Above u p) : u ≠ p := h.2

@[simp] theorem not_above_self (p : Loc ν) : ¬ Above p p := fun h => h.2 rfl

theorem above_iff {u p : Loc ν} : Above u p ↔ ∃ k < p.length, u = p.take k := by
  constructor
  · rintro ⟨hp, hne⟩
    refine ⟨u.length, ?_, List.prefix_iff_eq_take.mp hp⟩
    exact lt_of_le_of_ne hp.length_le fun h => hne (hp.eq_of_length h)
  · rintro ⟨k, hk, rfl⟩
    refine ⟨List.take_prefix k p, fun h => ?_⟩
    have := congrArg List.length h
    simp at this
    omega

/-- Nothing lies between a location and its parent. -/
theorem above_iff_prefix_dropLast {u p : Loc ν} (hp : p ≠ []) : Above u p ↔ u <+: p.dropLast := by
  constructor
  · intro h
    obtain ⟨k, hk, rfl⟩ := above_iff.mp h
    rw [List.dropLast_eq_take]
    exact List.take_prefix_take_left (by omega)
  · intro h
    refine ⟨h.trans (List.dropLast_prefix p), fun e => ?_⟩
    have := h.length_le
    have hpos := List.length_pos_iff.mpr hp
    simp [e] at this
    omega

/-! ### The tree -/

/-- A tree: the root is a directory, and so is everything above what exists. -/
structure Tree (ν β : Type*) where
  /-- What each location holds. -/
  node : Loc ν → Option (Node β)
  root : node [] = some .dir
  closed : ∀ {u p}, Above u p → node p ≠ none → node u = some .dir

namespace Tree

@[ext] theorem ext {t t' : Tree ν β} (h : t.node = t'.node) : t = t' := by
  cases t; cases t'; cases h; rfl

variable (t t' : Tree ν β)

/-- The content of the file at `p`. -/
def file (p : Loc ν) : Option β :=
  match t.node p with
  | some (.file b) => some b
  | _ => none

/-- Whether `p` is a directory. -/
def isDir (p : Loc ν) : Bool :=
  match t.node p with
  | some .dir => true
  | _ => false

/-- Whether anything is at `p`. -/
def exists? (p : Loc ν) : Bool := (t.node p).isSome

/-- Whether a file stands on the way to `p`. -/
def blocked (p : Loc ν) : Bool := (List.range p.length).any fun k => (t.file (p.take k)).isSome

variable {t t'}

theorem isDir_iff {p : Loc ν} : t.isDir p = true ↔ t.node p = some .dir := by
  unfold isDir
  rcases t.node p with _ | _ | _ <;> simp

theorem file_eq_none_of_isDir {p : Loc ν} (h : t.isDir p = true) : t.file p = none := by
  rw [isDir_iff] at h
  simp [file, h]

/-- What exists is a directory or a file. -/
theorem exists?_iff {p : Loc ν} : t.exists? p = true ↔ t.isDir p = true ∨ (t.file p).isSome := by
  unfold exists? isDir file
  rcases t.node p with _ | _ | _ <;> simp

theorem isDir_root : t.isDir [] = true := isDir_iff.mpr t.root

theorem blocked_iff {p : Loc ν} : t.blocked p = true ↔ ∃ u, Above u p ∧ (t.file u).isSome := by
  simp only [blocked, List.any_eq_true, List.mem_range]
  constructor
  · rintro ⟨k, hk, h⟩
    exact ⟨_, above_iff.mpr ⟨k, hk, rfl⟩, h⟩
  · rintro ⟨u, hu, h⟩
    obtain ⟨k, hk, rfl⟩ := above_iff.mp hu
    exact ⟨k, hk, h⟩

/-- What stands on the way to `p` is the parent, or is on the way to it. -/
theorem blocked_iff_dropLast {p : Loc ν} (hp : p ≠ []) :
    t.blocked p = true ↔ (t.file p.dropLast).isSome ∨ t.blocked p.dropLast = true := by
  have hpar : Above p.dropLast p := (above_iff_prefix_dropLast hp).mpr (List.prefix_refl _)
  rw [blocked_iff, blocked_iff]
  constructor
  · rintro ⟨u, hu, hf⟩
    by_cases hup : u = p.dropLast
    · exact Or.inl (hup ▸ hf)
    · exact Or.inr ⟨u, ⟨(above_iff_prefix_dropLast hp).mp hu, hup⟩, hf⟩
  · rintro (hf | ⟨u, hu, hf⟩)
    · exact ⟨_, hpar, hf⟩
    · exact ⟨u, hu.trans hpar, hf⟩

/-- Above what exists are directories. -/
theorem isDir_of_above {u p : Loc ν} (hu : Above u p) (h : t.exists? p = true) : t.isDir u = true :=
  isDir_iff.mpr (t.closed hu (by simpa [exists?, Option.isSome_iff_ne_none] using h))

theorem isDir_above_file {u p : Loc ν} (hu : Above u p) (h : (t.file p).isSome) : t.isDir u = true :=
  isDir_of_above hu (exists?_iff.mpr (Or.inr h))

/-- Nothing stands in the way when everything above is a directory. -/
theorem not_blocked {p : Loc ν} (h : ∀ u, Above u p → t.isDir u = true) : t.blocked p = false := by
  rw [Bool.eq_false_iff, ne_eq, blocked_iff]
  rintro ⟨u, hu, hf⟩
  rw [file_eq_none_of_isDir (h u hu)] at hf
  cases hf

/-! ### Operations -/

variable (t)

/-- The tree with nothing in it. -/
def empty : Tree ν β where
  node p := if p.isEmpty then some .dir else none
  root := rfl
  closed := by
    rintro u p hu hp
    rcases p with _ | ⟨n, p⟩
    · exact absurd (List.prefix_nil.mp hu.1) hu.2
    · exact absurd rfl hp

/-- Read the file at `p`. -/
def read (p : Loc ν) : Except IoErrorKind β :=
  match t.node p with
  | some (.file b) => .ok b
  | some .dir => .error .isADirectory
  | none => if t.blocked p then .error .notADirectory else .error .notFound

variable [DecidableEq ν]

/-- Create the directory `p` and every directory on the way to it that is missing. -/
def createDirAll (p : Loc ν) : Except IoErrorKind (Tree ν β) :=
  if hf : (t.file p).isSome then .error .alreadyExists
  else if hb : t.blocked p then .error .notADirectory
  else .ok
    { node := fun q => if q <+: p then some .dir else t.node q
      root := by simp
      closed := by
        intro u q hu hq
        by_cases h : u <+: p
        · simp [h]
        · rw [if_neg h]
          refine t.closed hu ?_
          rwa [if_neg fun h' => h (hu.1.trans h')] at hq }

/-- Rename a finished temporary file, a sibling of `p`, over `p`. -/
def replace (p : Loc ν) (b : β) : Except IoErrorKind (Tree ν β) :=
  if hd : t.isDir p then .error .isADirectory
  else if hp : t.isDir p.dropLast then .ok
    { node := fun q => if q = p then some (.file b) else t.node q
      root := by
        rw [if_neg, t.root]
        rintro rfl
        exact hd isDir_root
      closed := by
        intro u q hu hq
        have hne : u ≠ p := by
          rintro rfl
          by_cases h : q = u
          · exact hu.2 h.symm
          · rw [if_neg h] at hq
            exact hd (isDir_iff.mpr (t.closed hu hq))
        rw [if_neg hne]
        by_cases h : q = p
        · subst h
          have hnil : q ≠ [] := by rintro rfl; exact hd isDir_root
          by_cases hu' : u = q.dropLast
          · rw [hu']; exact isDir_iff.mp hp
          · exact t.closed ⟨(above_iff_prefix_dropLast hnil).mp hu, hu'⟩ (by rw [isDir_iff.mp hp]; simp)
        · rw [if_neg h] at hq
          exact t.closed hu hq }
  else if t.blocked p then .error .notADirectory
  else .error .notFound

/-- Unlink the file at `p`. -/
def unlink (p : Loc ν) : Except IoErrorKind (Tree ν β) :=
  if hd : t.isDir p then .error .isADirectory
  else if t.exists? p then .ok
    { node := fun q => if q = p then none else t.node q
      root := by
        rw [if_neg, t.root]
        rintro rfl
        exact hd isDir_root
      closed := by
        intro u q hu hq
        have hq' : q ≠ p := by rintro rfl; simp at hq
        rw [if_neg hq'] at hq
        have hu' := t.closed hu hq
        rw [if_neg, hu']
        rintro rfl
        exact hd (isDir_iff.mpr hu') }
  else if t.blocked p then .error .notADirectory
  else .error .notFound

end Tree

/-! ### Effects -/

/-- A change to one location. -/
inductive Effect (ν β : Type*) where
  /-- The location becomes a file with this content; the directories above it are created. -/
  | write (p : Loc ν) (b : β)
  /-- The location becomes empty if it is a file. -/
  | clear (p : Loc ν)

namespace Effect

/-- The location changed. -/
def loc : Effect ν β → Loc ν
  | .write p _ | .clear p => p

/-- What the location holds afterwards. -/
def content : Effect ν β → Option β
  | .write _ b => some b
  | .clear _ => none

/-- The effect that leaves `c` at `p`. -/
def set (p : Loc ν) : Option β → Effect ν β
  | some b => .write p b
  | none => .clear p

@[simp] theorem loc_write (p : Loc ν) (b : β) : (Effect.write p b).loc = p := rfl
@[simp] theorem loc_clear (p : Loc ν) : (Effect.clear p : Effect ν β).loc = p := rfl
@[simp] theorem content_write (p : Loc ν) (b : β) : (Effect.write p b).content = some b := rfl
@[simp] theorem content_clear (p : Loc ν) : (Effect.clear p : Effect ν β).content = none := rfl

@[simp] theorem loc_set (p : Loc ν) (c : Option β) : (set p c).loc = p := by cases c <;> rfl
@[simp] theorem content_set (p : Loc ν) (c : Option β) : (set p c).content = c := by cases c <;> rfl

end Effect

variable [DecidableEq ν]

/-- Do one effect. To clear what is not there, or is below a file, is to do nothing. -/
def Tree.exec (t : Tree ν β) : Effect ν β → Except IoErrorKind (Tree ν β)
  | .write p b =>
    match t.createDirAll p.dropLast with
    | .error k => .error k
    | .ok t' => t'.replace p b
  | .clear p =>
    match t.unlink p with
    | .error .notFound | .error .notADirectory => .ok t
    | r => r

/-- Do the effects in order until one fails. -/
def Tree.run (t : Tree ν β) (E : List (Effect ν β)) : Except IoErrorKind Unit × Tree ν β := inOrder Tree.exec t E

/-- The effects on a flat map, where nothing fails. -/
def overlay (s : Loc ν → Option β) (E : List (Effect ν β)) : Loc ν → Option β :=
  E.foldl (fun s c => Function.update s c.loc c.content) s

/-- A write among `E` lands below `u`. -/
def Lands (E : List (Effect ν β)) (u : Loc ν) : Prop := ∃ c ∈ E, c.content.isSome ∧ Above u c.loc

instance (E : List (Effect ν β)) (u : Loc ν) : Decidable (Lands E u) :=
  inferInstanceAs (Decidable (∃ c ∈ E, _))

/-- The effect cannot be done: its location is a directory, or it is a write below a file. -/
def Tree.Clash (t : Tree ν β) (c : Effect ν β) : Prop :=
  t.isDir c.loc = true ∨ c.content.isSome ∧ t.blocked c.loc = true

@[simp] theorem overlay_nil (s : Loc ν → Option β) : overlay s [] = s := rfl

@[simp] theorem overlay_cons (s : Loc ν → Option β) (c : Effect ν β) (E : List (Effect ν β)) :
    overlay s (c :: E) = overlay (Function.update s c.loc c.content) E := rfl

theorem overlay_append (s : Loc ν → Option β) (E E' : List (Effect ν β)) :
    overlay s (E ++ E') = overlay (overlay s E) E' := List.foldl_append

/-- A location no effect names keeps its content. -/
theorem overlay_of_forall_ne {s : Loc ν → Option β} {E : List (Effect ν β)} {p : Loc ν}
    (h : ∀ c ∈ E, c.loc ≠ p) : overlay s E p = s p := by
  induction E generalizing s with
  | nil => rfl
  | cons c E ih =>
    rw [overlay_cons, ih fun c' hc' => h c' (List.mem_cons_of_mem _ hc'),
      Function.update_of_ne (h c (List.mem_cons_self ..)).symm]

omit [DecidableEq ν] in
theorem lands_cons {c : Effect ν β} {E : List (Effect ν β)} {u : Loc ν} :
    Lands (c :: E) u ↔ c.content.isSome ∧ Above u c.loc ∨ Lands E u := by
  simp [Lands]

omit [DecidableEq ν] in
@[simp] theorem not_lands_nil (u : Loc ν) : ¬ Lands ([] : List (Effect ν β)) u := by simp [Lands]

/-! ### The tree computes the flat map -/

/-- What a write does when it succeeds. -/
theorem Tree.exec_write_ok {t t' : Tree ν β} {p : Loc ν} {b : β} (h : t.exec (.write p b) = .ok t') :
    t.isDir p = false ∧ t.blocked p = false ∧
      t'.node = fun q => if q = p then some (.file b) else if Above q p then some .dir else t.node q := by
  simp only [exec, createDirAll] at h
  split_ifs at h with hf hb
  simp only [replace] at h
  split_ifs at h with hd hp hbl
  cases h
  have hdp : t.isDir p = false := by
    rw [Bool.eq_false_iff]
    intro hdir
    refine hd (isDir_iff.mpr ?_)
    simp [isDir_iff.mp hdir]
  have hnil : p ≠ [] := by
    rintro rfl
    rw [isDir_root] at hdp
    cases hdp
  refine ⟨hdp, ?_, ?_⟩
  · rw [Bool.eq_false_iff, ne_eq, blocked_iff_dropLast hnil]
    exact not_or.mpr ⟨hf, hb⟩
  · funext q
    simp only [above_iff_prefix_dropLast hnil]

/-- A write succeeds off directories and not below a file. -/
theorem Tree.exists_exec_write {t : Tree ν β} {p : Loc ν} (b : β) (hd : t.isDir p = false)
    (hb : t.blocked p = false) : ∃ t', t.exec (.write p b) = .ok t' := by
  have hnil : p ≠ [] := by
    rintro rfl
    rw [isDir_root] at hd
    cases hd
  rw [Bool.eq_false_iff, ne_eq, blocked_iff_dropLast hnil] at hb
  obtain ⟨hf, hb'⟩ := not_or.mp hb
  simp only [exec, createDirAll, hf, hb', Bool.false_eq_true, dite_false]
  have hpd : ¬ p <+: p.dropLast := fun h => not_above_self p ((above_iff_prefix_dropLast hnil).mpr h)
  simp only [replace]
  rw [dif_neg, dif_pos]
  · exact ⟨_, rfl⟩
  · simp [isDir]
  · simp only [isDir, hpd, if_false]
    simpa [isDir] using hd

/-- What a clear does when it succeeds. -/
theorem Tree.exec_clear_ok {t t' : Tree ν β} {p : Loc ν} (h : t.exec (.clear p) = .ok t') :
    t.isDir p = false ∧ t'.node = fun q => if q = p then none else t.node q := by
  have hnone (hd : ¬ t.isDir p = true) (he : ¬ t.exists? p = true) :
      t.node = fun q => if q = p then none else t.node q := by
    funext q
    split_ifs with hq
    · subst hq
      simpa [exists?] using he
    · rfl
  simp only [exec, unlink] at h
  split_ifs at h with hd he hb
  · cases h
    exact ⟨Bool.eq_false_iff.mpr hd, rfl⟩
  · cases h
    exact ⟨Bool.eq_false_iff.mpr hd, hnone hd he⟩
  · cases h
    exact ⟨Bool.eq_false_iff.mpr hd, hnone hd he⟩

theorem Tree.exists_exec_clear {t : Tree ν β} {p : Loc ν} (hd : t.isDir p = false) :
    ∃ t', t.exec (.clear p) = .ok t' := by
  simp only [exec, unlink, hd, Bool.false_eq_true, dite_false]
  split_ifs <;> exact ⟨_, rfl⟩

/-- **One effect**: when it succeeds it changes its own location, and turns into
directories what lies above a write. -/
theorem Tree.exec_ok {t t' : Tree ν β} {c : Effect ν β} (h : t.exec c = .ok t') :
    ¬ t.Clash c ∧ t'.file = Function.update t.file c.loc c.content ∧
      ∀ u, t'.isDir u = true ↔ t.isDir u = true ∨ c.content.isSome ∧ Above u c.loc := by
  cases c with
  | write p b =>
    obtain ⟨hd, hb, hn⟩ := exec_write_ok h
    refine ⟨by simp [Clash, hd, hb], ?_, fun u => ?_⟩
    · funext q
      by_cases hq : q = p
      · subst hq; simp [file, hn]
      · simp only [Effect.loc_write, Function.update_of_ne hq, file, hn, if_neg hq]
        split_ifs with ha
        · have : t.file q = none := by
            by_contra hne
            exact Bool.eq_false_iff.mp hb (blocked_iff.mpr ⟨q, ha, Option.isSome_iff_ne_none.mpr hne⟩)
          simpa [file] using this.symm
        · rfl
    · simp only [isDir_iff, hn, Effect.content_write, Option.isSome_some, true_and, Effect.loc_write]
      by_cases hu : u = p
      · subst hu
        simp only [if_true, Option.some.injEq, reduceCtorEq, not_above_self, or_false, false_iff]
        rw [← isDir_iff, hd]
        simp
      · by_cases ha : Above u p <;> simp [hu, ha]
  | clear p =>
    obtain ⟨hd, hn⟩ := exec_clear_ok h
    refine ⟨by simp [Clash, hd], ?_, fun u => ?_⟩
    · funext q
      by_cases hq : q = p
      · subst hq; simp [file, hn]
      · simp [file, hn, hq]
    · simp only [isDir_iff, hn, Effect.content_clear, Option.isSome_none, Bool.false_eq_true, false_and,
        or_false]
      by_cases hu : u = p
      · subst hu
        rw [← isDir_iff, hd]
        simp
      · simp [hu]

theorem Tree.exec_of_not_clash {t : Tree ν β} {c : Effect ν β} (h : ¬ t.Clash c) : ∃ t', t.exec c = .ok t' := by
  simp only [Clash, not_or, Bool.not_eq_true, not_and] at h
  cases c with
  | write p b => exact exists_exec_write b h.1 (h.2 rfl)
  | clear p => exact exists_exec_clear h.1

@[simp] theorem Tree.run_nil (t : Tree ν β) : t.run [] = (.ok (), t) := rfl

theorem Tree.run_cons (t : Tree ν β) (c : Effect ν β) (E : List (Effect ν β)) : t.run (c :: E) =
    match t.exec c with
    | .error k => (.error k, t)
    | .ok t' => t'.run E := by
  rw [run, inOrder_cons]
  cases t.exec c <;> rfl

theorem Tree.run_append {t t₁ : Tree ν β} {E E' : List (Effect ν β)} (h : t.run E = (.ok (), t₁)) :
    t.run (E ++ E') = t₁.run E' := inOrder_append h

/-- **A run that succeeds** leaves the files of the flat map, and as directories
what was one and what it wrote below. -/
theorem Tree.run_ok {t t' : Tree ν β} {E : List (Effect ν β)} (h : t.run E = (.ok (), t')) :
    t'.file = overlay t.file E ∧ ∀ u, t'.isDir u = true ↔ t.isDir u = true ∨ Lands E u := by
  induction E generalizing t with
  | nil => cases h; simp
  | cons c E ih =>
    simp only [run_cons] at h
    split at h
    · simp at h
    next t₁ h₁ =>
      obtain ⟨-, hf, hd⟩ := exec_ok h₁
      obtain ⟨hf', hd'⟩ := ih h
      refine ⟨by rw [hf', hf, overlay_cons], fun u => ?_⟩
      rw [hd', hd, lands_cons, or_assoc]

/-- Directories stay. -/
theorem Tree.isDir_run {t t' : Tree ν β} {E : List (Effect ν β)} (h : t.run E = (.ok (), t')) {u : Loc ν}
    (hu : t.isDir u = true) : t'.isDir u = true := ((run_ok h).2 u).mpr (Or.inl hu)

/-- A write that fails at its rename has created no directory on the way. -/
theorem Tree.eq_of_replace_error {t t₁ : Tree ν β} {p : Loc ν} {b : β} {k : IoErrorKind}
    (h : t.createDirAll p.dropLast = .ok t₁) (h' : t₁.replace p b = .error k) : t₁ = t := by
  simp only [createDirAll] at h
  split_ifs at h with hf hb
  cases h
  have hdir : ∀ q, q <+: p.dropLast → t.node q = some .dir := by
    intro q hq
    by_cases hnil : p = []
    · subst hnil
      rw [List.prefix_nil.mp hq, t.root]
    · have hd : t.isDir p = true := by
        simp only [replace] at h'
        split_ifs at h' with hd hp hbl
        · have hpre : ¬ p <+: p.dropLast := fun hpre =>
            not_above_self p ((above_iff_prefix_dropLast hnil).mpr hpre)
          simpa [isDir, hpre] using hd
        all_goals exact absurd (isDir_iff.mpr (by simp)) hp
      exact t.closed ((above_iff_prefix_dropLast hnil).mpr hq) (by rw [isDir_iff.mp hd]; simp)
  ext1
  funext q
  by_cases hq : q <+: p.dropLast
  · simp [hq, hdir q hq]
  · simp [hq]

/-- A run none of whose effects clashes with the tree it starts from, each below
directories only, succeeds and creates no directory. -/
theorem Tree.run_of_settled {t : Tree ν β} {E : List (Effect ν β)} (hd : ∀ c ∈ E, t.isDir c.loc = false)
    (ha : ∀ c ∈ E, c.content.isSome → ∀ u, Above u c.loc → t.isDir u = true) :
    ∃ t', t.run E = (.ok (), t') ∧ t'.file = overlay t.file E ∧ ∀ u, t'.isDir u = t.isDir u := by
  induction E generalizing t with
  | nil => exact ⟨t, rfl, rfl, fun _ => rfl⟩
  | cons c E ih =>
    have hcl : ¬ t.Clash c := by
      simp only [Clash, hd c (List.mem_cons_self ..), Bool.false_eq_true, false_or, not_and,
        Bool.not_eq_true]
      exact fun hs => not_blocked (ha c (List.mem_cons_self ..) hs)
    obtain ⟨t₁, h₁⟩ := exec_of_not_clash hcl
    obtain ⟨-, hf, hdir⟩ := exec_ok h₁
    have hsame : ∀ u, t₁.isDir u = t.isDir u := fun u => by
      rw [Bool.eq_iff_iff, hdir]
      exact ⟨fun h => h.elim id fun h => ha c (List.mem_cons_self ..) h.1 u h.2, Or.inl⟩
    obtain ⟨t₂, h₂, hf₂, hd₂⟩ := ih (t := t₁)
      (fun c' hc' => by rw [hsame]; exact hd c' (List.mem_cons_of_mem _ hc'))
      (fun c' hc' hs u hu => by rw [hsame]; exact ha c' (List.mem_cons_of_mem _ hc') hs u hu)
    exact ⟨t₂, by simp only [run_cons, h₁, h₂], by rw [hf₂, hf, overlay_cons], fun u => by rw [hd₂, hsame]⟩

/-! ### Locations that a run names -/

/-- What a location holds after effects that name it does not depend on what it held. -/
theorem overlay_congr {s s' : Loc ν → Option β} {E : List (Effect ν β)} {q : Loc ν} (h : ∃ c ∈ E, c.loc = q) :
    overlay s E q = overlay s' E q := by
  induction E generalizing s s' with
  | nil => simp at h
  | cons c E ih =>
    rw [overlay_cons, overlay_cons]
    by_cases hE : ∃ c ∈ E, c.loc = q
    · exact ih hE
    · have hne : ∀ c' ∈ E, c'.loc ≠ q := fun c' hc' he => hE ⟨c', hc', he⟩
      obtain ⟨c', hc', rfl⟩ := h
      rcases List.mem_cons.mp hc' with rfl | hc'
      · rw [overlay_of_forall_ne hne, overlay_of_forall_ne hne, Function.update_self, Function.update_self]
      · exact absurd rfl (hne c' hc')

/-- A location that is written and never cleared holds a file. -/
theorem overlay_isSome {s : Loc ν → Option β} {E : List (Effect ν β)} {q : Loc ν} (h : ∃ c ∈ E, c.loc = q)
    (hw : ∀ c ∈ E, c.loc = q → c.content.isSome) : (overlay s E q).isSome := by
  induction E generalizing s with
  | nil => simp at h
  | cons c E ih =>
    rw [overlay_cons]
    by_cases hE : ∃ c ∈ E, c.loc = q
    · exact ih hE fun c' hc' => hw c' (List.mem_cons_of_mem _ hc')
    · have hne : ∀ c' ∈ E, c'.loc ≠ q := fun c' hc' he => hE ⟨c', hc', he⟩
      obtain ⟨c', hc', rfl⟩ := h
      rcases List.mem_cons.mp hc' with rfl | hc'
      · rw [overlay_of_forall_ne hne, Function.update_self]
        exact hw c' (List.mem_cons_self ..) rfl
      · exact absurd rfl (hne c' hc')

/-- A run that writes a location, and does not clear it, writes nothing below it. -/
theorem Tree.not_lands_of_written {t t' : Tree ν β} {E : List (Effect ν β)} {q : Loc ν} (h : t.run E = (.ok (), t'))
    (hq : ∃ c ∈ E, c.loc = q) (hw : ∀ c ∈ E, c.loc = q → c.content.isSome) : ¬ Lands E q := by
  intro hlands
  obtain ⟨hfile, hdir⟩ := run_ok h
  have hnone := file_eq_none_of_isDir ((hdir q).mpr (Or.inr hlands))
  rw [hfile, ← Option.not_isSome_iff_eq_none] at hnone
  exact hnone (overlay_isSome hq hw)

/-! ### Putting back -/

/-- The effects that put `L` back as the map `s` has it. -/
def putBack (s : Loc ν → Option β) (L : List (Loc ν)) : List (Effect ν β) := L.map fun q => .set q (s q)

theorem overlay_putBack (s s' : Loc ν → Option β) (L : List (Loc ν)) :
    overlay s' (putBack s L) = fun q => if q ∈ L then s q else s' q := by
  induction L generalizing s' with
  | nil => rfl
  | cons p L ih =>
    simp only [putBack, List.map_cons, overlay_cons, Effect.loc_set, Effect.content_set] at ih ⊢
    rw [ih]
    funext q
    by_cases hq : q = p
    · subst hq; simp
    · simp [hq]

end Nerve.FileTree
