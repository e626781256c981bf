import Nerve.Library.FileTree

/-!
# Trees with links

A tree some of whose files are links: a link holds a path, absolute or read from the
directory the link is in. A path is walked one component at a time from a directory, each
link met on the way replaced by the path it holds, until the components are used up. A walk
that meets more links than it may follow gives up, as an operating system does; how many it may
follow is a number given with the walk.

What a walk does is fixed by its first component, so everything about walks is by
`walk_induct`: a walk can be cut where a shorter one ends (`walk_append`), it finds the same place
when it may follow more links (`walk_mono`) or when the tree has grown (`walk_ext`), and it ends at
something that is not a link (`walk_direct`).

Over the walks stand the operations that change a tree: create a directory, create all the
directories of a path, put a file in place, unlink. Each notes the locations it changes.
`createDirAll_cases` says what the second does: it makes the end of a path of which a
beginning leads to a directory where nothing has the name that comes next (`Landing`), or
nothing at all.
-/

namespace Nerve.LinkedTree

open Nerve.FileTree

variable {ν β : Type*}

/-- One component of a path. -/
inductive Step (ν : Type*) where
  | stay
  | up
  | name (n : ν)
  deriving DecidableEq, Repr

/-- A path, read from the root or from some directory. -/
structure Path (ν : Type*) where
  absolute : Bool
  steps : List (Step ν)
  deriving DecidableEq, Repr

/-- What a leaf of the tree holds. -/
inductive Content (ν β : Type*) where
  | plain (content : β)
  | link (target : Path ν)

/-- A tree with links. -/
abbrev Linked (ν β : Type*) := Tree ν (Content ν β)

/-- A directory of the tree. -/
abbrev Directory (t : Linked ν β) := {l : Loc ν // t.node l = some .dir}

inductive Failure where
  | io (kind : IoErrorKind)
  | tooManyLinks
  deriving DecidableEq, Repr

/-- Where a path begins that is read from `l`. -/
def Path.start (p : Path ν) (l : Loc ν) : Loc ν := if p.absolute then [] else l

/-! ### Walking -/

section Walk

variable (t : Linked ν β)

/-- Where a component leads from the directory `l`: to a location, or to a link. -/
def hop (l : Loc ν) : Step ν → Loc ν ⊕ Path ν
  | .stay => .inl l
  | .up => .inl l.dropLast
  | .name n =>
    match t.node (l ++ [n]) with
    | some (.file (.link target)) => .inr target
    | _ => .inl (l ++ [n])

/-- Walk, with `follow` for what is left when a link has been met. -/
def walkWith (follow : Loc ν → List (Step ν) → Except Failure (Loc ν)) :
    Loc ν → List (Step ν) → Except Failure (Loc ν)
  | l, [] => if t.exists? l then .ok l else .error (.io .notFound)
  | l, s :: rest =>
    match t.node l with
    | none => .error (.io .notFound)
    | some (.file _) => .error (.io .notADirectory)
    | some .dir =>
      match hop t l s with
      | .inl l' => walkWith follow l' rest
      | .inr target => follow (target.start l) (target.steps ++ rest)

/-- The location the components lead to from `l`, following at most so many links. -/
def walk : ℕ → Loc ν → List (Step ν) → Except Failure (Loc ν)
  | 0 => walkWith t fun _ _ => .error .tooManyLinks
  | k + 1 => walkWith t (walk k)

/-- The location a path leads to, read from `l`. -/
def resolve (k : ℕ) (l : Loc ν) (p : Path ν) : Except Failure (Loc ν) := walk t k (p.start l) p.steps

/-- What is at `l` is there, and is not a link. -/
def Direct (l : Loc ν) : Prop :=
  t.node l = some .dir ∨ ∃ content, t.node l = some (.file (.plain content))

end Walk

variable {t : Linked ν β} {k : ℕ} {l m : Loc ν} {s : Step ν} {rest : List (Step ν)}

/-- A path read from a directory begins at a directory. -/
theorem Path.start_isDir (p : Path ν) (h : t.node l = some .dir) : t.node (p.start l) = some .dir := by
  unfold Path.start
  split_ifs
  exacts [t.root, h]

section WalkWith

variable {follow : Loc ν → List (Step ν) → Except Failure (Loc ν)}

theorem walkWith_nil : walkWith t follow l [] = if t.exists? l then .ok l else .error (.io .notFound) := rfl

theorem walkWith_cons : walkWith t follow l (s :: rest) =
    match t.node l with
    | none => .error (.io .notFound)
    | some (.file _) => .error (.io .notADirectory)
    | some .dir =>
      match hop t l s with
      | .inl l' => walkWith t follow l' rest
      | .inr target => follow (target.start l) (target.steps ++ rest) := rfl

theorem walkWith_missing (h : t.node l = none) (steps : List (Step ν)) :
    walkWith t follow l steps = .error (.io .notFound) := by
  cases steps with
  | nil => rw [walkWith_nil, if_neg (by simp [Tree.exists?, h])]
  | cons s rest => rw [walkWith_cons, h]

theorem walkWith_link {target : Path ν} (h : t.node l = some .dir) (hs : hop t l s = .inr target) :
    walkWith t follow l (s :: rest) = follow (target.start l) (target.steps ++ rest) := by
  rw [walkWith_cons, h]
  dsimp only
  rw [hs]

/-- Whatever it does with a link, a walk takes its components one by one. -/
theorem exists_walk_eq (t : Linked ν β) (k : ℕ) : ∃ follow, walk t k = walkWith t follow := by
  cases k <;> exact ⟨_, rfl⟩

end WalkWith

theorem walk_nil : walk t k l [] = if t.exists? l then .ok l else .error (.io .notFound) := by
  obtain ⟨follow, hwalk⟩ := exists_walk_eq t k
  rw [hwalk, walkWith_nil]

theorem walk_missing (h : t.node l = none) (steps : List (Step ν)) :
    walk t k l steps = .error (.io .notFound) := by
  obtain ⟨follow, hwalk⟩ := exists_walk_eq t k
  rw [hwalk, walkWith_missing h]

theorem walk_file {c : Content ν β} (h : t.node l = some (.file c)) :
    walk t k l (s :: rest) = .error (.io .notADirectory) := by
  obtain ⟨follow, hwalk⟩ := exists_walk_eq t k
  rw [hwalk, walkWith_cons, h]

theorem walk_hop {l' : Loc ν} (h : t.node l = some .dir) (hs : hop t l s = .inl l') :
    walk t k l (s :: rest) = walk t k l' rest := by
  obtain ⟨follow, hwalk⟩ := exists_walk_eq t k
  rw [hwalk, walkWith_cons, h]
  dsimp only
  rw [hs]

theorem walk_loop {target : Path ν} (h : t.node l = some .dir) (hs : hop t l s = .inr target) :
    walk t 0 l (s :: rest) = .error .tooManyLinks := walkWith_link h hs

theorem walk_follow {target : Path ν} (h : t.node l = some .dir) (hs : hop t l s = .inr target) :
    walk t (k + 1) l (s :: rest) = walk t k (target.start l) (target.steps ++ rest) := walkWith_link h hs

/-- A walk is at its end, or goes nowhere, or takes a component, or meets a link. -/
@[elab_as_elim] theorem walk_induct {motive : ℕ → Loc ν → List (Step ν) → Prop} (t : Linked ν β)
    (nil : ∀ k l, motive k l [])
    (missing : ∀ k l s rest, t.node l = none → motive k l (s :: rest))
    (file : ∀ k l s rest c, t.node l = some (.file c) → motive k l (s :: rest))
    (hopped : ∀ k l s rest l', t.node l = some .dir → hop t l s = .inl l' → motive k l' rest →
      motive k l (s :: rest))
    (loop : ∀ l s rest target, t.node l = some .dir → hop t l s = .inr target → motive 0 l (s :: rest))
    (follow : ∀ k l s rest target, t.node l = some .dir → hop t l s = .inr target →
      motive k (target.start l) (target.steps ++ rest) → motive (k + 1) l (s :: rest))
    (k : ℕ) (l : Loc ν) (steps : List (Step ν)) : motive k l steps := by
  induction k generalizing l steps with
  | zero =>
    induction steps generalizing l with
    | nil => exact nil 0 l
    | cons s rest ih =>
      rcases h : t.node l with _ | c | _
      · exact missing 0 l s rest h
      · exact file 0 l s rest c h
      · rcases hs : hop t l s with l' | target
        · exact hopped 0 l s rest l' h hs (ih l')
        · exact loop l s rest target h hs
  | succ k ihk =>
    induction steps generalizing l with
    | nil => exact nil (k + 1) l
    | cons s rest ih =>
      rcases h : t.node l with _ | c | _
      · exact missing (k + 1) l s rest h
      · exact file (k + 1) l s rest c h
      · rcases hs : hop t l s with l' | target
        · exact hopped (k + 1) l s rest l' h hs (ih l')
        · exact follow k l s rest target h hs (ihk _ _)

/-! ### A walk and the rest of it -/

/-- A walk that arrives goes on from where it is, with the links it has left. -/
theorem walk_append {steps : List (Step ν)} (h : walk t k l steps = .ok m) :
    ∃ j ≤ k, ∀ more, walk t k l (steps ++ more) = walk t j m more := by
  induction k, l, steps using walk_induct t with
  | nil k l =>
    rw [walk_nil] at h
    split_ifs at h
    cases h
    exact ⟨k, le_rfl, fun _ => rfl⟩
  | missing k l s rest hn => rw [walk_missing hn] at h; cases h
  | file k l s rest c hn => rw [walk_file hn] at h; cases h
  | hopped k l s rest l' hn hs ih =>
    rw [walk_hop hn hs] at h
    obtain ⟨j, hj, hmore⟩ := ih h
    refine ⟨j, hj, fun more => ?_⟩
    rw [List.cons_append, walk_hop hn hs, hmore]
  | loop l s rest target hn hs => rw [walk_loop hn hs] at h; cases h
  | follow k l s rest target hn hs ih =>
    rw [walk_follow hn hs] at h
    obtain ⟨j, hj, hmore⟩ := ih h
    refine ⟨j, by omega, fun more => ?_⟩
    rw [List.cons_append, walk_follow hn hs, ← List.append_assoc, hmore]

/-- A walk that fails fails whatever comes after. -/
theorem walk_append_error {steps : List (Step ν)} {e : Failure} (h : walk t k l steps = .error e)
    (more : List (Step ν)) : walk t k l (steps ++ more) = .error e := by
  induction k, l, steps using walk_induct t with
  | nil k l =>
    rw [walk_nil] at h
    split_ifs at h with hx
    cases h
    exact walk_missing (by simpa [Tree.exists?] using hx) more
  | missing k l s rest hn => rwa [walk_missing hn] at h ⊢
  | file k l s rest c hn => rwa [List.cons_append, walk_file hn] at *
  | hopped k l s rest l' hn hs ih =>
    rw [walk_hop hn hs] at h
    rw [List.cons_append, walk_hop hn hs, ih h]
  | loop l s rest target hn hs => rwa [List.cons_append, walk_loop hn hs] at *
  | follow k l s rest target hn hs ih =>
    rw [walk_follow hn hs] at h
    rw [List.cons_append, walk_follow hn hs, ← List.append_assoc, ih h]

/-- A beginning of a walk that arrives arrives. -/
theorem walk_left {steps more : List (Step ν)} (h : walk t k l (steps ++ more) = .ok m) :
    ∃ m', walk t k l steps = .ok m' := by
  rcases hw : walk t k l steps with e | m'
  · rw [walk_append_error hw] at h
    cases h
  · exact ⟨m', rfl⟩

/-- With one more link to follow a walk arrives where it did. -/
theorem walk_succ {steps : List (Step ν)} (h : walk t k l steps = .ok m) : walk t (k + 1) l steps = .ok m := by
  induction k, l, steps using walk_induct t with
  | nil k l => rwa [walk_nil] at h ⊢
  | missing k l s rest hn => rw [walk_missing hn] at h; cases h
  | file k l s rest c hn => rw [walk_file hn] at h; cases h
  | hopped k l s rest l' hn hs ih =>
    rw [walk_hop hn hs] at h ⊢
    exact ih h
  | loop l s rest target hn hs => rw [walk_loop hn hs] at h; cases h
  | follow k l s rest target hn hs ih =>
    rw [walk_follow hn hs] at h ⊢
    exact ih h

theorem walk_mono {steps : List (Step ν)} {j : ℕ} (hj : j ≤ k) (h : walk t j l steps = .ok m) :
    walk t k l steps = .ok m := by
  induction hj with
  | refl => exact h
  | step _ ih => exact walk_succ ih

/-- What a walk arrives at is there. -/
theorem walk_exists {steps : List (Step ν)} (h : walk t k l steps = .ok m) : t.exists? m = true := by
  obtain ⟨j, -, hmore⟩ := walk_append h
  have hm := hmore []
  rw [List.append_nil, h, walk_nil] at hm
  split_ifs at hm with hx
  exact hx

theorem Direct.exists? (h : Direct t l) : t.exists? l = true := by
  rcases h with h | ⟨c, h⟩ <;> simp [Tree.exists?, h]

/-- A name that is no link leads to its location. -/
theorem hop_name {n : ν} (h : ∀ target, t.node (l ++ [n]) ≠ some (.file (.link target))) :
    hop t l (.name n) = .inl (l ++ [n]) := by
  simp only [hop]

theorem Direct.hop_name {n : ν} (h : Direct t (l ++ [n])) : hop t l (.name n) = .inl (l ++ [n]) :=
  LinkedTree.hop_name fun target => by rcases h with h | ⟨c, h⟩ <;> simp [h]

theorem hop_name_of_none {n : ν} (h : t.node (l ++ [n]) = none) : hop t l (.name n) = .inl (l ++ [n]) :=
  hop_name fun target => by simp [h]

theorem not_direct_of_link {target : Path ν} (h : t.node l = some (.file (.link target))) : ¬ Direct t l := by
  rintro (hd | ⟨c, hd⟩) <;> rw [h] at hd <;> simp at hd

theorem direct_or_link (h : t.exists? l = true) :
    Direct t l ∨ ∃ target, t.node l = some (.file (.link target)) := by
  rcases hn : t.node l with _ | (content | target) | _
  · simp [Tree.exists?, hn] at h
  · exact Or.inl (Or.inr ⟨content, hn⟩)
  · exact Or.inr ⟨target, rfl⟩
  · exact Or.inl (Or.inl hn)

/-- A component that is not a link leads to no link. -/
theorem hop_not_link {l' : Loc ν} (h : t.node l = some .dir) (hs : hop t l s = .inl l') (target : Path ν) :
    t.node l' ≠ some (.file (.link target)) := by
  intro hl
  cases s with
  | stay => cases hs; rw [h] at hl; cases hl
  | up =>
    cases hs
    by_cases hnil : l = []
    · subst hnil
      rw [List.dropLast_nil, h] at hl
      cases hl
    · rw [t.closed ((above_iff_prefix_dropLast hnil).mpr List.prefix_rfl) (by rw [h]; simp)] at hl
      cases hl
  | name n =>
    simp only [hop] at hs
    split at hs
    · cases hs
    · next hne =>
      cases hs
      exact hne target hl

/-- A walk from what is not a link arrives at what is not a link. -/
theorem walk_direct {steps : List (Step ν)} (hl : ∀ target, t.node l ≠ some (.file (.link target)))
    (h : walk t k l steps = .ok m) : Direct t m := by
  induction k, l, steps using walk_induct t with
  | nil k l =>
    rw [walk_nil] at h
    split_ifs at h with hx
    cases h
    exact (direct_or_link hx).resolve_right fun ⟨target, hn⟩ => hl target hn
  | missing k l s rest hn => rw [walk_missing hn] at h; cases h
  | file k l s rest c hn => rw [walk_file hn] at h; cases h
  | hopped k l s rest l' hn hs ih =>
    rw [walk_hop hn hs] at h
    exact ih (hop_not_link hn hs) h
  | loop l s rest target hn hs => rw [walk_loop hn hs] at h; cases h
  | follow k l s rest target hn hs ih =>
    rw [walk_follow hn hs] at h
    refine ih (fun target' => ?_) h
    rw [target.start_isDir hn]
    simp

/-- A location that is no link is where its own names lead. -/
theorem walk_names {names : List ν} (h : Direct t (l ++ names)) (more : List (Step ν)) :
    walk t k l (names.map .name ++ more) = walk t k (l ++ names) more := by
  induction names generalizing l with
  | nil => simp
  | cons n names ih =>
    have hx := Option.isSome_iff_ne_none.mp h.exists?
    have hl : t.node l = some .dir :=
      t.closed ⟨List.prefix_append _ _, by simp⟩ hx
    have hn : Direct t (l ++ [n]) := by
      by_cases hnil : names = []
      · simpa [hnil] using h
      · exact Or.inl (t.closed ⟨by simp, by simpa using hnil⟩ hx)
    rw [List.map_cons, List.cons_append, walk_hop hl hn.hop_name, ih (by simpa using h)]
    simp

/-- From the root too. -/
theorem walk_canonical (h : Direct t l) (more : List (Step ν)) :
    walk t k [] (l.map .name ++ more) = walk t k l more := by
  simpa using walk_names (l := []) (by simpa using h) more

/-- What a path leads to that asks for a directory, it leads to without. -/
theorem walk_of_stay {steps : List (Step ν)} (h : walk t k l (steps ++ [.stay]) = .ok m) :
    walk t k l steps = .ok m := by
  obtain ⟨d, hd⟩ := walk_left h
  obtain ⟨j, -, hmore⟩ := walk_append hd
  rw [hmore] at h
  rcases hn : t.node d with _ | content | _
  · rw [walk_missing hn] at h; cases h
  · rw [walk_file hn] at h; cases h
  · rw [walk_hop hn rfl, walk_nil, if_pos (walk_exists hd)] at h
    rwa [← Except.ok.inj h]

/-- `t'` has all that `t` has. -/
def Extends (t' t : Linked ν β) : Prop := ∀ l, t.node l ≠ none → t'.node l = t.node l

/-- In a tree that has grown a walk arrives where it did. -/
theorem walk_ext {t' : Linked ν β} (hx : Extends t' t) {steps : List (Step ν)}
    (h : walk t k l steps = .ok m) : walk t' k l steps = .ok m := by
  have hdir {l : Loc ν} (hl : t.node l = some .dir) : t'.node l = some .dir :=
    (hx l (by rw [hl]; simp)).trans hl
  induction k, l, steps using walk_induct t with
  | nil k l =>
    rw [walk_nil] at h ⊢
    split_ifs at h with hl
    rwa [if_pos (by rwa [Tree.exists?, hx l (Option.isSome_iff_ne_none.mp hl)])]
  | missing k l s rest hn => rw [walk_missing hn] at h; cases h
  | file k l s rest c hn => rw [walk_file hn] at h; cases h
  | hopped k l s rest l' hn hs ih =>
    rw [walk_hop hn hs] at h
    rw [walk_hop (hdir hn), ih h]
    cases s with
    | stay | up => exact hs
    | name n =>
      by_cases hnone : t.node (l ++ [n]) = none
      · obtain rfl : l ++ [n] = l' := by simpa [hop, hnone] using hs
        rw [walk_missing hnone] at h
        cases h
      · rw [← hs, hop, hop, hx _ hnone]
  | loop l s rest target hn hs => rw [walk_loop hn hs] at h; cases h
  | follow k l s rest target hn hs ih =>
    rw [walk_follow hn hs] at h
    rw [walk_follow (hdir hn), ih h]
    cases s with
    | stay | up => cases hs
    | name n =>
      have hsome : t.node (l ++ [n]) ≠ none := by
        intro hnone
        simp [hop, hnone] at hs
      rw [← hs, hop, hop, hx _ hsome]

/-- Names that are no links lead to the location they are the names of. -/
theorem walk_plain {names : List ν}
    (hplain : ∀ x, x <+: names → ∀ target, t.node (l ++ x) ≠ some (.file (.link target)))
    (h : walk t k l (names.map .name) = .ok m) : m = l ++ names := by
  induction names generalizing l with
  | nil =>
    rw [List.map_nil, walk_nil] at h
    split_ifs at h
    simpa using h.symm
  | cons n names ih =>
    rcases hl : t.node l with _ | c | _
    · rw [List.map_cons, walk_missing hl] at h; cases h
    · rw [List.map_cons, walk_file hl] at h; cases h
    · have hhop : hop t l (.name n) = .inl (l ++ [n]) := hop_name (hplain [n] (by simp))
      rw [List.map_cons, walk_hop hl hhop] at h
      rw [ih (fun x hx => by simpa using hplain (n :: x) (by simpa using hx)) h]
      simp

/-- The tree with these entries, each of them in directories of the list. -/
def Linked.ofEntries [DecidableEq ν] (entries : List (Loc ν × Node (Content ν β)))
    (hroot : entries.lookup [] = some .dir)
    (hdirs : (entries.all fun e => e.1.inits.all fun u => u == e.1 ||
      match entries.lookup u with
      | some .dir => true
      | _ => false) = true) : Linked ν β where
  node p := entries.lookup p
  root := hroot
  closed := by
    intro u p hu hp
    obtain ⟨node, hnode⟩ := Option.ne_none_iff_exists'.mp hp
    obtain ⟨before, after, rfl, -⟩ := List.lookup_eq_some_iff.mp hnode
    have hmem := List.all_eq_true.mp hdirs (p, node) (by simp)
    have hu' := List.all_eq_true.mp hmem u ((List.mem_inits u p).mpr hu.1)
    simp only [Bool.or_eq_true, beq_iff_eq] at hu'
    have hdir := hu'.resolve_left hu.2
    split at hdir
    · assumption
    · cases hdir

/-! ### Changing the tree -/

/-- A tree, with the locations that have been changed. -/
structure Disk (ν β : Type*) where
  tree : Linked ν β
  noted : List (Loc ν)

section Operations

variable (k : ℕ) (l : Loc ν)

/-- Whether the components lead to a directory. -/
def leadsToDir (t : Linked ν β) (steps : List (Step ν)) : Bool :=
  match walk t k l steps with
  | .ok m => t.isDir m
  | .error _ => false

/-- The entry the components name. The last one is not followed; it is no entry if it is not a name. -/
def entry (t : Linked ν β) (steps : List (Step ν)) : Except Failure (Loc ν) :=
  match steps.reverse with
  | .name n :: above =>
    match walk t k l above.reverse with
    | .error e => .error e
    | .ok d => if t.isDir d then .ok (d ++ [n]) else .error (.io .notADirectory)
  | _ =>
    match walk t k l steps with
    | .error e => .error e
    | .ok _ => .error (.io .isADirectory)

/-- Create a temporary file in a directory. Its name is fresh and it does not stay, so what is
noted is the directory. -/
def stage (steps : List (Step ν)) (disk : Disk ν β) : Except Failure (Disk ν β) :=
  match walk disk.tree k l steps with
  | .error e => .error e
  | .ok d =>
    if disk.tree.isDir d then .ok { disk with noted := disk.noted ++ [d] } else .error (.io .notADirectory)

variable [DecidableEq ν]

/-- Create one directory. -/
def mkdir (steps : List (Step ν)) (disk : Disk ν β) : Except Failure (Disk ν β) :=
  match entry k l disk.tree steps with
  | .error e => .error e
  | .ok p =>
    if disk.tree.exists? p then .error (.io .alreadyExists)
    else
      match disk.tree.createDirAll p with
      | .error kind => .error (.io kind)
      | .ok t => .ok ⟨t, disk.noted ++ [p]⟩

/-- `createDirAll`, with the last component first. -/
def createDirAllRev : List (Step ν) → Disk ν β → Except Failure Unit × Disk ν β
  | [], disk => (.ok (), disk)
  | s :: above, disk =>
    match mkdir k l (above.reverse ++ [s]) disk with
    | .ok disk₁ => (.ok (), disk₁)
    | .error (.io .notFound) =>
      match createDirAllRev above disk with
      | (.error e, disk₁) => (.error e, disk₁)
      | (.ok (), disk₁) =>
        match mkdir k l (above.reverse ++ [s]) disk₁ with
        | .ok disk₂ => (.ok (), disk₂)
        | .error e =>
          if leadsToDir k l disk₁.tree (above.reverse ++ [s]) then (.ok (), disk₁) else (.error e, disk₁)
    | .error e =>
      if leadsToDir k l disk.tree (above.reverse ++ [s]) then (.ok (), disk) else (.error e, disk)

/-- Create a directory and, where it is missing, the one above it first. -/
def createDirAll (steps : List (Step ν)) (disk : Disk ν β) : Except Failure Unit × Disk ν β :=
  createDirAllRev k l steps.reverse disk

/-- Rename a finished temporary file over an entry. -/
def place (steps : List (Step ν)) (content : β) (disk : Disk ν β) : Except Failure (Disk ν β) :=
  match entry k l disk.tree steps with
  | .error e => .error e
  | .ok p =>
    match disk.tree.replace p (.plain content) with
    | .error kind => .error (.io kind)
    | .ok t => .ok ⟨t, disk.noted ++ [p]⟩

/-- Unlink an entry. -/
def unlink (steps : List (Step ν)) (disk : Disk ν β) : Except Failure (Disk ν β) :=
  match entry k l disk.tree steps with
  | .error e => .error e
  | .ok p =>
    match disk.tree.unlink p with
    | .error kind => .error (.io kind)
    | .ok t => .ok ⟨t, disk.noted ++ [p]⟩

end Operations

theorem entry_name {t : Linked ν β} {steps : List (Step ν)} {n : ν} {d : Loc ν}
    (h : walk t k l steps = .ok d) : entry k l t (steps ++ [.name n]) =
      if t.isDir d then .ok (d ++ [n]) else .error (.io .notADirectory) := by
  simp [entry, h]

theorem entry_error {t : Linked ν β} {steps : List (Step ν)} {n : ν} {e : Failure}
    (h : walk t k l steps = .error e) : entry k l t (steps ++ [.name n]) = .error e := by
  simp [entry, h]

theorem entry_stay (t : Linked ν β) (steps : List (Step ν)) : ∃ e, entry k l t (steps ++ [.stay]) = .error e := by
  rcases h : walk t k l (steps ++ [.stay]) with e | m <;> simp [entry, h]

theorem leadsToDir_iff {t : Linked ν β} {steps : List (Step ν)} :
    leadsToDir k l t steps = true ↔ ∃ m, walk t k l steps = .ok m ∧ t.node m = some .dir := by
  unfold leadsToDir
  split
  · next m hm => simp [hm, Tree.isDir_iff]
  · next e he => simp [he]

/-! ### Creating the directories of a path -/

/-- The components lead to the directory `a`, where nothing has the first of the names `missing`, and
then on by these. -/
def Landing (t : Linked ν β) (k : ℕ) (l : Loc ν) (steps : List (Step ν)) (a : Loc ν) (missing : List ν) :
    Prop :=
  ∃ found, steps = found ++ missing.map .name ∧ walk t k l found = .ok a ∧ t.node a = some .dir ∧
    ∀ n ∈ missing.head?, t.node (a ++ [n]) = none

/-- The locations of the directories `missing`, one in the other. -/
def nested (a : Loc ν) : List ν → List (Loc ν)
  | [] => []
  | n :: missing => (a ++ [n]) :: nested (a ++ [n]) missing

theorem nested_concat (a : Loc ν) (missing : List ν) (n : ν) :
    nested a (missing ++ [n]) = nested a missing ++ [a ++ missing ++ [n]] := by
  induction missing generalizing a with
  | nil => simp [nested]
  | cons n' missing ih => simp [nested, ih]

theorem above_of_mem_nested {a p : Loc ν} {missing : List ν} (h : p ∈ nested a missing) :
    Above a p ∧ p <+: a ++ missing := by
  induction missing generalizing a with
  | nil => cases h
  | cons n missing ih =>
    have ha : Above a (a ++ [n]) := ⟨List.prefix_append _ _, by simp⟩
    rcases List.mem_cons.mp h with rfl | h
    · exact ⟨ha, by simp⟩
    · obtain ⟨h₁, h₂⟩ := ih h
      exact ⟨ha.trans h₁, by simpa using h₂⟩

theorem mem_nested_self {a : Loc ν} {missing : List ν} (h : missing ≠ []) : a ++ missing ∈ nested a missing := by
  obtain ⟨missing, n, rfl⟩ := List.eq_nil_or_concat missing |>.resolve_left h
  simp [nested_concat]

namespace Landing

variable {steps : List (Step ν)} {a : Loc ν} {missing : List ν}

/-- With nothing missing the components lead to the directory. -/
theorem walk_of_nil (h : Landing t k l steps a []) : walk t k l steps = .ok a := by
  obtain ⟨found, hsteps, hfound, -, -⟩ := h
  rw [hsteps, List.map_nil, List.append_nil, hfound]

/-- With something missing they lead nowhere. -/
theorem walk_of_ne_nil (h : Landing t k l steps a missing) (hne : missing ≠ []) :
    walk t k l steps = .error (.io .notFound) := by
  obtain ⟨found, hsteps, hfound, hdir, hnone⟩ := h
  obtain ⟨n, names, rfl⟩ := List.exists_cons_of_ne_nil hne
  obtain ⟨j, -, hmore⟩ := walk_append hfound
  have hn : t.node (a ++ [n]) = none := hnone n (by simp)
  rw [hsteps, hmore, List.map_cons, walk_hop hdir (hop_name_of_none hn), walk_missing hn]

theorem isDir (h : Landing t k l steps a missing) : t.node a = some .dir := by
  obtain ⟨-, -, -, hdir, -⟩ := h
  exact hdir

/-- Nothing is at or below what is missing. -/
theorem node_eq_none (h : Landing t k l steps a missing) {p : Loc ν} (hp : p ∈ nested a missing) :
    t.node p = none := by
  obtain ⟨-, -, -, -, hnone⟩ := h
  cases missing with
  | nil => cases hp
  | cons n names =>
    have hn : t.node (a ++ [n]) = none := hnone n (by simp)
    by_contra hx
    rcases List.mem_cons.mp hp with rfl | hp
    · exact hx hn
    · rw [t.closed (above_of_mem_nested hp).1 hx] at hn
      cases hn

/-- Nor is anything in a directory that is missing. -/
theorem node_inside (h : Landing t k l steps a missing) (hne : missing ≠ []) (n : ν) :
    t.node (a ++ missing ++ [n]) = none := by
  by_contra hx
  have hdir := t.closed (u := a ++ missing) ⟨List.prefix_append _ _, by simp⟩ hx
  rw [h.node_eq_none (mem_nested_self hne)] at hdir
  cases hdir

end Landing

/-- One more name: it is the end of what was found, or the last that is missing. -/
theorem landing_concat {steps : List (Step ν)} {n : ν} {a : Loc ν} {missing : List ν} :
    Landing t k l (steps ++ [.name n]) a missing ↔
      (missing = [] ∧ walk t k l (steps ++ [.name n]) = .ok a ∧ t.node a = some .dir) ∨
      ∃ names, missing = names ++ [n] ∧ Landing t k l steps a names ∧
        (names = [] → t.node (a ++ [n]) = none) := by
  constructor
  · rintro ⟨found, hsteps, hfound, hdir, hnone⟩
    rcases List.eq_nil_or_concat missing with rfl | ⟨names, n', rfl⟩
    · rw [List.map_nil, List.append_nil] at hsteps
      exact Or.inl ⟨rfl, by rw [hsteps, hfound], hdir⟩
    · right
      rw [List.concat_eq_append, List.map_append, ← List.append_assoc] at hsteps
      obtain ⟨rfl, hn⟩ := List.append_inj' hsteps rfl
      obtain rfl : n = n' := by simpa using hn
      refine ⟨names, List.concat_eq_append, ⟨found, rfl, hfound, hdir, fun n' hn' => ?_⟩, ?_⟩
      · refine hnone n' ?_
        rw [List.concat_eq_append, List.head?_append]
        simp [Option.mem_def.mp hn']
      · rintro rfl
        exact hnone n (by simp)
  · rintro (⟨rfl, hwalk, hdir⟩ | ⟨names, rfl, ⟨found, rfl, hfound, hdir, hnone⟩, hn⟩)
    · exact ⟨_, by simp, hwalk, hdir, by simp⟩
    · refine ⟨found, by simp, hfound, hdir, fun n' hn' => ?_⟩
      cases names with
      | nil =>
        obtain rfl : n = n' := by simpa using hn'
        exact hn rfl
      | cons n₀ names => exact hnone n' (by simpa using hn')

/-- Between two names, on a way from where components lead. -/
theorem Landing.of_walk {t : Linked ν β} {found : List (Step ν)} {names : List ν} {a : Loc ν} {missing : List ν}
    (h : Landing t k l (found ++ names.map .name) a missing) (hfound : walk t k l found = .ok m) :
    ∃ reached, names = reached ++ missing ∧ walk t k l (found ++ reached.map .name) = .ok a := by
  induction names using List.reverseRecOn generalizing missing with
  | nil =>
    rw [List.map_nil, List.append_nil] at h
    obtain rfl : missing = [] := by
      by_contra hne
      rw [h.walk_of_ne_nil hne] at hfound
      cases hfound
    exact ⟨[], rfl, by simpa using h.walk_of_nil⟩
  | append_singleton names n ih =>
    rw [List.map_append, List.map_singleton, ← List.append_assoc] at h
    rcases landing_concat.mp h with ⟨rfl, hwalk, -⟩ | ⟨names', rfl, hland, -⟩
    · exact ⟨names ++ [n], by simp, by simpa using hwalk⟩
    · obtain ⟨reached, rfl, hreached⟩ := ih hland
      exact ⟨reached, by simp, hreached⟩

/-- A path lands in one place. -/
theorem Landing.unique {t : Linked ν β} {found : List (Step ν)} {names : List ν} {a a' : Loc ν}
    {missing missing' : List ν} (hfound : walk t k l found = .ok m)
    (h : Landing t k l (found ++ names.map .name) a missing)
    (h' : Landing t k l (found ++ names.map .name) a' missing') : a = a' ∧ missing = missing' := by
  induction names using List.reverseRecOn generalizing missing missing' with
  | nil =>
    obtain ⟨reached, hr, hwalk⟩ := h.of_walk hfound
    obtain ⟨reached', hr', hwalk'⟩ := h'.of_walk hfound
    obtain ⟨rfl, rfl⟩ := List.append_eq_nil_iff.mp hr.symm
    obtain ⟨rfl, rfl⟩ := List.append_eq_nil_iff.mp hr'.symm
    exact ⟨Except.ok.inj (hwalk.symm.trans hwalk'), rfl⟩
  | append_singleton names n ih =>
    have hboth : missing = [] ↔ missing' = [] := by
      constructor
      · rintro rfl
        by_contra hne
        have := h.walk_of_nil
        rw [h'.walk_of_ne_nil hne] at this
        cases this
      · rintro rfl
        by_contra hne
        have := h'.walk_of_nil
        rw [h.walk_of_ne_nil hne] at this
        cases this
    rw [List.map_append, List.map_singleton, ← List.append_assoc] at h h'
    rcases landing_concat.mp h with ⟨rfl, hwalk, -⟩ | ⟨names₁, rfl, h₁, -⟩ <;>
      rcases landing_concat.mp h' with ⟨rfl, hwalk', -⟩ | ⟨names₂, rfl, h₂, -⟩
    · exact ⟨Except.ok.inj (hwalk.symm.trans hwalk'), rfl⟩
    · simp at hboth
    · simp at hboth
    · obtain ⟨rfl, rfl⟩ := ih h₁ h₂
      exact ⟨rfl, rfl⟩

section Create

variable [DecidableEq ν] {disk : Disk ν β} {steps : List (Step ν)}

/-- A directory made of the missing name after one that is there. -/
theorem mkdir_missing {n : ν} {d : Loc ν} (hd : walk disk.tree k l steps = .ok d)
    (hdir : disk.tree.node d = some .dir) (hn : disk.tree.node (d ++ [n]) = none) :
    ∃ t', mkdir k l (steps ++ [.name n]) disk = .ok ⟨t', disk.noted ++ [d ++ [n]]⟩ ∧
      ∀ p, t'.node p = if p = d ++ [n] then some .dir else disk.tree.node p := by
  have hfile : ¬ (disk.tree.file (d ++ [n])).isSome := by simp [Tree.file, hn]
  have habove (u : Loc ν) (hu : Above u (d ++ [n])) : disk.tree.node u = some .dir := by
    have hud : u <+: d := by simpa using (above_iff_prefix_dropLast (by simp)).mp hu
    by_cases h : u = d
    · rw [h, hdir]
    · exact disk.tree.closed ⟨hud, h⟩ (by rw [hdir]; simp)
  have hblocked : ¬ disk.tree.blocked (d ++ [n]) = true := by
    rw [Tree.not_blocked fun u hu => Tree.isDir_iff.mpr (habove u hu)]
    simp
  refine ⟨_, by
    rw [mkdir, entry_name hd, if_pos (Tree.isDir_iff.mpr hdir)]
    simp [Tree.exists?, hn, Tree.createDirAll, hfile, hblocked]
    rfl, fun p => ?_⟩
  by_cases hp : p = d ++ [n]
  · simp [hp]
  · by_cases hpre : p <+: d ++ [n]
    · simp [hp, hpre, habove p ⟨hpre, hp⟩]
    · simp [hp, hpre]

variable (disk) in
/-- A file put in place in a directory that is there, and noted. -/
theorem place_name {n : ν} {d : Loc ν} (hd : walk disk.tree k l steps = .ok d)
    (hdir : disk.tree.node d = some .dir) (hn : disk.tree.isDir (d ++ [n]) = false) (content : β) :
    ∃ t', place k l (steps ++ [.name n]) content disk = .ok ⟨t', disk.noted ++ [d ++ [n]]⟩ := by
  have hd' : disk.tree.isDir d = true := Tree.isDir_iff.mpr hdir
  exact ⟨_, by rw [place, entry_name hd, if_pos hd']; simp [Tree.replace, hn, hd']; rfl⟩

variable (disk) in
/-- No file is put in place of a directory. -/
theorem place_dir {n : ν} {d : Loc ν} (hd : walk disk.tree k l steps = .ok d)
    (hn : disk.tree.isDir (d ++ [n]) = true) (content : β) :
    ∃ e, place k l (steps ++ [.name n]) content disk = .error e := by
  rw [place, entry_name hd]
  split_ifs
  · simp [Tree.replace, hn]
  · exact ⟨_, rfl⟩

variable (disk) (steps) in
theorem place_stay (content : β) : ∃ e, place k l (steps ++ [.stay]) content disk = .error e := by
  obtain ⟨e, he⟩ := entry_stay (k := k) (l := l) disk.tree steps
  exact ⟨e, by rw [place, he]⟩

/-- What is unlinked is an entry of the directory the components before lead to, and no directory. -/
theorem unlink_ok {s : Step ν} {disk' : Disk ν β} (h : unlink k l (steps ++ [s]) disk = .ok disk') :
    ∃ n d, s = .name n ∧ walk disk.tree k l steps = .ok d ∧ disk.tree.node d = some .dir ∧
      disk.tree.isDir (d ++ [n]) = false ∧ disk'.noted = disk.noted ++ [d ++ [n]] := by
  cases s with
  | stay =>
    obtain ⟨e, he⟩ := entry_stay (k := k) (l := l) disk.tree steps
    rw [unlink, he] at h
    cases h
  | up => rcases hw : walk disk.tree k l (steps ++ [.up]) with e | m <;> simp [unlink, entry, hw] at h
  | name n =>
    rcases hw : walk disk.tree k l steps with e | d
    · rw [unlink, entry_error hw] at h
      cases h
    · rw [unlink, entry_name hw] at h
      by_cases hd : disk.tree.isDir d = true
      · rw [if_pos hd] at h
        by_cases hn : disk.tree.isDir (d ++ [n]) = true
        · simp [Tree.unlink, hn] at h
        · refine ⟨n, d, rfl, rfl, Tree.isDir_iff.mp hd, by simpa using hn, ?_⟩
          dsimp only at h
          split at h
          · cases h
          · cases h; rfl
      · rw [if_neg hd] at h
        cases h

/-- What creating directories leaves: those that were missing are there, and noted. -/
structure Made (disk disk' : Disk ν β) (a : Loc ν) (missing : List ν) : Prop where
  noted : disk'.noted = disk.noted ++ nested a missing
  node : ∀ p, disk'.tree.node p = if p ∈ nested a missing then some .dir else disk.tree.node p

namespace Made

variable {disk' : Disk ν β} {a : Loc ν} {missing : List ν}

theorem refl (disk : Disk ν β) (a : Loc ν) : Made disk disk a [] := ⟨by simp [nested], by simp [nested]⟩

theorem extends_ (h : Made disk disk' a missing) (hland : Landing disk.tree k l steps a missing) :
    Extends disk'.tree disk.tree := by
  intro p hp
  rw [h.node, if_neg fun hm => hp (hland.node_eq_none hm)]

theorem node_end (h : Made disk disk' a missing) (hland : Landing disk.tree k l steps a missing) :
    disk'.tree.node (a ++ missing) = some .dir := by
  by_cases hnil : missing = []
  · rw [hnil, List.append_nil, h.extends_ hland a (by rw [hland.isDir]; simp), hland.isDir]
  · rw [h.node, if_pos (mem_nested_self hnil)]

/-- In the directory that was made last nothing has changed. -/
theorem node_inside (h : Made disk disk' a missing) (n : ν) :
    disk'.tree.node (a ++ missing ++ [n]) = disk.tree.node (a ++ missing ++ [n]) := by
  have hout : a ++ missing ++ [n] ∉ nested a missing := by
    intro hm
    have hlen := (above_of_mem_nested hm).2.length_le
    simp only [List.length_append, List.length_singleton] at hlen
    omega
  rw [h.node, if_neg hout]

/-- The components that led to what was missing lead to what was made. -/
theorem walk_eq (h : Made disk disk' a missing) (hland : Landing disk.tree k l steps a missing) :
    walk disk'.tree k l steps = .ok (a ++ missing) := by
  have hend := h.node_end hland
  have hext := h.extends_ hland
  obtain ⟨found, rfl, hfound, -, -⟩ := hland
  obtain ⟨j, -, hmore⟩ := walk_append (walk_ext hext hfound)
  have hwalk := walk_names (k := j) (Or.inl hend : Direct disk'.tree (a ++ missing)) []
  rw [List.append_nil] at hwalk
  rw [hmore, hwalk, walk_nil, if_pos (by simp [Tree.exists?, hend])]

end Made

theorem createDirAll_concat (s : Step ν) : createDirAll k l (steps ++ [s]) disk =
    match mkdir k l (steps ++ [s]) disk with
    | .ok disk₁ => (.ok (), disk₁)
    | .error (.io .notFound) =>
      match createDirAll k l steps disk with
      | (.error e, disk₁) => (.error e, disk₁)
      | (.ok (), disk₁) =>
        match mkdir k l (steps ++ [s]) disk₁ with
        | .ok disk₂ => (.ok (), disk₂)
        | .error e =>
          if leadsToDir k l disk₁.tree (steps ++ [s]) then (.ok (), disk₁) else (.error e, disk₁)
    | .error e =>
      if leadsToDir k l disk.tree (steps ++ [s]) then (.ok (), disk) else (.error e, disk) := by
  simp only [createDirAll, List.reverse_append, List.reverse_singleton, List.singleton_append,
    createDirAllRev, List.reverse_reverse]

/-- An outcome of creating the directories of a path: they are made where the path lands, and
without that nothing is. -/
def MadeWhere (k : ℕ) (l : Loc ν) (disk : Disk ν β) (steps : List (Step ν))
    (r : Except Failure Unit × Disk ν β) : Prop :=
  (∃ a missing disk', Landing disk.tree k l steps a missing ∧ r = (.ok (), disk') ∧ Made disk disk' a missing) ∨
    (∀ a missing, ¬ Landing disk.tree k l steps a missing) ∧ ∃ e, r = (.error e, disk)

theorem mkdir_arrived {s : Step ν} (h : walk disk.tree k l (steps ++ [s]) = .ok m) :
    ∃ e, e ≠ .io .notFound ∧ mkdir k l (steps ++ [s]) disk = .error e := by
  cases s with
  | stay | up => exact ⟨.io .isADirectory, by simp, by simp [mkdir, entry, h]⟩
  | name n =>
    obtain ⟨d, hd⟩ := walk_left h
    obtain ⟨j, -, hmore⟩ := walk_append hd
    rw [hmore] at h
    rcases hn : disk.tree.node d with _ | c | _
    · rw [walk_missing hn] at h; cases h
    · rw [walk_file hn] at h; cases h
    · refine ⟨.io .alreadyExists, by simp, ?_⟩
      have hx : disk.tree.exists? (d ++ [n]) = true := by
        by_contra hnone
        have hnone : disk.tree.node (d ++ [n]) = none := by simpa [Tree.exists?] using hnone
        rw [walk_hop hn (hop_name_of_none hnone), walk_missing hnone] at h
        cases h
      rw [mkdir, entry_name hd, if_pos (Tree.isDir_iff.mpr hn)]
      simp [hx]

/-- Where `mkdir` fails otherwise than by the directory above missing, nothing is created. -/
theorem createDirAll_settled {s : Step ν} {e : Failure} (he : e ≠ .io .notFound)
    (h : mkdir k l (steps ++ [s]) disk = .error e)
    (hno : ∀ a missing, missing ≠ [] → ¬ Landing disk.tree k l (steps ++ [s]) a missing) :
    MadeWhere k l disk (steps ++ [s]) (createDirAll k l (steps ++ [s]) disk) := by
  have hr : createDirAll k l (steps ++ [s]) disk =
      if leadsToDir k l disk.tree (steps ++ [s]) then (.ok (), disk) else (.error e, disk) := by
    rw [createDirAll_concat, h]
    rcases e with (_ | _ | _ | _) | _ <;> first | rfl | exact absurd rfl he
  rw [hr]
  split_ifs with hdir
  · obtain ⟨m, hm, hd⟩ := leadsToDir_iff.mp hdir
    exact Or.inl ⟨m, [], disk, ⟨_, by simp, hm, hd, by simp⟩, rfl, Made.refl disk m⟩
  · refine Or.inr ⟨fun a missing hland => ?_, e, rfl⟩
    by_cases hnil : missing = []
    · subst hnil
      exact hdir (leadsToDir_iff.mpr ⟨a, hland.walk_of_nil, hland.isDir⟩)
    · exact hno a missing hnil hland

/-- One name further, where the directory above is not there: it is made first, if it can be. -/
theorem createDirAll_above_missing {n : ν} {e : Failure} (hw : walk disk.tree k l steps = .error e)
    (ih : MadeWhere k l disk steps (createDirAll k l steps disk)) :
    MadeWhere k l disk (steps ++ [.name n]) (createDirAll k l (steps ++ [.name n]) disk) := by
  have hmk : mkdir k l (steps ++ [.name n]) disk = .error e := by
    rw [mkdir, entry_error hw]
  have habove {a : Loc ν} {missing : List ν} (hland : Landing disk.tree k l (steps ++ [.name n]) a missing) :
      ∃ names, missing = names ++ [n] ∧ Landing disk.tree k l steps a names := by
    rcases landing_concat.mp hland with ⟨-, hwalk, -⟩ | ⟨names, rfl, hland', -⟩
    · rw [walk_append_error hw] at hwalk
      cases hwalk
    · exact ⟨names, rfl, hland'⟩
  by_cases he : e = .io .notFound
  · subst he
    rw [createDirAll_concat, hmk]
    rcases ih with ⟨a, missing, disk', hland, hr, hmade⟩ | ⟨hno, e', hr⟩
    · have hne : missing ≠ [] := by
        rintro rfl
        rw [hland.walk_of_nil] at hw
        cases hw
      have hnone := (hmade.node_inside n).trans (hland.node_inside hne n)
      obtain ⟨t', hmk', hnode⟩ := mkdir_missing (hmade.walk_eq hland) (hmade.node_end hland) hnone
      refine Or.inl ⟨a, missing ++ [n], ⟨t', disk'.noted ++ [a ++ missing ++ [n]]⟩,
        landing_concat.mpr (Or.inr ⟨missing, rfl, hland, fun h => absurd h hne⟩),
        by simp only [hr, hmk'], ?_, fun p => ?_⟩
      · rw [nested_concat, hmade.noted, List.append_assoc]
      · rw [nested_concat, hnode, hmade.node]
        by_cases hp : p = a ++ missing ++ [n]
        · simp [hp]
        · simp only [if_neg hp, List.mem_append, List.mem_singleton, or_iff_left hp]
    · refine Or.inr ⟨fun a missing hland => ?_, e', by simp only [hr]⟩
      obtain ⟨names, -, hland'⟩ := habove hland
      exact hno a names hland'
  · refine createDirAll_settled he hmk fun a missing _ hland => ?_
    obtain ⟨names, -, hland'⟩ := habove hland
    by_cases hnil : names = []
    · subst hnil
      rw [hland'.walk_of_nil] at hw
      cases hw
    · rw [hland'.walk_of_ne_nil hnil] at hw
      exact he (Except.error.inj hw).symm

/-- One name further, where the directory above is there: only the last name can be missing. -/
theorem createDirAll_above_found {d : Loc ν} {n : ν} (hw : walk disk.tree k l steps = .ok d) :
    MadeWhere k l disk (steps ++ [.name n]) (createDirAll k l (steps ++ [.name n]) disk) := by
  have hlast {a : Loc ν} {missing : List ν} (hne : missing ≠ [])
      (hland : Landing disk.tree k l (steps ++ [.name n]) a missing) :
      disk.tree.node d = some .dir ∧ disk.tree.node (d ++ [n]) = none := by
    rcases landing_concat.mp hland with ⟨h, -, -⟩ | ⟨names, rfl, hland', hn⟩
    · exact absurd h hne
    · by_cases hnil : names = []
      · subst hnil
        obtain rfl : d = a := Except.ok.inj (hw.symm.trans hland'.walk_of_nil)
        exact ⟨hland'.isDir, hn rfl⟩
      · rw [hland'.walk_of_ne_nil hnil] at hw
        cases hw
  by_cases hdir : disk.tree.node d = some .dir
  · by_cases hn : disk.tree.node (d ++ [n]) = none
    · obtain ⟨t', hmk, hnode⟩ := mkdir_missing hw hdir hn
      refine Or.inl ⟨d, [n], ⟨t', disk.noted ++ [d ++ [n]]⟩, ⟨_, by simp, hw, hdir, by simpa using hn⟩, ?_,
        by simp [nested], fun p => by simp [nested, hnode]⟩
      rw [createDirAll_concat, hmk]
    · refine createDirAll_settled (e := .io .alreadyExists) (by simp) ?_
        fun a missing hne hland => hn (hlast hne hland).2
      rw [mkdir, entry_name hw, if_pos (Tree.isDir_iff.mpr hdir)]
      simp [Tree.exists?, Option.isSome_iff_ne_none.mpr hn]
  · refine createDirAll_settled (e := .io .notADirectory) (by simp) ?_
      fun a missing hne hland => hdir (hlast hne hland).1
    rw [mkdir, entry_name hw, if_neg fun h => hdir (Tree.isDir_iff.mp h)]

variable (disk) in
/-- `createDirAll`, on names after components that lead somewhere. -/
theorem createDirAll_cases (hl : disk.tree.node l = some .dir) {found : List (Step ν)}
    (hfound : walk disk.tree k l found = .ok m) (names : List ν) :
    MadeWhere k l disk (found ++ names.map .name) (createDirAll k l (found ++ names.map .name) disk) := by
  induction names using List.reverseRecOn with
  | nil =>
    rw [List.map_nil, List.append_nil]
    rcases List.eq_nil_or_concat found with rfl | ⟨init, s, rfl⟩
    · exact Or.inl ⟨l, [], disk, ⟨[], rfl, by simp [walk_nil, Tree.exists?, hl], hl, by simp⟩, rfl,
        Made.refl disk l⟩
    · rw [List.concat_eq_append] at hfound ⊢
      obtain ⟨e, he, hmk⟩ := mkdir_arrived hfound
      refine createDirAll_settled he hmk fun a missing hne hland => ?_
      rw [hland.walk_of_ne_nil hne] at hfound
      cases hfound
  | append_singleton names n ih =>
    rw [List.map_append, List.map_singleton, ← List.append_assoc]
    rcases hw : walk disk.tree k l (found ++ names.map .name) with e | d
    · exact createDirAll_above_missing hw ih
    · exact createDirAll_above_found hw

variable (disk) in
/-- Where a path lands its directories are made. -/
theorem createDirAll_landing (hl : disk.tree.node l = some .dir) {found : List (Step ν)}
    (hfound : walk disk.tree k l found = .ok m) {names : List ν} {a : Loc ν} {missing : List ν}
    (h : Landing disk.tree k l (found ++ names.map .name) a missing) :
    ∃ disk', createDirAll k l (found ++ names.map .name) disk = (.ok (), disk') ∧ Made disk disk' a missing := by
  rcases createDirAll_cases disk hl hfound names with ⟨a', missing', disk', h', hr, hmade⟩ | ⟨hno, -⟩
  · obtain ⟨rfl, rfl⟩ := h.unique hfound h'
    exact ⟨disk', hr, hmade⟩
  · exact absurd h (hno a missing)

end Create

end Nerve.LinkedTree
