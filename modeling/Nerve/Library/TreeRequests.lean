import Nerve.Library.FileTree

/-!
# What is asked of a tree by name

A file can be named so that the name asks for a directory, with a separator behind it. Under such a
name nothing is written: the directories above it are created, and then the write is refused; and
nothing is unlinked, though it fails where a directory stands. So what a program asks for in order to
change a tree is more than its changes: `Request`. A request that is served does what `serve_ok`
says, and `exists_serve_iff` says where requests served one after another stop, from the flat map
alone.

A program that is stopped may put back what it changed, under the names it used.
`file_serve_putBack` says how far that goes: up to the first name whose location has become a
directory.
-/

namespace Nerve.FileTree

variable {ν β : Type*}

/-- What is asked of a tree. -/
inductive Request (ν β : Type*) where
  /-- A change to one location. -/
  | change (c : Effect ν β)
  /-- The directories above `p`. -/
  | enter (p : Loc ν)
  /-- That `p` is no directory. -/
  | probe (p : Loc ν)
  /-- What is always refused. -/
  | refused

namespace Request

/-- The change asked for. -/
def change? : Request ν β → Option (Effect ν β)
  | .change c => some c
  | _ => none

/-- Where it is served, it turns `u` into a directory. -/
def Makes (r : Request ν β) (u : Loc ν) : Prop :=
  match r with
  | .change c => c.content.isSome ∧ Above u c.loc
  | .enter p => Above u p
  | _ => False

instance [DecidableEq ν] (r : Request ν β) (u : Loc ν) : Decidable (r.Makes u) :=
  match r with
  | .change _ => inferInstanceAs (Decidable (_ ∧ _))
  | .enter _ => inferInstanceAs (Decidable (Above _ _))
  | .probe _ | .refused => inferInstanceAs (Decidable False)

end Request

/-- The changes asked for. -/
def changes (R : List (Request ν β)) : List (Effect ν β) := R.filterMap Request.change?

/-- One of the requests turns `u` into a directory. -/
def Makes (R : List (Request ν β)) (u : Loc ν) : Prop := ∃ r ∈ R, r.Makes u

instance [DecidableEq ν] (R : List (Request ν β)) (u : Loc ν) : Decidable (Makes R u) :=
  inferInstanceAs (Decidable (∃ r ∈ R, _))

@[simp] theorem not_makes_nil (u : Loc ν) : ¬ Makes ([] : List (Request ν β)) u := by simp [Makes]

theorem makes_cons {r : Request ν β} {R : List (Request ν β)} {u : Loc ν} :
    Makes (r :: R) u ↔ r.Makes u ∨ Makes R u := by simp [Makes]

theorem changes_cons (r : Request ν β) (R : List (Request ν β)) : changes (r :: R) = changes [r] ++ changes R :=
  List.filterMap_append (l := [r])

@[simp] theorem changes_map_change (E : List (Effect ν β)) : changes (E.map .change) = E := by
  induction E with
  | nil => rfl
  | cons c E ih => exact congrArg (c :: ·) ih

/-! ### Names -/

/-- A location as it is named: the name may ask for a directory. -/
structure Name (ν : Type*) where
  loc : Loc ν
  asksDir : Bool

namespace Name

/-- What a write of `b` under the name asks for. -/
def write (n : Name ν) (b : β) : List (Request ν β) :=
  if n.asksDir then [.enter n.loc, .refused] else [.change (.write n.loc b)]

/-- What the removal of the name asks for. -/
def clear (n : Name ν) : Request ν β := if n.asksDir then .probe n.loc else .change (.clear n.loc)

/-- What is asked for to put the location back as the map `s` has it. Under a name that asks for a
directory no file is found, so there is one to remove at most. -/
def putBack (s : Loc ν → Option β) (n : Name ν) : Request ν β :=
  if n.asksDir then .probe n.loc else .change (.set n.loc (s n.loc))

theorem write_of_file {n : Name ν} (h : n.asksDir = false) (b : β) : n.write b = [.change (.write n.loc b)] := by
  simp [write, h]

theorem clear_of_file {n : Name ν} (h : n.asksDir = false) : (n.clear : Request ν β) = .change (.clear n.loc) := by
  simp [clear, h]

/-- The request is one made under the name. -/
def Asks (n : Name ν) (r : Request ν β) : Prop := (∃ b, r ∈ n.write b) ∨ r = n.clear

/-- What is changed under a name is the file it is the name of. -/
theorem Asks.change {n : Name ν} {r : Request ν β} {c : Effect ν β} (h : n.Asks r) (hc : r.change? = some c) :
    n.asksDir = false ∧ c.loc = n.loc := by
  unfold Asks write clear at h
  rcases hdir : n.asksDir with _ | _ <;> simp only [hdir, Bool.false_eq_true, if_false, if_true, List.mem_cons,
    List.not_mem_nil, or_false] at h
  · obtain ⟨b, rfl⟩ | rfl := h <;> cases hc <;> exact ⟨rfl, rfl⟩
  · obtain ⟨-, rfl | rfl⟩ | rfl := h <;> cases hc

/-- Under a name only what is above it is made a directory. -/
theorem Asks.above {n : Name ν} {r : Request ν β} {u : Loc ν} (h : n.Asks r) (hu : r.Makes u) : Above u n.loc := by
  unfold Asks write clear at h
  rcases hdir : n.asksDir with _ | _ <;> simp only [hdir, Bool.false_eq_true, if_false, if_true, List.mem_cons,
    List.not_mem_nil, or_false] at h
  · obtain ⟨b, rfl⟩ | rfl := h
    · exact hu.2
    · exact absurd hu.1 Bool.false_ne_true
  · obtain ⟨-, rfl | rfl⟩ | rfl := h
    · exact hu
    · exact hu.elim
    · exact hu.elim

end Name

variable [DecidableEq ν]

/-! ### Requests that are served -/

/-- Serve one request. -/
def Tree.ask (t : Tree ν β) : Request ν β → Except IoErrorKind (Tree ν β)
  | .change c => t.exec c
  | .enter p => t.createDirAll p.dropLast
  | .probe p => if t.isDir p then .error .isADirectory else .ok t
  | .refused => .error .notADirectory

/-- Serve the requests in order until one fails. -/
def Tree.serve (t : Tree ν β) (R : List (Request ν β)) : Except IoErrorKind Unit × Tree ν β := inOrder Tree.ask t R

/-- The request cannot be served. -/
def Tree.Bars (t : Tree ν β) : Request ν β → Prop
  | .change c => t.Clash c
  | .enter p => t.blocked p = true
  | .probe p => t.isDir p = true
  | .refused => True

@[simp] theorem Tree.serve_nil (t : Tree ν β) : t.serve [] = (.ok (), t) := rfl

theorem Tree.serve_cons (t : Tree ν β) (r : Request ν β) (R : List (Request ν β)) : t.serve (r :: R) =
    match t.ask r with
    | .error k => (.error k, t)
    | .ok t' => t'.serve R := by
  rw [serve, inOrder_cons]
  cases t.ask r <;> rfl

/-- Where only changes are asked for, to serve them is to run them. -/
theorem Tree.serve_map_change (t : Tree ν β) (E : List (Effect ν β)) : t.serve (E.map .change) = t.run E := by
  induction E generalizing t with
  | nil => rfl
  | cons c E ih =>
    rw [List.map_cons, serve_cons, run_cons, ask]
    rcases t.exec c with k | t'
    · rfl
    · exact ih t'

/-! ### What a request does -/

/-- What creating the directories above `p` does when it succeeds. -/
theorem Tree.createDirAll_dropLast_ok {t t' : Tree ν β} {p : Loc ν} (h : t.createDirAll p.dropLast = .ok t') :
    t.blocked p = false ∧ t'.file = t.file ∧ ∀ u, t'.isDir u = true ↔ t.isDir u = true ∨ Above u p := by
  simp only [createDirAll] at h
  split_ifs at h with hf hb
  cases h
  by_cases hnil : p = []
  · subst hnil
    have hroot : ∀ q : Loc ν, (if q <+: [].dropLast then some Node.dir else t.node q) = t.node q := by
      intro q
      split_ifs with hq
      · rw [List.prefix_nil.mp hq, t.root]
      · rfl
    have habove : ∀ u : Loc ν, ¬ Above u [] := fun u hu => hu.2 (List.prefix_nil.mp hu.1)
    refine ⟨rfl, funext fun q => ?_, fun u => ?_⟩
    · simp only [file, hroot]
    · simp only [isDir, hroot, habove, or_false]
  · have hblocked : t.blocked p = false := by
      rw [Bool.eq_false_iff, ne_eq, blocked_iff_dropLast hnil]
      exact not_or.mpr ⟨hf, hb⟩
    refine ⟨hblocked, funext fun q => ?_, fun u => ?_⟩
    · simp only [file, ← above_iff_prefix_dropLast hnil]
      split_ifs with hq
      · -- no file is on the way
        have hnone : t.file q = none := by
          by_contra hne
          exact Bool.eq_false_iff.mp hblocked (blocked_iff.mpr ⟨q, hq, Option.isSome_iff_ne_none.mpr hne⟩)
        simpa [file] using hnone.symm
      · rfl
    · simp only [isDir_iff, ← above_iff_prefix_dropLast hnil]
      by_cases hu : Above u p <;> simp [hu]

theorem Tree.exists_createDirAll_dropLast {t : Tree ν β} {p : Loc ν} (h : t.blocked p = false) :
    ∃ t', t.createDirAll p.dropLast = .ok t' := by
  have hf : ¬ (t.file p.dropLast).isSome ∧ ¬ t.blocked p.dropLast = true := by
    by_cases hnil : p = []
    · subst hnil
      exact ⟨by simp [file, t.root], Bool.false_ne_true⟩
    · rw [Bool.eq_false_iff, ne_eq, blocked_iff_dropLast hnil] at h
      exact not_or.mp h
  simp only [createDirAll, hf.1, hf.2, Bool.false_eq_true, dite_false]
  exact ⟨_, rfl⟩

/-- **One request**: where it is served, it makes its change, and turns into directories what lies above it. -/
theorem Tree.ask_ok {t t' : Tree ν β} {r : Request ν β} (h : t.ask r = .ok t') :
    ¬ t.Bars r ∧ t'.file = overlay t.file (changes [r]) ∧ ∀ u, t'.isDir u = true ↔ t.isDir u = true ∨ r.Makes u := by
  cases r with
  | change c => exact exec_ok h
  | enter p =>
    obtain ⟨hb, hfile, hdir⟩ := createDirAll_dropLast_ok h
    exact ⟨by simp [Bars, hb], hfile, hdir⟩
  | probe p =>
    simp only [ask] at h
    split_ifs at h with hd
    cases h
    exact ⟨hd, rfl, fun u => (or_iff_left id).symm⟩
  | refused => cases h

theorem Tree.ask_of_not_bars {t : Tree ν β} {r : Request ν β} (h : ¬ t.Bars r) : ∃ t', t.ask r = .ok t' := by
  cases r with
  | change c => exact exec_of_not_clash h
  | enter p => exact exists_createDirAll_dropLast (Bool.eq_false_iff.mpr h)
  | probe p => exact ⟨t, if_neg h⟩
  | refused => exact absurd trivial h

/-- A request fails just where something bars it. -/
theorem Tree.bars_iff {t : Tree ν β} {r : Request ν β} : t.Bars r ↔ ∃ k, t.ask r = .error k := by
  constructor
  · intro h
    rcases hr : t.ask r with k | t'
    · exact ⟨k, rfl⟩
    · exact absurd h (ask_ok hr).1
  · rintro ⟨k, hk⟩
    by_contra h
    obtain ⟨t', ht'⟩ := ask_of_not_bars h
    rw [ht'] at hk
    cases hk

/-- **Requests that are served** leave the files of the flat map, and as directories what was one and what they make
one. -/
theorem Tree.serve_ok {t t' : Tree ν β} {R : List (Request ν β)} (h : t.serve R = (.ok (), t')) :
    t'.file = overlay t.file (changes R) ∧ ∀ u, t'.isDir u = true ↔ t.isDir u = true ∨ Makes R u := by
  induction R generalizing t with
  | nil => cases h; simp [changes]
  | cons r R ih =>
    simp only [serve_cons] at h
    split at h
    · simp at h
    next t₁ h₁ =>
      obtain ⟨-, hf, hd⟩ := ask_ok h₁
      obtain ⟨hf', hd'⟩ := ih h
      refine ⟨by rw [hf', hf, changes_cons r R, overlay_append], fun u => ?_⟩
      rw [hd', hd, makes_cons, or_assoc]

/-- What is always refused is not among requests that are served. -/
theorem Tree.refused_not_mem {t t' : Tree ν β} {R : List (Request ν β)} (h : t.serve R = (.ok (), t')) :
    Request.refused ∉ R := by
  intro hmem
  obtain ⟨A, B, rfl⟩ := List.append_of_mem hmem
  obtain ⟨t₁, -, hB⟩ := inOrder_append_ok h
  rw [inOrder_cons] at hB
  cases hB

/-! ### Where requests stop, from the flat map alone -/

/-- The request cannot be served after `R`: what must be no directory is one, made so by `R` if it was none, or a file
is then on the way. -/
def Tree.BarsAfter (t : Tree ν β) (R : List (Request ν β)) : Request ν β → Prop
  | .change c => t.isDir c.loc = true ∨ Makes R c.loc ∨
      c.content.isSome ∧ ∃ u, Above u c.loc ∧ (overlay t.file (changes R) u).isSome
  | .enter p => ∃ u, Above u p ∧ (overlay t.file (changes R) u).isSome
  | .probe p => t.isDir p = true ∨ Makes R p
  | .refused => True

/-- Nothing bars a request of `R` after those before it. -/
def Tree.Serves (t : Tree ν β) (R : List (Request ν β)) : Prop :=
  ∀ done r rest, R = done ++ r :: rest → ¬ t.BarsAfter done r

theorem Tree.bars_iff_after {t t' : Tree ν β} {R : List (Request ν β)} (h : t.serve R = (.ok (), t'))
    (r : Request ν β) : t'.Bars r ↔ t.BarsAfter R r := by
  obtain ⟨hf, hd⟩ := serve_ok h
  cases r with
  | change c => rw [Bars, Clash, hd, blocked_iff, hf, BarsAfter, or_assoc]
  | enter p => rw [Bars, blocked_iff, hf, BarsAfter]
  | probe p => exact hd p
  | refused => exact Iff.rfl

/-- **Requests that are not all served** stop at one that something bars after those before it. -/
theorem Tree.serve_error {t t' : Tree ν β} {R : List (Request ν β)} {k : IoErrorKind}
    (h : t.serve R = (.error k, t')) :
    ∃ done r rest, R = done ++ r :: rest ∧ t.serve done = (.ok (), t') ∧ t.BarsAfter done r := by
  obtain ⟨done, r, rest, hR, hdone, hr⟩ := inOrder_error h
  exact ⟨done, r, rest, hR, hdone, (bars_iff_after hdone r).mp (bars_iff.mpr ⟨k, hr⟩)⟩

theorem Tree.serve_stop {t t₁ : Tree ν β} {done : List (Request ν β)} (rest : List (Request ν β)) {r : Request ν β}
    (h : t.serve done = (.ok (), t₁)) (hr : t₁.Bars r) : ∃ k, t.serve (done ++ r :: rest) = (.error k, t₁) := by
  obtain ⟨k, hk⟩ := bars_iff.mp hr
  exact ⟨k, inOrder_stop rest h hk⟩

/-- All requests are served when nothing bars one. -/
theorem Tree.exists_serve_iff {t : Tree ν β} {R : List (Request ν β)} :
    (∃ t', t.serve R = (.ok (), t')) ↔ t.Serves R := by
  constructor
  · rintro ⟨t', h⟩ done r rest rfl hr
    obtain ⟨t₁, h₁, -⟩ := inOrder_append_ok h
    obtain ⟨k, hk⟩ := serve_stop rest h₁ ((bars_iff_after h₁ r).mpr hr)
    rw [h] at hk
    cases hk
  · intro hR
    rcases h : t.serve R with ⟨k | ⟨⟩, t'⟩
    · obtain ⟨done, r, rest, hsplit, -, hr⟩ := serve_error h
      exact absurd hr (hR done r rest hsplit)
    · exact ⟨t', rfl⟩

/-! ### Putting back by name -/

/-- The locations of `L` that are put back after `R`: those that a name of a file has before the first one that
`R` has turned into a directory. -/
def restored (R : List (Request ν β)) (L : List (Name ν)) : List (Loc ν) :=
  ((L.takeWhile fun n => ¬ Makes R n.loc).filter fun n => !n.asksDir).map Name.loc

/-- Where all is off directories and below directories only, everything is put back. -/
theorem Tree.serve_putBack {t : Tree ν β} {s : Loc ν → Option β} {L : List (Name ν)} (hd : ∀ n ∈ L, t.isDir n.loc = false)
    (ha : ∀ n ∈ L, (s n.loc).isSome → ∀ u, Above u n.loc → t.isDir u = true) :
    ∃ t', t.serve (L.map (Name.putBack s)) = (.ok (), t') ∧
      t'.file = (fun q => if q ∈ (L.filter fun n => !n.asksDir).map Name.loc then s q else t.file q) ∧
      ∀ u, t'.isDir u = t.isDir u := by
  induction L generalizing t with
  | nil => exact ⟨t, rfl, rfl, fun _ => rfl⟩
  | cons n L ih =>
    obtain ⟨hn, hd⟩ := List.forall_mem_cons.mp hd
    obtain ⟨han, ha⟩ := List.forall_mem_cons.mp ha
    -- the first request does what it is for, and makes no directory
    obtain ⟨t₁, h₁, hf, hdir⟩ : ∃ t₁, t.ask (n.putBack s) = .ok t₁ ∧
        t₁.file = (if n.asksDir then t.file else Function.update t.file n.loc (s n.loc)) ∧ ∀ u, t₁.isDir u = t.isDir u := by
      rcases hask : n.asksDir with _ | _
      · have hclash : ¬ t.Clash (.set n.loc (s n.loc)) := by
          simp only [Clash, Effect.loc_set, Effect.content_set, hn, Bool.false_eq_true, false_or, not_and, Bool.not_eq_true]
          exact fun hs => not_blocked (han hs)
        obtain ⟨t₁, h₁⟩ := exec_of_not_clash hclash
        obtain ⟨-, hf, hdir⟩ := exec_ok h₁
        refine ⟨t₁, by rw [Name.putBack, hask]; exact h₁, by simpa using hf, fun u => ?_⟩
        rw [Bool.eq_iff_iff, hdir]
        exact ⟨fun h => h.elim id fun h => han (by simpa using h.1) u (by simpa using h.2), Or.inl⟩
      · refine ⟨t, ?_, rfl, fun _ => rfl⟩
        rw [Name.putBack, hask]
        exact if_neg (by simp [hn])
    obtain ⟨t₂, h₂, hf₂, hdir₂⟩ := ih (t := t₁) (fun m hm => by rw [hdir]; exact hd m hm)
      (fun m hm hs u hu => by rw [hdir]; exact ha m hm hs u hu)
    refine ⟨t₂, by rw [List.map_cons, serve_cons, h₁]; exact h₂, ?_, fun u => by rw [hdir₂, hdir]⟩
    rw [hf₂, hf]
    funext q
    rcases hask : n.asksDir with _ | _
    · rw [List.filter_cons_of_pos (by simp [hask]), if_neg Bool.false_ne_true]
      simp only [List.map_cons, List.mem_cons]
      by_cases hq : q = n.loc
      · simp [hq]
      · simp only [hq, false_or, Function.update_of_ne hq]
    · rw [List.filter_cons_of_neg (by simp [hask])]
      rfl

/-- **Putting back after requests**: the names are restored in order up to the first one whose location they have
turned into a directory; there the restoration stops. -/
theorem Tree.file_serve_putBack {t t' : Tree ν β} {R : List (Request ν β)} {L : List (Name ν)}
    (hL : ∀ n ∈ L, t.isDir n.loc = false) (h : t.serve R = (.ok (), t')) :
    (t'.serve (L.map (Name.putBack t.file))).2.file = fun q => if q ∈ restored R L then t.file q else t'.file q := by
  obtain ⟨-, hd⟩ := serve_ok h
  have hmem : ∀ n ∈ L.takeWhile (fun n => ¬ Makes R n.loc), n ∈ L ∧ ¬ Makes R n.loc := fun n hn =>
    ⟨(List.takeWhile_prefix _).subset hn, by simpa using List.mem_takeWhile_imp hn⟩
  -- the part before the first location made a directory is restored whole
  obtain ⟨t₁, h₁, hf₁, hd₁⟩ := serve_putBack (t := t') (s := t.file) (L := L.takeWhile fun n => ¬ Makes R n.loc)
    (by
      intro n hn
      rw [Bool.eq_false_iff, ne_eq, hd, hL n (hmem n hn).1]
      simpa using (hmem n hn).2)
    (by
      intro n hn hs u hu
      exact (hd u).mpr (Or.inl (isDir_above_file hu hs)))
  rcases hrest : L.dropWhile (fun n => ¬ Makes R n.loc) with _ | ⟨n, rest⟩
  · have hall : L.takeWhile (fun n => ¬ Makes R n.loc) = L := by
      have := List.takeWhile_append_dropWhile (p := fun n : Name ν => decide ¬ Makes R n.loc) (l := L)
      rwa [hrest, List.append_nil] at this
    rw [hall] at h₁ hf₁
    rw [h₁, restored, hall]
    exact hf₁
  · have hsplit : L = L.takeWhile (fun n => ¬ Makes R n.loc) ++ n :: rest := by
      rw [← hrest, List.takeWhile_append_dropWhile]
    have hmakes : Makes R n.loc := by
      have := List.head?_dropWhile_not (fun n : Name ν => decide ¬ Makes R n.loc) L
      rw [hrest] at this
      simpa using this
    have hbars : t₁.Bars (n.putBack t.file) := by
      have hdir : t₁.isDir n.loc = true := by
        rw [hd₁, hd]
        exact Or.inr hmakes
      unfold Name.putBack
      split_ifs
      · exact hdir
      · exact Or.inl (by rwa [Effect.loc_set])
    have hput : L.map (Name.putBack t.file) = (L.takeWhile fun n => ¬ Makes R n.loc).map (Name.putBack t.file) ++
        n.putBack t.file :: rest.map (Name.putBack t.file) := by
      conv_lhs => rw [hsplit]
      simp
    obtain ⟨k, hk⟩ := serve_stop (rest.map (Name.putBack t.file)) h₁ hbars
    rw [hput, hk]
    exact hf₁

end Nerve.FileTree
