import Mathlib.Data.Set.Finite.Basic
import Mathlib.Data.Set.Card
import Nerve.Patch.Model

/-!
# The watcher of the scratch directory

While the lead generates, `.nerve/scratch` is polled, and a file that is new or newer than at the poll
before goes to the reviewer. A poll looks at all files, tells of the first that has changed, and takes
the state of all for known. `changes_told_iff` says of every sequence of polls what that comes to: each
change is told of exactly once as long as no poll finds two of them. Of two the second is not told of,
whatever the polls after it find (`second_file_missed`).
-/

namespace Nerve.Run

open FileTree Std

/-! ### Told of once -/

/-- What comes up is told of exactly once, in its turn or later, and nothing else is. -/
def ToldOnce {α : Type*} (comes : ℕ → α → Prop) (told : ℕ → Option α) : Prop :=
  ∃ turn : ℕ → α → ℕ, (∀ k a, comes k a → k ≤ turn k a ∧ told (turn k a) = some a) ∧
    (∀ k k' a, comes k a → comes k' a → turn k a = turn k' a → k = k') ∧
    ∀ j a, told j = some a → ∃ k, comes k a ∧ turn k a = j

/-- If each turn tells of one of the things that come up in it, no turn may have two of them: the other would
have to wait for a turn of its own, and there are only finitely many. -/
theorem toldOnce_iff {α : Type*} {comes : ℕ → α → Prop} {told : ℕ → Option α}
    (hcomes : ∀ k a, told k = some a → comes k a) (htold : ∀ k a, comes k a → told k ≠ none)
    (hfinite : ∀ a, {k | comes k a}.Finite) : ToldOnce comes told ↔ ∀ k a b, comes k a → comes k b → a = b := by
  constructor
  · rintro ⟨turn, hturn, hinj, -⟩ k
    have hfirst : ∀ b, comes k b → told k = some b := by
      intro b hb
      have hmaps : Set.MapsTo (turn · b) {j | comes j b} {j | comes j b} := fun j hj => hcomes _ b (hturn j b hj).2
      have hinj : Set.InjOn (turn · b) {j | comes j b} := fun i hi j hj h => hinj i j b hi hj h
      obtain ⟨j, hj, hjk⟩ := ((hfinite b).injOn_iff_bijOn_of_mapsTo hmaps |>.mp hinj).surjOn hb
      rw [← hjk]
      exact (hturn j b hj).2
    intro a b ha hb
    exact Option.some.inj ((hfirst a ha).symm.trans (hfirst b hb))
  · intro h
    refine ⟨fun k _ => k, fun k a ha => ⟨le_rfl, ?_⟩, fun k k' a _ _ h => h, fun j a ha => ⟨j, hcomes j a ha, rfl⟩⟩
    obtain ⟨b, hb⟩ := Option.ne_none_iff_exists'.mp (htold k a ha)
    rw [hb, h k a b ha (hcomes k b hb)]

/-! ### The scratch directory -/

/-- What stands in a directory: a file with its time of modification, if the system has one. -/
inductive ScratchEntry where
  | file (modified : Option Nat)
  | directory (entries : List (String × ScratchEntry))
  /-- Neither, such as a link. -/
  | other

/-- The times of the files, by their paths below the scratch directory. -/
abbrev ScratchFiles := TreeMap (Loc String) Nat

mutual

def scanScratchEntry (path : Loc String) : ScratchEntry → ScratchFiles → ScratchFiles
  | .directory entries, files => scanScratchFilesInner path entries files
  | .file modified, files => files.insert path (modified.getD 0)
  | .other, files => files

def scanScratchFilesInner (path : Loc String) : List (String × ScratchEntry) → ScratchFiles → ScratchFiles
  | [], files => files
  | (name, entry) :: entries, files =>
    scanScratchFilesInner path entries (scanScratchEntry (path ++ [name]) entry files)

end

/-- The scratch directory, if it is there. -/
abbrev ScratchDir := Option (List (String × ScratchEntry))

def scanScratchFiles (root : ScratchDir) : ScratchFiles := (root.map fun entries => scanScratchFilesInner [] entries ∅).getD ∅

/-- The longest text of whole characters that fits in so many bytes. -/
def truncateAtCharBoundary (value : String) (limit : Nat) : String := String.ofList (go limit value.toList)
where
  go (left : Nat) : List Char → List Char
    | [] => []
    | c :: cs => if c.utf8Size ≤ left then c :: go (left - c.utf8Size) cs else []

def truncateForCrossfire (contents : String) : String :=
  if contents.utf8ByteSize ≤ 8192 then contents else truncateAtCharBoundary contents 8192 ++ "..."

structure ScratchWatcher where
  known : ScratchFiles

namespace ScratchWatcher

def new (root : ScratchDir) : ScratchWatcher := ⟨scanScratchFiles root⟩

/-- The first file that is new, or newer than it is known. -/
def changed (w : ScratchWatcher) (current : ScratchFiles) : Option (Loc String) :=
  (current.toList.find? fun (path, modified) => w.known[path]?.all fun previous => previous < modified).map Prod.fst

/-- A poll: what it tells the reviewer, and what is known then. A file that cannot be read goes out empty. -/
def nextChange (w : ScratchWatcher) (root : ScratchDir) (read : Loc String → Option String) : Option String × ScratchWatcher :=
  let current := scanScratchFiles root
  let summary (path : Loc String) :=
    let relative := "/".intercalate path
    let contents := (read path).getD ""
    s!"scratch changed: {relative}\n{truncateForCrossfire contents}"
  ((w.changed current).map summary, ⟨current⟩)

end ScratchWatcher

/-! ### What a scan finds -/

/-- The files below a directory. -/
inductive HoldsFile : List (String × ScratchEntry) → Loc String → Nat → Prop
  | here {entries : List (String × ScratchEntry)} {name : String} {modified : Option Nat}
      (hmem : (name, .file modified) ∈ entries) : HoldsFile entries [name] (modified.getD 0)
  | inside {entries inner : List (String × ScratchEntry)} {name : String} {path : Loc String} {modified : Nat}
      (hmem : (name, .directory inner) ∈ entries) (h : HoldsFile inner path modified) :
      HoldsFile entries (name :: path) modified

theorem HoldsFile.mono {entries entries' : List (String × ScratchEntry)} {path : Loc String} {modified : Nat}
    (hsub : entries ⊆ entries') (h : HoldsFile entries path modified) : HoldsFile entries' path modified := by
  cases h with
  | here hmem => exact .here (hsub hmem)
  | inside hmem h => exact .inside (hsub hmem) h

theorem HoldsFile.cons {entry : String × ScratchEntry} {entries : List (String × ScratchEntry)} {path : Loc String}
    {modified : Nat} (h : HoldsFile (entry :: entries) path modified) :
    HoldsFile [entry] path modified ∨ HoldsFile entries path modified := by
  cases h with
  | here hmem => exact (List.mem_cons.mp hmem).imp (fun hmem => .here (List.mem_singleton.mpr hmem)) .here
  | inside hmem h =>
    exact (List.mem_cons.mp hmem).imp (fun hmem => .inside (List.mem_singleton.mpr hmem) h) fun hmem => .inside hmem h

theorem getElem?_insert_files {files : ScratchFiles} {path path' : Loc String} {modified : Nat} :
    (files.insert path modified)[path']? = if path = path' then some modified else files[path']? := by
  rw [TreeMap.getElem?_insert]
  simp only [LawfulEqCmp.compare_eq_iff_eq]

mutual

theorem scanScratchEntry_sound {above : Loc String} {name : String} {entry : ScratchEntry} {files : ScratchFiles}
    {path : Loc String} {modified : Nat}
    (h : (scanScratchEntry (above ++ [name]) entry files)[path]? = some modified) :
    files[path]? = some modified ∨ ∃ below, path = above ++ below ∧ HoldsFile [(name, entry)] below modified := by
  cases entry with
  | file time =>
    rw [scanScratchEntry, getElem?_insert_files] at h
    split_ifs at h with hpath
    · obtain rfl := Option.some.inj h
      exact Or.inr ⟨[name], hpath.symm, .here List.mem_cons_self⟩
    · exact Or.inl h
  | directory entries =>
    rw [scanScratchEntry] at h
    refine (scanScratchFilesInner_sound h).imp_right ?_
    rintro ⟨below, rfl, hfile⟩
    exact ⟨name :: below, by simp, .inside List.mem_cons_self hfile⟩
  | other => exact Or.inl h

/-- What a scan adds is a file, with its time. -/
theorem scanScratchFilesInner_sound {above : Loc String} {entries : List (String × ScratchEntry)} {files : ScratchFiles}
    {path : Loc String} {modified : Nat}
    (h : (scanScratchFilesInner above entries files)[path]? = some modified) :
    files[path]? = some modified ∨ ∃ below, path = above ++ below ∧ HoldsFile entries below modified := by
  match entries with
  | [] => exact Or.inl h
  | (name, entry) :: entries =>
    rw [scanScratchFilesInner] at h
    rcases scanScratchFilesInner_sound h with h | ⟨below, hpath, hfile⟩
    · refine (scanScratchEntry_sound h).imp_right ?_
      rintro ⟨below, hpath, hfile⟩
      exact ⟨below, hpath, hfile.mono (List.cons_subset_cons _ (List.nil_subset _))⟩
    · exact Or.inr ⟨below, hpath, hfile.mono (List.subset_cons_self _ _)⟩

end

mutual

theorem scanScratchEntry_complete {above : Loc String} {name : String} {entry : ScratchEntry} {files : ScratchFiles}
    {path : Loc String}
    (h : path ∈ files ∨ ∃ below modified, path = above ++ below ∧ HoldsFile [(name, entry)] below modified) :
    path ∈ scanScratchEntry (above ++ [name]) entry files := by
  cases entry with
  | file time =>
    rw [scanScratchEntry, TreeMap.mem_insert, LawfulEqCmp.compare_eq_iff_eq]
    refine h.symm.imp_left ?_
    rintro ⟨below, modified, rfl, hfile⟩
    cases hfile with
    | here hmem =>
      obtain ⟨rfl, -⟩ := Prod.mk.inj (List.mem_singleton.mp hmem)
      rfl
    | inside hmem => cases (Prod.mk.inj (List.mem_singleton.mp hmem)).2
  | directory entries =>
    rw [scanScratchEntry]
    refine scanScratchFilesInner_complete (h.imp_right ?_)
    rintro ⟨below, modified, rfl, hfile⟩
    cases hfile with
    | here hmem => cases (Prod.mk.inj (List.mem_singleton.mp hmem)).2
    | inside hmem hfile =>
      obtain ⟨rfl, hinner⟩ := Prod.mk.inj (List.mem_singleton.mp hmem)
      cases hinner
      exact ⟨_, modified, by simp, hfile⟩
  | other =>
    refine h.resolve_right ?_
    rintro ⟨below, modified, rfl, hfile⟩
    cases hfile with
    | here hmem | inside hmem => cases (Prod.mk.inj (List.mem_singleton.mp hmem)).2

/-- No file is missed, and what was found before stays. -/
theorem scanScratchFilesInner_complete {above : Loc String} {entries : List (String × ScratchEntry)} {files : ScratchFiles}
    {path : Loc String}
    (h : path ∈ files ∨ ∃ below modified, path = above ++ below ∧ HoldsFile entries below modified) :
    path ∈ scanScratchFilesInner above entries files := by
  match entries with
  | [] =>
    refine h.resolve_right ?_
    rintro ⟨below, modified, rfl, hfile⟩
    cases hfile with
    | here hmem | inside hmem => cases hmem
  | (name, entry) :: entries =>
    rw [scanScratchFilesInner]
    refine scanScratchFilesInner_complete ?_
    rcases h with h | ⟨below, modified, hpath, hfile⟩
    · exact Or.inl (scanScratchEntry_complete (Or.inl h))
    · rcases hfile.cons with hfile | hfile
      · exact Or.inl (scanScratchEntry_complete (Or.inr ⟨below, modified, hpath, hfile⟩))
      · exact Or.inr ⟨below, modified, hpath, hfile⟩

end

/-- **A scan finds the files**, all of them, with the time of each. -/
theorem scanScratchFiles_finds {entries : List (String × ScratchEntry)} {path : Loc String} {modified : Nat} :
    ((scanScratchFiles (some entries))[path]? = some modified → HoldsFile entries path modified) ∧
      (HoldsFile entries path modified → path ∈ scanScratchFiles (some entries)) := by
  constructor
  · intro h
    rcases scanScratchFilesInner_sound h with h | ⟨below, hpath, hfile⟩
    · simp at h
    · rwa [hpath]
  · exact fun h => scanScratchFilesInner_complete (Or.inr ⟨path, modified, rfl, h⟩)

/-! ### Every sequence of polls -/

section Polls

variable {before now : ScratchFiles} {path : Loc String}

/-- The file is new, or newer. -/
def Newer (before now : ScratchFiles) (path : Loc String) : Prop :=
  ∃ modified, now[path]? = some modified ∧ ∀ previous, before[path]? = some previous → previous < modified

/-- A poll tells of a file that has changed, if any has. -/
theorem changed_eq_some (h : (ScratchWatcher.mk before).changed now = some path) : Newer before now path := by
  obtain ⟨⟨path', modified⟩, hfind, rfl⟩ := Option.map_eq_some_iff.mp h
  refine ⟨modified, TreeMap.mem_toList_iff_getElem?_eq_some.mp (List.mem_of_find?_eq_some hfind), fun previous hprevious => ?_⟩
  have hall := List.find?_some hfind
  simpa [hprevious] using hall

theorem changed_ne_none (h : Newer before now path) : (ScratchWatcher.mk before).changed now ≠ none := by
  obtain ⟨modified, hnow, hbefore⟩ := h
  intro hnone
  have hmem := TreeMap.mem_toList_iff_getElem?_eq_some.mpr hnow
  have hall := List.find?_eq_none.mp (Option.map_eq_none_iff.mp hnone) _ hmem
  cases hprevious : before[path]? with
  | none => simp [hprevious] at hall
  | some previous =>
    have hlt := hbefore previous hprevious
    simp [hprevious, hlt] at hall

/-- The files that the polls tell of, one after the other. -/
def told (w : ScratchWatcher) : List ScratchDir → List (Option (Loc String))
  | [] => []
  | root :: polls => w.changed (scanScratchFiles root) :: told (.new root) polls

/-- What a poll tells of is what `next_change` makes its summary of. -/
theorem told_cons (w : ScratchWatcher) (root : ScratchDir) (polls : List ScratchDir) (read : Loc String → Option String) :
    told w (root :: polls) = w.changed (scanScratchFiles root) :: told (w.nextChange root read).2 polls ∧
      ((w.nextChange root read).1.isSome ↔ (w.changed (scanScratchFiles root)).isSome) := by
  refine ⟨rfl, ?_⟩
  simp [ScratchWatcher.nextChange]

variable (first : ScratchDir) (polls : List ScratchDir)

/-- The poll finds the file changed since the one before it; before the first poll there was the watcher's start. -/
def Changes (k : ℕ) (path : Loc String) : Prop :=
  ∃ before now, (first :: polls)[k]? = some before ∧ polls[k]? = some now ∧
    Newer (scanScratchFiles before) (scanScratchFiles now) path

/-- The file that the poll tells of. -/
def toldAt (k : ℕ) : Option (Loc String) := (told (.new first) polls)[k]?.join

theorem toldAt_eq_some {k : ℕ} : toldAt first polls k = some path ↔ ∃ before now, (first :: polls)[k]? = some before ∧
    polls[k]? = some now ∧ (ScratchWatcher.new before).changed (scanScratchFiles now) = some path := by
  induction polls generalizing first k with
  | nil => simp [toldAt, told]
  | cons root polls ih =>
    cases k with
    | zero => simp [toldAt, told]
    | succ k => simpa [toldAt, told] using ih root

theorem changes_lt {k : ℕ} (h : Changes first polls k path) : k < polls.length := by
  obtain ⟨_, _, _, hnow, _⟩ := h
  exact (List.getElem?_eq_some_iff.mp hnow).1

/-- Each change is told of once if no poll finds two of them, and only then. -/
theorem toldOnce_iff_no_two : ToldOnce (Changes first polls) (toldAt first polls) ↔
    ∀ k path path', Changes first polls k path → Changes first polls k path' → path = path' := by
  refine toldOnce_iff (fun k path h => ?_) (fun k path h hnone => ?_) fun path => ?_
  · obtain ⟨before, now, hbefore, hnow, hchanged⟩ := (toldAt_eq_some first polls).mp h
    exact ⟨before, now, hbefore, hnow, changed_eq_some hchanged⟩
  · obtain ⟨before, now, hbefore, hnow, hnewer⟩ := h
    obtain ⟨path', hchanged⟩ := Option.ne_none_iff_exists'.mp (changed_ne_none hnewer)
    have htold := (toldAt_eq_some first polls).mpr ⟨before, now, hbefore, hnow, hchanged⟩
    rw [hnone] at htold
    cases htold
  · exact (Set.finite_lt_nat polls.length).subset fun k h => changes_lt first polls h

/-- **What the reviewer is told of**, in every sequence of polls: each file that a poll finds new or newer is told of
exactly once, then or at any later poll, however many follow, exactly if no poll finds two such files. -/
theorem changes_told_iff : (∃ more, ToldOnce (Changes first (polls ++ more)) (toldAt first (polls ++ more))) ↔
    ∀ k path path', Changes first polls k path → Changes first polls k path' → path = path' := by
  have hmono {more : List ScratchDir} {k : ℕ} {path : Loc String} (h : Changes first polls k path) :
      Changes first (polls ++ more) k path := by
    obtain ⟨before, now, hbefore, hnow, hnewer⟩ := h
    refine ⟨before, now, ?_, ?_, hnewer⟩
    · rw [← List.cons_append, List.getElem?_append_left (List.getElem?_eq_some_iff.mp hbefore).1, hbefore]
    · rw [List.getElem?_append_left (List.getElem?_eq_some_iff.mp hnow).1, hnow]
  constructor
  · rintro ⟨more, h⟩ k path path' hpath hpath'
    exact (toldOnce_iff_no_two first (polls ++ more)).mp h k path path' (hmono hpath) (hmono hpath')
  · intro h
    exact ⟨[], by rwa [List.append_nil, toldOnce_iff_no_two]⟩

end Polls

/-- Two files written between two polls. -/
def twoNotes : ScratchDir := some [("a", .file (some 1)), ("b", .file (some 1))]

/-- **The second file is never told of**: not at the poll that finds it, and not at any after it. -/
theorem second_file_missed : told (.new (some [])) [twoNotes, twoNotes] = [some ["a"], none] ∧
    ¬ ∃ more, ToldOnce (Changes (some []) ([twoNotes] ++ more)) (toldAt (some []) ([twoNotes] ++ more)) := by
  refine ⟨by decide +kernel, ?_⟩
  rintro ⟨more, h⟩
  have hchanges (path : Loc String) (hnow : (scanScratchFiles twoNotes)[path]? = some 1)
      (hbefore : (scanScratchFiles (some []))[path]? = none) : Changes (some []) ([twoNotes] ++ more) 0 path :=
    ⟨some [], twoNotes, rfl, rfl, 1, hnow, fun previous hprevious => by rw [hbefore] at hprevious; cases hprevious⟩
  have hsame := (toldOnce_iff_no_two (some []) ([twoNotes] ++ more)).mp h 0 ["a"] ["b"]
    (hchanges ["a"] (by decide +kernel) (by decide +kernel)) (hchanges ["b"] (by decide +kernel) (by decide +kernel))
  exact absurd hsame (by decide)

end Nerve.Run
