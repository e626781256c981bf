import Nerve.Library.Forest
import Nerve.Library.TransitionSystem
import Nerve.Store.ForkModel

/-!
# The tree of forks

What the fork engine keeps is a forest: sessions with a parent and children, and the rounds and
names they began with. The index has one direction and the payloads have both, in directories that
depend on where a session stands. `Holds` is that the files are those of a forest; `persist_root` of
a fresh root plants, and `fork` grafts (`holds_persistRoot`, `holds_fork`). So in every state that
is reached the index and the payloads agree, and a fork changes nothing of the sessions that are
there but the list of their children (`fork_tree_integrity`).
-/

namespace Nerve.Store

open Nerve.Run Forest TransitionSystem

/-- What a session begins with, and keeps. -/
structure Branch where
  name : Option String
  branchedAtRound : Option Nat
  branchedFromPatchSha : Option String
  forkedAt : Nat
  rounds : List RoundRecord

def SessionTree.branch (tree : SessionTree) : Branch :=
  ⟨tree.name, tree.branchedAtRound, tree.branchedFromPatchSha, tree.forkedAt, tree.rounds⟩

/-- The payload of a node. -/
def SessionTree.ofNode (id : String) (n : Node String Branch) : SessionTree where
  id := id
  name := n.payload.name
  parentId := n.parent
  branchedAtRound := n.payload.branchedAtRound
  branchedFromPatchSha := n.payload.branchedFromPatchSha
  forkedAt := n.payload.forkedAt
  children := n.children
  rounds := n.payload.rounds

/-- Its entry in the index. -/
def SessionIndexEntry.ofNode (n : Node String Branch) : SessionIndexEntry := ⟨n.parent, n.payload.name, n.payload.forkedAt⟩

/-- The files are those of the forest. A child has no payload in a directory of its own. -/
structure Holds (w : Workspace) (F : Forest String Branch) (index : SessionIndex) : Prop where
  loaded : loadSessionIndex w = .ok index
  entry : ∀ id, index.entries.lookup id = (F id).map SessionIndexEntry.ofNode
  stored : ∀ id n, F id = some n →
    w.files.read (.bucket (n.parent.getD id)) (jsonName id) = some (.sessionTree (.ofNode id n))
  own : ∀ id n p, F id = some n → n.parent = some p → w.files.read (.bucket id) (jsonName id) = none

theorem jsonName_inj {id id' : String} : jsonName id = jsonName id' ↔ id = id' := by
  refine ⟨fun h => ?_, fun h => h ▸ rfl⟩
  have hlist := congrArg String.toList h
  rw [jsonName, jsonName, String.toList_append, String.toList_append] at hlist
  exact String.toList_inj.mp (List.append_cancel_right hlist)

section Holds

variable {w w' : Workspace} {F : Forest String Branch} {index : SessionIndex} {id : String} {n : Node String Branch}

theorem loadSessionIndex_congr (h : w'.files.read .sessions sessionIndexName = w.files.read .sessions sessionIndexName) :
    loadSessionIndex w' = loadSessionIndex w := by
  unfold loadSessionIndex exists? readJson
  rw [h]

/-- The index that was written is read. -/
theorem loadSessionIndex_of_read (h : w.files.read .sessions sessionIndexName = some (.sessionIndex index)) :
    loadSessionIndex w = .ok index := by
  unfold loadSessionIndex exists? readJson
  rw [h]
  rfl

theorem readPayload_of_read {bucket : String} {tree : SessionTree}
    (h : w.files.read (.bucket bucket) (jsonName id) = some (.sessionTree tree)) : readPayload w bucket id = .ok tree := by
  unfold readPayload readJson
  rw [h]
  rfl

/-- The payload of every node is found. -/
theorem Holds.load (h : Holds w F index) (hn : F id = some n) : loadSessionPayload w id = .ok (.ofNode id n) := by
  have hstored := h.stored id n hn
  unfold loadSessionPayload exists?
  rcases hparent : n.parent with _ | p
  · rw [hparent, Option.getD_none] at hstored
    rw [hstored]
    exact readPayload_of_read hstored
  · rw [h.own id n p hn hparent, h.loaded]
    dsimp only
    rw [if_neg (by simp), h.entry, hn]
    dsimp only [Option.map_some]
    rw [SessionIndexEntry.ofNode]
    exact readPayload_of_read hstored

theorem Holds.get (h : Holds w F index) (id : String) : getSession w id = .ok ((F id).map (.ofNode id)) := by
  unfold getSession
  rw [h.loaded]
  dsimp only
  rw [h.entry]
  rcases hn : F id with _ | n
  · rfl
  · dsimp only [Option.map_some]
    rw [h.load hn]
    rfl

/-- What the index adds to the children is nothing. -/
theorem Holds.hydrate (h : Holds w F index) (hF : Sound F) (hn : F id = some n) :
    hydrate w index id = .ok (.ofNode id n) := by
  unfold Store.hydrate
  rw [h.load hn]
  have hnone : (indexedChildren index id).filter (fun child => !(SessionTree.ofNode id n).children.contains child) = [] := by
    rw [List.filter_eq_nil_iff]
    intro child hchild
    rw [indexedChildren, List.mem_mergeSort, List.mem_filter] at hchild
    have hparent : F.parents child = some (some id) := by
      have hentry := hchild.2
      rw [h.entry] at hentry
      rcases hc : F child with _ | m
      · simp [hc] at hentry
      · rw [Forest.parents, hc]
        simpa [hc, SessionIndexEntry.ofNode] using hentry
    have hmem : child ∈ n.children := (hF.children id n hn child).mpr hparent
    simpa [SessionTree.ofNode] using hmem
  dsimp only
  rw [hnone, List.append_nil]

end Holds

/-! ### What a child begins with -/

/-- The rounds at the start of a list, up to and including those of number `last`. -/
structure Leading (rounds : List RoundRecord) (last : Nat) (leading : List RoundRecord) : Prop where
  starts : leading <+: rounds
  upTo : ∀ r ∈ leading, r.round ≤ last
  stops : ∀ r, leading ++ [r] <+: rounds → last < r.round

/-- What a child gets of the rounds of its parent. -/
structure Begins (config : ForkConfig) (parent child : SessionTree) : Prop where
  off : config.copyPatchHistory = false → child.rounds = []
  empty : child.branchedAtRound = none → parent.rounds = [] ∧ child.rounds = []
  branched : ∀ last, child.branchedAtRound = some last → ∃ r ∈ parent.rounds, r.round = last
  copied : config.copyPatchHistory = true → ∀ last, child.branchedAtRound = some last →
    ∃ leading, Leading parent.rounds last leading ∧ child.rounds = leading.take config.maxCopiedRounds

theorem leading_takeWhile (rounds : List RoundRecord) (last : Nat) :
    Leading rounds last (rounds.takeWhile fun r => r.round ≤ last) where
  starts := List.takeWhile_prefix _
  upTo r hr := by simpa using List.mem_takeWhile_imp hr
  stops r hr := by
    obtain ⟨rest, hrest⟩ := hr
    rw [List.append_assoc, List.singleton_append] at hrest
    have hdrop : rounds.dropWhile (fun r => r.round ≤ last) = r :: rest := by
      have hsplit := List.takeWhile_append_dropWhile (p := fun r : RoundRecord => decide (r.round ≤ last)) (l := rounds)
      exact List.append_cancel_left (hsplit.trans hrest.symm)
    have hhead := List.head?_dropWhile_not (fun r : RoundRecord => decide (r.round ≤ last)) rounds
    rw [hdrop] at hhead
    simpa using hhead

/-- If the rounds are in order, these are all up to that number. -/
theorem Leading.mem_iff {rounds leading : List RoundRecord} {last : Nat} (h : Leading rounds last leading)
    (hsorted : rounds.Pairwise fun r r' => r.round ≤ r'.round) {r : RoundRecord} :
    r ∈ leading ↔ r ∈ rounds ∧ r.round ≤ last := by
  refine ⟨fun hr => ⟨h.starts.subset hr, h.upTo r hr⟩, fun ⟨hr, hlast⟩ => ?_⟩
  obtain ⟨rest, rfl⟩ := h.starts
  refine (List.mem_append.mp hr).resolve_right fun hrest => ?_
  rcases rest with _ | ⟨first, rest⟩
  · cases hrest
  have hstops : last < first.round := h.stops first ⟨rest, by simp⟩
  have hfirst : first.round ≤ r.round := by
    rcases List.mem_cons.mp hrest with rfl | hrest
    · rfl
    · exact (List.pairwise_cons.mp (List.pairwise_append.mp hsorted).2.1).1 r hrest
  omega

/-- A round is resolved to one that the parent has. -/
theorem resolveRound_ok {parent : SessionTree} {requested resolved : Option Nat}
    (h : resolveRound parent requested = .ok resolved) :
    (resolved = none → parent.rounds = []) ∧ ∀ last, resolved = some last → ∃ r ∈ parent.rounds, r.round = last := by
  rcases requested with _ | round
  · obtain rfl : parent.rounds.getLast?.map RoundRecord.round = resolved := Except.ok.inj h
    refine ⟨fun hnone => by simpa using hnone, fun last hlast => ?_⟩
    obtain ⟨r, hr, hround⟩ := Option.map_eq_some_iff.mp hlast
    exact ⟨r, List.mem_of_getLast? hr, hround⟩
  · unfold resolveRound at h
    dsimp only at h
    split_ifs at h with hany
    obtain rfl : some round = resolved := Except.ok.inj h
    refine ⟨nofun, fun last hlast => ?_⟩
    obtain rfl : round = last := by simpa using hlast
    obtain ⟨r, hr, hround⟩ := List.any_eq_true.mp hany
    exact ⟨r, hr, by simpa using hround⟩

theorem begins_copied {config : ForkConfig} {parent child : SessionTree} {requested : Option Nat}
    (hresolved : resolveRound parent requested = .ok child.branchedAtRound)
    (hrounds : child.rounds = copiedRounds config parent child.branchedAtRound) : Begins config parent child := by
  obtain ⟨hempty, hbranched⟩ := resolveRound_ok hresolved
  constructor
  · intro hoff
    unfold copiedRounds at hrounds
    rw [hrounds, hoff]
  · intro hnone
    rw [hrounds, hnone, copiedRounds]
    · exact ⟨hempty hnone, rfl⟩
    · nofun
  · exact hbranched
  · intro hon last hlast
    refine ⟨_, leading_takeWhile parent.rounds last, ?_⟩
    unfold copiedRounds at hrounds
    rw [hrounds, hlast, hon]

/-! ### Planting and grafting -/

/-- A disk that takes every write. -/
def soundDisk : Disk := fun _ _ => true

section Growth

variable {w w' : Workspace} {F : Forest String Branch} {index : SessionIndex}

theorem thenFork_writeJson {α : Type} (w : Workspace) (dir : Dir) (name : String) (stored : Stored)
    (k : Workspace → ForkResult α) :
    thenFork (writeJson w dir name soundDisk stored) k = k { w with files := w.files.write dir name stored } := rfl

/-- The payload of a root and the index are written, and nothing else. -/
theorem read_persistRoot {tree : SessionTree} (hindex : loadSessionIndex w = .ok index) (hroot : tree.parentId = none) :
    ∃ w', persistRoot soundDisk tree w = (.ok (), w') ∧
      w'.files.read .sessions sessionIndexName =
        some (.sessionIndex (index.insert tree.id ⟨none, tree.name, tree.forkedAt⟩)) ∧
      ∀ bucket id, w'.files.read (.bucket bucket) (jsonName id) =
        if bucket = tree.id ∧ id = tree.id then some (.sessionTree tree) else w.files.read (.bucket bucket) (jsonName id) := by
  unfold persistRoot
  rw [hroot]
  dsimp only
  rw [writeSessionPayload, thenFork_writeJson]
  have hload : loadSessionIndex { w with files := w.files.write (.bucket tree.id) (jsonName tree.id) (.sessionTree tree) } =
      .ok index := by
    rw [← hindex]
    exact loadSessionIndex_congr (FileStore.read_write.trans (if_neg (by simp)))
  rw [hload]
  dsimp only
  rw [writeSessionIndex, thenFork_writeJson]
  refine ⟨_, rfl, FileStore.read_write.trans (if_pos ⟨rfl, rfl⟩), fun bucket id => ?_⟩
  dsimp only
  rw [FileStore.read_write, if_neg (by simp), FileStore.read_write]
  simp only [jsonName_inj, Dir.bucket.injEq]

/-- A fresh root is planted. -/
theorem holds_persistRoot {tree : SessionTree} (h : Holds w F index) (hroot : tree.parentId = none)
    (hchildren : tree.children = []) :
    ∃ w', persistRoot soundDisk tree w = (.ok (), w') ∧
      Holds w' (F.plant tree.id tree.branch) (index.insert tree.id ⟨none, tree.name, tree.forkedAt⟩) := by
  obtain ⟨w', hpersist, hindex, hread⟩ := read_persistRoot h.loaded hroot
  refine ⟨w', hpersist, ?_⟩
  constructor
  · exact loadSessionIndex_of_read hindex
  · intro id
    by_cases hid : id = tree.id
    · rw [hid, SessionIndex.insert, AList.lookup_insert, plant_self]
      rfl
    · rw [SessionIndex.insert, AList.lookup_insert_ne hid, plant_of_ne hid, h.entry]
  · intro id m hm
    rw [hread]
    by_cases hid : id = tree.id
    · rw [hid, plant_self] at hm
      cases hm
      rw [hid, if_pos ⟨rfl, rfl⟩]
      cases tree
      subst hroot
      subst hchildren
      rfl
    · rw [plant_of_ne hid] at hm
      rw [if_neg fun hname => hid hname.2]
      exact h.stored id m hm
  · intro id m p hm hp
    rw [hread]
    by_cases hid : id = tree.id
    · rw [hid, plant_self] at hm
      cases hm
      cases hp
    · rw [plant_of_ne hid] at hm
      rw [if_neg fun hname => hid hname.2]
      exact h.own id m p hm hp

/-- What `fork` makes of a session before it writes. -/
theorem newChild_ok {config : ForkConfig} {parent child : SessionTree} {parentId childId : String} {name : Option String}
    {opts : ForkOptions} {now : Nat} (h : newChild config index w parent parentId name opts childId now = .ok child) :
    index.entries.lookup childId = none ∧ w.files.read (.bucket childId) (jsonName childId) = none ∧
      child.id = childId ∧ child.parentId = some parentId ∧ child.children = [] ∧ Begins config parent child := by
  unfold newChild at h
  rcases hround : resolveRound parent opts.fromRound with e | round <;> simp only [hround] at h
  · cases h
  split_ifs at h with hindex hfile
  cases h
  refine ⟨?_, ?_, rfl, rfl, rfl, begins_copied hround rfl⟩
  · simpa using hindex
  · simpa [exists?] using hfile

/-- The child's payload, its parent's and the index are written, and nothing else. -/
theorem read_writeChild (w : Workspace) (index : SessionIndex) (parentId : String) (parentEntry : SessionIndexEntry)
    (parent child : SessionTree) :
    ∃ w', writeChild soundDisk index parentEntry parent child parentId w = (.ok child, w') ∧
      w'.files.read .sessions sessionIndexName =
        some (.sessionIndex (index.insert child.id ⟨some parentId, child.name, child.forkedAt⟩)) ∧
      ∀ bucket id, w'.files.read (.bucket bucket) (jsonName id) =
        if bucket = parentEntry.parentId.getD parentId ∧ id = parent.id then
          some (.sessionTree { parent with children := parent.children ++ [child.id] })
        else if bucket = parentId ∧ id = child.id then some (.sessionTree child)
        else w.files.read (.bucket bucket) (jsonName id) := by
  unfold writeChild
  rw [writeSessionPayload, thenFork_writeJson]
  rw [writeSessionPayload, thenFork_writeJson]
  rw [writeSessionIndex, thenFork_writeJson]
  refine ⟨_, rfl, FileStore.read_write.trans (if_pos ⟨rfl, rfl⟩), fun bucket id => ?_⟩
  dsimp only
  rw [FileStore.read_write, if_neg (by simp), FileStore.read_write, FileStore.read_write]
  simp only [jsonName_inj, Dir.bucket.injEq]

/-- The child is grafted onto its parent. -/
theorem holds_writeChild {parentId : String} {n : Node String Branch} {child : SessionTree} (h : Holds w F index)
    (hF : Sound F) (hn : F parentId = some n) (hnew : F child.id = none)
    (hfile : w.files.read (.bucket child.id) (jsonName child.id) = none) (hparent : child.parentId = some parentId)
    (hchildren : child.children = []) :
    ∃ w', writeChild soundDisk index (.ofNode n) (.ofNode parentId n) child parentId w = (.ok child, w') ∧
      Holds w' (F.graft parentId n child.id child.branch)
        (index.insert child.id ⟨some parentId, child.name, child.forkedAt⟩) := by
  obtain ⟨w', hwrite, hindex, hread⟩ := read_writeChild w index parentId (.ofNode n) (.ofNode parentId n) child
  refine ⟨w', hwrite, ?_⟩
  have hne : parentId ≠ child.id := ne_of_new hn hnew
  have hself : n.parent ≠ some parentId := by
    have hrooted := (hF.rooted parentId (by rw [hn]; nofun)).parent_ne
    rw [Forest.parents, hn, Option.map_some] at hrooted
    exact fun heq => hrooted (congrArg some heq)
  -- the three kinds of nodes: the child, its parent, and the others
  constructor
  · exact loadSessionIndex_of_read hindex
  · intro id
    by_cases hid : id = child.id
    · rw [hid, SessionIndex.insert, AList.lookup_insert, graft_self]
      rfl
    rw [SessionIndex.insert, AList.lookup_insert_ne hid, h.entry]
    by_cases hp : id = parentId
    · rw [hp, graft_parent hne, hn]
      rfl
    · rw [graft_of_ne hid hp]
  · intro id m hm
    rw [hread]
    by_cases hid : id = child.id
    · rw [hid, graft_self] at hm
      cases hm
      rw [hid, if_neg fun hname => hne hname.2.symm, if_pos ⟨rfl, rfl⟩]
      cases child
      subst hparent
      subst hchildren
      rfl
    by_cases hp : id = parentId
    · rw [hp, graft_parent hne] at hm
      cases hm
      rw [hp, if_pos ⟨rfl, rfl⟩]
      rfl
    · rw [graft_of_ne hid hp] at hm
      rw [if_neg fun hname => hp hname.2, if_neg fun hname => hid hname.2]
      exact h.stored id m hm
  · intro id m p hm hmp
    rw [hread]
    by_cases hid : id = child.id
    · rw [hid, if_neg fun hname => hne hname.2.symm, if_neg fun hname => hne hname.1.symm]
      exact hfile
    by_cases hp : id = parentId
    · rw [hp, graft_parent hne] at hm
      cases hm
      have hbucket : parentId ≠ n.parent.getD parentId := by
        rintro heq
        rw [hmp, Option.getD_some] at heq
        exact hself (heq ▸ hmp)
      rw [hp, if_neg fun hname => hbucket hname.1, if_neg fun hname => hne hname.2]
      exact h.own parentId n p hn hmp
    · rw [graft_of_ne hid hp] at hm
      rw [if_neg fun hname => hp hname.2, if_neg fun hname => hid hname.2]
      exact h.own id m p hm hmp

/-- What `fork` did, if it did something: `child` is a new leaf below `parentId`. -/
structure Forked (config : ForkConfig) (parentId : String) (F F' : Forest String Branch) (child : SessionTree) : Prop where
  grafted : ∃ n, F parentId = some n ∧ F' = F.graft parentId n child.id child.branch ∧ Begins config (.ofNode parentId n) child
  new : F child.id = none
  parent : child.parentId = some parentId
  leaf : child.children = []

/-- **A fork grafts or does nothing.** -/
theorem holds_fork (config : ForkConfig) (parentId : String) (opts : ForkOptions) (childId : String) (now : Nat)
    (h : Holds w F index) (hF : Sound F) :
    (∃ e, fork soundDisk config parentId opts childId now w = (.error e, w)) ∨
      ∃ child w' F' index', fork soundDisk config parentId opts childId now w = (.ok child, w') ∧
        child.id = childId ∧ Forked config parentId F F' child ∧ Holds w' F' index' := by
  unfold fork
  rcases forkName opts.name with e | name
  · exact .inl ⟨e, rfl⟩
  rw [h.loaded]
  dsimp only
  rw [h.entry]
  rcases hn : F parentId with _ | n
  · exact .inl ⟨_, rfl⟩
  rw [h.load hn]
  dsimp only [Option.map_some]
  rcases hchild : newChild config index w (.ofNode parentId n) parentId name opts childId now with e | child
  · exact .inl ⟨e, rfl⟩
  obtain ⟨hlookup, hfile, rfl, hparent, hleaf, hbegins⟩ := newChild_ok hchild
  have hnew : F child.id = none := by
    rw [h.entry] at hlookup
    exact Option.map_eq_none_iff.mp hlookup
  obtain ⟨w', hwrite, hw'⟩ := holds_writeChild h hF hn hnew hfile hparent hleaf
  exact .inr ⟨child, w', _, _, hwrite, rfl, ⟨⟨n, hn, rfl, hbegins⟩, hnew, hparent, hleaf⟩, hw'⟩

end Growth

/-! ### Runs -/

inductive ForkAction where
  | persistRoot (tree : SessionTree)
  | fork (config : ForkConfig) (parentId : String) (opts : ForkOptions) (childId : String) (now : Nat)

/-- What an action returns is its caller's; here it is the files that go on. -/
def forkStep (w : Workspace) : ForkAction → Option Workspace
  | .persistRoot tree => some (Store.persistRoot soundDisk tree w).2
  | .fork config parentId opts childId now => some (Store.fork soundDisk config parentId opts childId now w).2

/-- A root is persisted as `SessionTree::root` makes it, without children and under an id that `get`
does not find. The ids are names of directories, as those of tasks and ULIDs are. -/
def FreshRoot (w : Workspace) : ForkAction → Prop
  | .persistRoot tree =>
    tree.parentId = none → IsDirName tree.id ∧ tree.children = [] ∧ getSession w tree.id = .ok none
  | .fork _ _ _ childId _ => IsDirName childId

def ForkAction.config : ForkAction → Option ForkConfig
  | persistRoot _ => none
  | fork config .. => some config

/-- No session has been forked or persisted yet. -/
def Unforked (w : Workspace) : Prop :=
  w.files.read .sessions sessionIndexName = none ∧ ∀ bucket name, w.files.read (.bucket bucket) name = none

/-- The index and the payloads agree. `configs` are those a child may have been forked under. -/
structure Integrity (configs : List ForkConfig) (w : Workspace) (index : SessionIndex) : Prop where
  loaded : loadSessionIndex w = .ok index
  got : ∀ id entry, index.entries.lookup id = some entry →
    ∃ tree, getSession w id = .ok (some tree) ∧ tree.id = id ∧ tree.parentId = entry.parentId
  hydrated : ∀ id tree, getSession w id = .ok (some tree) → sessionTree w id = .ok tree
  nodup : ∀ id tree, getSession w id = .ok (some tree) → tree.children.Nodup
  children : ∀ id tree, getSession w id = .ok (some tree) →
    ∀ child, child ∈ tree.children ↔ (index.entries.lookup child).map SessionIndexEntry.parentId = some (some id)
  rooted : ∀ id ∈ index.entries, Rooted (fun id => (index.entries.lookup id).map SessionIndexEntry.parentId) id
  begins : ∀ id child p parent, getSession w id = .ok (some child) → child.parentId = some p →
    getSession w p = .ok (some parent) → ∃ config ∈ configs, Begins config parent child

/-- A session of the first store is in the second, with more children perhaps. -/
def SessionsKept (w w' : Workspace) : Prop :=
  ∀ id tree, getSession w id = .ok (some tree) → ∃ children, tree.children <+: children ∧
    getSession w' id = .ok (some { tree with children := children })

section Runs

variable {w w' : Workspace} {F F' : Forest String Branch} {index index' : SessionIndex} {configs configs' : List ForkConfig}

theorem Begins.congr {config : ForkConfig} {parent parent' child child' : SessionTree} (h : Begins config parent child)
    (hparent : parent'.rounds = parent.rounds) (hchild : child'.rounds = child.rounds)
    (hbranched : child'.branchedAtRound = child.branchedAtRound) : Begins config parent' child' := by
  constructor
  · rw [hchild]
    exact h.off
  · rw [hparent, hchild, hbranched]
    exact h.empty
  · rw [hparent, hbranched]
    exact h.branched
  · rw [hparent, hchild, hbranched]
    exact h.copied

/-- Every child began with what its parent has, under one of the configurations. -/
def Begun (configs : List ForkConfig) (F : Forest String Branch) : Prop :=
  ∀ id n p m, F id = some n → n.parent = some p → F p = some m →
    ∃ config ∈ configs, Begins config (.ofNode p m) (.ofNode id n)

/-- If the new nodes did, all do. -/
theorem Begun.grow (h : Begun configs F) (hF : Sound F) (hext : Extends F F') (hsub : configs ⊆ configs')
    (hnew : ∀ id n' p m', F id = none → F' id = some n' → n'.parent = some p → F' p = some m' →
      ∃ config ∈ configs', Begins config (.ofNode p m') (.ofNode id n')) : Begun configs' F' := by
  intro id n' p m' hn' hp hm'
  rcases hn : F id with _ | n
  · exact hnew id n' p m' hn hn' hp hm'
  obtain ⟨n'', hn'', hparent, hpayload, -⟩ := hext id n hn
  rw [hn'] at hn''
  cases hn''
  rw [hp] at hparent
  have hthere : F p ≠ none := fun hnone => hF.parents_ne hnone id (by rw [Forest.parents, hn, Option.map_some, ← hparent])
  obtain ⟨m, hm⟩ := Option.ne_none_iff_exists'.mp hthere
  obtain ⟨m'', hm'', -, hpayload', -⟩ := hext p m hm
  rw [hm'] at hm''
  cases hm''
  obtain ⟨config, hconfig, hbegins⟩ := h id n p m hn hparent.symm hm
  refine ⟨config, hsub hconfig, hbegins.congr ?_ ?_ ?_⟩
  · exact congrArg Branch.rounds hpayload'
  · exact congrArg Branch.rounds hpayload
  · exact congrArg Branch.branchedAtRound hpayload

theorem Holds.parents (h : Holds w F index) (id : String) :
    (index.entries.lookup id).map SessionIndexEntry.parentId = F.parents id := by
  rw [h.entry, Option.map_map]
  rfl

theorem Holds.get_iff (h : Holds w F index) {id : String} {tree : SessionTree} :
    getSession w id = .ok (some tree) ↔ ∃ n, F id = some n ∧ tree = .ofNode id n := by
  rw [h.get]
  rcases F id with _ | n <;> simp [eq_comm]

/-- The forest tells what the files are like. -/
theorem Holds.integrity (h : Holds w F index) (hF : Sound F) (hbegun : Begun configs F) : Integrity configs w index := by
  constructor
  · exact h.loaded
  · intro id entry hentry
    rw [h.entry] at hentry
    obtain ⟨n, hn, rfl⟩ := Option.map_eq_some_iff.mp hentry
    exact ⟨_, h.get_iff.mpr ⟨n, hn, rfl⟩, rfl, rfl⟩
  · intro id tree htree
    obtain ⟨n, hn, rfl⟩ := h.get_iff.mp htree
    unfold sessionTree
    rw [h.loaded]
    dsimp only
    rw [h.entry, hn]
    exact h.hydrate hF hn
  · intro id tree htree
    obtain ⟨n, hn, rfl⟩ := h.get_iff.mp htree
    exact hF.nodup id n hn
  · intro id tree htree child
    obtain ⟨n, hn, rfl⟩ := h.get_iff.mp htree
    rw [h.parents]
    exact hF.children id n hn child
  · intro id hid
    rw [funext h.parents]
    refine hF.rooted id fun hnone => ?_
    have hlookup := AList.lookup_isSome.mpr hid
    rw [h.entry, hnone] at hlookup
    cases hlookup
  · intro id child p parent hchild hp hparent
    obtain ⟨n, hn, rfl⟩ := h.get_iff.mp hchild
    obtain ⟨m, hm, rfl⟩ := h.get_iff.mp hparent
    exact hbegun id n p m hn hp hm

theorem Holds.sessionsKept (h : Holds w F index) (h' : Holds w' F' index') (hext : Extends F F') : SessionsKept w w' := by
  intro id tree htree
  obtain ⟨n, hn, rfl⟩ := h.get_iff.mp htree
  obtain ⟨n', hn', hparent, hpayload, hchildren⟩ := hext id n hn
  refine ⟨n'.children, hchildren, h'.get_iff.mpr ⟨n', hn', ?_⟩⟩
  rw [SessionTree.ofNode, SessionTree.ofNode, hparent, hpayload]

/-- The child of a fork can be read back. -/
theorem Forked.get {config : ForkConfig} {parentId : String} {child : SessionTree}
    (h : Forked config parentId F F' child) (hw : Holds w F index) (hw' : Holds w' F' index') :
    ∃ parent, getSession w parentId = .ok (some parent) ∧ getSession w child.id = .ok none ∧
      child.parentId = some parentId ∧ Begins config parent child ∧ getSession w' child.id = .ok (some child) := by
  obtain ⟨n, hn, rfl, hbegins⟩ := h.grafted
  refine ⟨_, hw.get_iff.mpr ⟨n, hn, rfl⟩, by rw [hw.get, h.new]; rfl, h.parent, hbegins, ?_⟩
  refine hw'.get_iff.mpr ⟨_, graft_self, ?_⟩
  obtain ⟨id, name, _, round, sha, now, _, rounds⟩ := child
  obtain rfl := h.parent
  obtain rfl := h.leaf
  rfl

theorem Forked.grow {config : ForkConfig} {parentId : String} {child : SessionTree}
    (h : Forked config parentId F F' child) (hF : Sound F) (hbegun : Begun configs F) :
    Sound F' ∧ Extends F F' ∧ Begun (configs ++ [config]) F' := by
  obtain ⟨n, hn, rfl, hbegins⟩ := h.grafted
  have hext := extends_graft (x := child.branch) hn h.new
  refine ⟨hF.graft hn h.new, hext, hbegun.grow hF hext (by simp) ?_⟩
  intro id n' p m' hid hn' hp hm'
  obtain rfl : id = child.id := by
    by_contra hne
    rw [graft_of_ne hne (ne_of_new hn hid).symm, hid] at hn'
    cases hn'
  rw [graft_self] at hn'
  cases hn'
  obtain rfl : parentId = p := by simpa using hp
  rw [graft_parent (ne_of_new hn h.new)] at hm'
  cases hm'
  exact ⟨config, by simp, hbegins.congr rfl rfl rfl⟩

/-- One action. -/
theorem forkStep_grow {action : ForkAction} (h : Holds w F index) (hF : Sound F) (hbegun : Begun configs F)
    (hfresh : FreshRoot w action) (hstep : forkStep w action = some w') :
    ∃ F' index', Holds w' F' index' ∧ Sound F' ∧ Extends F F' ∧ Begun (configs ++ action.config.toList) F' := by
  have hsame (hw : w' = w) : ∃ F' index', Holds w' F' index' ∧ Sound F' ∧ Extends F F' ∧
      Begun (configs ++ action.config.toList) F' :=
    ⟨F, index, hw ▸ h, hF, .refl F, hbegun.grow hF (.refl F) (by simp) fun id n' _ _ hid hn' => by
      rw [hid] at hn'
      cases hn'⟩
  obtain tree | ⟨config, parentId, opts, childId, now⟩ := action
  · replace hstep := Option.some.inj hstep
    rcases hroot : tree.parentId with _ | p
    · obtain ⟨-, hleaf, hget⟩ := hfresh hroot
      have hnew : F tree.id = none := by
        rw [h.get] at hget
        exact Option.map_eq_none_iff.mp (Except.ok.inj hget)
      obtain ⟨w'', hpersist, hw''⟩ := holds_persistRoot h hroot hleaf
      rw [hpersist] at hstep
      subst hstep
      have hext := extends_plant (x := tree.branch) hnew
      refine ⟨_, _, hw'', hF.plant hnew, hext, hbegun.grow hF hext (by simp) ?_⟩
      intro id n' p m' hid hn' hp
      by_cases hne : id = tree.id
      · rw [hne, plant_self] at hn'
        cases hn'
        cases hp
      · rw [plant_of_ne hne, hid] at hn'
        cases hn'
    · refine hsame ?_
      rw [← hstep, persistRoot, hroot]
  · replace hstep := Option.some.inj hstep
    obtain ⟨e, hfork⟩ | ⟨child, w'', F', index', hfork, -, hforked, hw''⟩ :=
      holds_fork config parentId opts childId now h hF
    · exact hsame (by rw [← hstep, hfork])
    · rw [hfork] at hstep
      subst hstep
      exact ⟨F', index', hw'', hforked.grow hF hbegun⟩

theorem holds_unforked (hw : Unforked w) : Holds w (fun _ => none) ⟨∅⟩ where
  loaded := by
    unfold loadSessionIndex exists?
    rw [hw.1]
    rfl
  entry _ := rfl
  stored _ _ := nofun
  own _ _ _ := nofun

/-- So do the actions of a run. -/
theorem forkRun_grow {actions : List ForkAction} (hw : Unforked w) (hfresh : Meets forkStep FreshRoot w actions)
    (hrun : run forkStep w actions = some w') :
    ∃ F index, Holds w' F index ∧ Sound F ∧ Begun (actions.filterMap ForkAction.config) F := by
  refine run_induction (I := fun actions t => Meets forkStep FreshRoot w actions →
    ∃ F index, Holds t F index ∧ Sound F ∧ Begun (actions.filterMap ForkAction.config) F) ?_ ?_ hrun hfresh
  · exact fun _ => ⟨_, _, holds_unforked hw, ⟨fun _ _ => nofun, fun _ _ => nofun, fun _ h => absurd rfl h⟩, fun _ _ _ _ => nofun⟩
  · intro actions t action u hrun ih hstep hmeets
    obtain ⟨hbefore, hlast⟩ := (meets_append hrun).mp hmeets
    obtain ⟨F, index, hF, hsound, hbegun⟩ := ih hbefore
    obtain ⟨F', index', hF', hsound', -, hbegun'⟩ := forkStep_grow hF hsound hbegun (hlast u hstep).1 hstep
    refine ⟨F', index', hF', hsound', ?_⟩
    rw [List.filterMap_append]
    rcases action with _ | _ <;> exact hbegun'

end Runs

/-- **Whatever roots are persisted and sessions forked, in every state the index and the payloads
agree**; the next action keeps the sessions that are there, and the next fork gives its child what
its parent has. -/
theorem fork_tree_integrity {w w' : Workspace} {actions : List ForkAction} (hw : Unforked w)
    (hfresh : Meets forkStep FreshRoot w actions) (hrun : run forkStep w actions = some w') :
    (∃ index, Integrity (actions.filterMap ForkAction.config) w' index) ∧
      (∀ action w'', FreshRoot w' action → forkStep w' action = some w'' → SessionsKept w' w'') ∧
      ∀ config parentId opts childId now child w'',
        fork soundDisk config parentId opts childId now w' = (.ok child, w'') →
          ∃ parent, getSession w' parentId = .ok (some parent) ∧ getSession w' child.id = .ok none ∧
            child.parentId = some parentId ∧ Begins config parent child ∧
            getSession w'' child.id = .ok (some child) := by
  obtain ⟨F, index, h, hF, hbegun⟩ := forkRun_grow hw hfresh hrun
  refine ⟨⟨index, h.integrity hF hbegun⟩, ?_, ?_⟩
  · intro action w'' hroot hstep
    obtain ⟨F', index', h', -, hext, -⟩ := forkStep_grow h hF hbegun hroot hstep
    exact h.sessionsKept h' hext
  · intro config parentId opts childId now child w'' hfork
    obtain ⟨e, herror⟩ | ⟨child', w₁, F', index', hok, -, hforked, hw₁⟩ :=
      holds_fork config parentId opts childId now h hF
    · rw [herror] at hfork
      cases hfork
    · rw [hok] at hfork
      cases hfork
      exact hforked.get h hw₁

/-- A round that is accepted. -/
def acceptedRound : RoundRecord := ⟨1, ⟨"lead", "", none, [], none⟩, .lgtm "reviewer" "LGTM", none, none, none⟩

/-- A root with that round, a child of it and a child of that child. -/
def threeForks : List ForkAction :=
  [.persistRoot { SessionTree.root "r" none 0 with rounds := [acceptedRound] },
    .fork .default "r" ⟨none, some "one", none⟩ "c" 1, .fork .default "c" ⟨some 1, none, none⟩ "d" 2]

theorem fork_tree_integrity_threeForks : ∃ w' index,
    run forkStep ⟨.empty, ∅⟩ threeForks = some w' ∧
      getSession w' "d" = .ok (some ⟨"d", none, some "c", some 1, none, 2, [], [acceptedRound]⟩) ∧
      Integrity (threeForks.filterMap ForkAction.config) w' index := by
  have hchildren : IsDirName "c" ∧ IsDirName "d" := by decide
  have hfresh : Meets forkStep FreshRoot (⟨.empty, ∅⟩ : Workspace) threeForks :=
    fun t ht => ⟨fun _ => ⟨by decide, rfl, rfl⟩, fun u hu => ⟨hchildren.1, fun v hv => ⟨hchildren.2, trivial⟩⟩⟩
  obtain ⟨⟨index, hintegrity⟩, -⟩ := fork_tree_integrity (w := ⟨.empty, ∅⟩) ⟨rfl, fun _ _ => rfl⟩ hfresh rfl
  exact ⟨_, index, rfl, by decide, hintegrity⟩

end Nerve.Store
