import Nerve.Library.CriticalSection
import Nerve.Store.FilePrograms
import Nerve.Store.ForkTree

/-!
# Forks by many processes

`persist_root` and `fork` hold `sessions.lock` while they write: the payload of the new session, that of its parent, and the
index last. The readers take no lock, a process can die between two writes, and the disk can refuse any of them; then
a child may stand in its parent's list that the index does not have. `Nerve.Store.ForkTree` has the operations one after the
other on a sound disk. Here any number of processes go through them write by write in any order.

`Filed` is what every single write keeps: the index comes last, so whatever it has is there. Hence at every moment of
every run each indexed session is found and its tree shows its children, and from the roots, all of which are listed, the
lists of children lead to every one of them (`forks_readable`); and a fork that has returned is there for good
(`forked_kept`).
-/

namespace Nerve.Store

open Nerve.Run Forest TransitionSystem CriticalSection

namespace FileProgram

open Dialogue

def loadSessionIndex : FileProgram ForkError SessionIndex :=
  .ask (.exists? .sessions sessionIndexName) fun (there : Bool) =>
    if there then (readJson .sessions sessionIndexName Stored.asSessionIndex).liftError .file else .done ⟨∅⟩

def readPayload (bucket id : String) : FileProgram ForkError SessionTree :=
  (readJson (.bucket bucket) (jsonName id) Stored.asSessionTree).liftError .file

def loadSessionPayload (id : String) : FileProgram ForkError SessionTree :=
  .ask (.exists? (.bucket id) (jsonName id)) fun (there : Bool) =>
    if there then readPayload id id
    else do
      let index ← loadSessionIndex
      match index.entries.lookup id with
      | none => .fail (.parentNotFound id)
      | some entry => readPayload (entry.parentId.getD id) id

def writeSessionPayload (bucket : String) (tree : SessionTree) : FileProgram ForkError Unit :=
  (writeJson (.bucket bucket) (jsonName tree.id) (.sessionTree tree)).liftError .file

def writeSessionIndex (index : SessionIndex) : FileProgram ForkError Unit :=
  (writeJson .sessions sessionIndexName (.sessionIndex index)).liftError .file

/-- `persist_root`, with the lock. -/
def persistRoot (tree : SessionTree) : FileProgram ForkError (Option SessionTree) := do
  writeSessionPayload tree.id tree
  let index ← loadSessionIndex
  writeSessionIndex (index.insert tree.id ⟨none, tree.name, tree.forkedAt⟩)
  pure none

def newChild (config : ForkConfig) (index : SessionIndex) (parent : SessionTree) (parentId : String)
    (name : Option String) (opts : ForkOptions) (childId : String) (now : Nat) : FileProgram ForkError SessionTree := do
  let resolvedRound ← ofExcept (resolveRound parent opts.fromRound)
  if (index.entries.lookup childId).isSome then .fail (.collision childId)
  else
    .ask (.exists? (.bucket childId) (jsonName childId)) fun (there : Bool) =>
      if there then .fail (.collision childId)
      else
        .done
          { id := childId
            name := name
            parentId := some parentId
            branchedAtRound := resolvedRound
            branchedFromPatchSha := resolvePatchSha parent opts.fromPatchSha resolvedRound
            forkedAt := now
            children := []
            rounds := copiedRounds config parent resolvedRound }

def writeChild (index : SessionIndex) (parentEntry : SessionIndexEntry) (parent child : SessionTree) (parentId : String) :
    FileProgram ForkError (Option SessionTree) := do
  writeSessionPayload parentId child
  writeSessionPayload (parentEntry.parentId.getD parentId) { parent with children := parent.children ++ [child.id] }
  writeSessionIndex (index.insert child.id ⟨some parentId, child.name, child.forkedAt⟩)
  pure (some child)

/-- `fork`, with the lock. -/
def fork (config : ForkConfig) (parentId : String) (name : Option String) (opts : ForkOptions) (childId : String)
    (now : Nat) : FileProgram ForkError (Option SessionTree) := do
  let index ← loadSessionIndex
  match index.entries.lookup parentId with
  | none => .fail (.parentNotFound parentId)
  | some parentEntry => do
    let parent ← loadSessionPayload parentId
    let child ← newChild config index parent parentId name opts childId now
    writeChild index parentEntry parent child parentId

section serve

variable {disk : Disk} {w : Workspace}

theorem serve_loadSessionIndex : loadSessionIndex.serve (answerFile disk) w = (Store.loadSessionIndex w, w) := by
  rw [loadSessionIndex, Dialogue.serve_ask, Store.loadSessionIndex, answerFile]
  cases exists? w .sessions sessionIndexName with
  | false => rfl
  | true => exact serve_liftError.trans (by rw [serve_readJson, if_pos rfl])

theorem serve_readPayload {bucket id : String} :
    (readPayload bucket id).serve (answerFile disk) w = (Store.readPayload w bucket id, w) := by
  rw [readPayload, serve_liftError, serve_readJson, Store.readPayload]

theorem serve_loadSessionPayload {id : String} :
    (loadSessionPayload id).serve (answerFile disk) w = (Store.loadSessionPayload w id, w) := by
  rw [loadSessionPayload, Dialogue.serve_ask, Store.loadSessionPayload, answerFile]
  cases exists? w (.bucket id) (jsonName id) with
  | true => exact serve_readPayload
  | false =>
    dsimp only
    rw [if_neg (by simp), if_neg (by simp), Dialogue.serve_bind, serve_loadSessionIndex]
    cases Store.loadSessionIndex w with
    | error e => rfl
    | ok index =>
      dsimp only
      cases index.entries.lookup id with
      | none => rfl
      | some entry => exact serve_readPayload

theorem serve_newChild {config : ForkConfig} {index : SessionIndex} {parent : SessionTree} {parentId childId : String}
    {name : Option String} {opts : ForkOptions} {now : Nat} :
    (newChild config index parent parentId name opts childId now).serve (answerFile disk) w =
      (Store.newChild config index w parent parentId name opts childId now, w) := by
  rw [newChild, Dialogue.serve_bind, serve_ofExcept, Store.newChild]
  cases resolveRound parent opts.fromRound with
  | error e => rfl
  | ok resolvedRound =>
    dsimp only
    by_cases hindex : (index.entries.lookup childId).isSome = true
    · rw [if_pos hindex, if_pos hindex]
      rfl
    · rw [if_neg hindex, if_neg hindex, Dialogue.serve_ask, answerFile]
      cases exists? w (.bucket childId) (jsonName childId) <;> rfl

theorem serve_write {α : Type} {dir : Dir} {name : String} {stored : Stored} {k : FileProgram ForkError α} :
    (((writeJson dir name stored).liftError ForkError.file) >>= fun _ => k).serve (answerFile disk) w =
      thenFork (Store.writeJson w dir name disk stored) (k.serve (answerFile disk)) := by
  rw [Dialogue.serve_bind, serve_liftError, serve_writeJson]
  rcases Store.writeJson w dir name disk stored with ⟨_ | _, w'⟩ <;> rfl

theorem map_thenFork {α β : Type} {f : α → β} {r : Result Unit} {k : Workspace → ForkResult α} {k' : Workspace → ForkResult β}
    (h : ∀ w, k' w = ((k w).1.map f, (k w).2)) : thenFork r k' = ((thenFork r k).1.map f, (thenFork r k).2) := by
  obtain ⟨_ | _, w'⟩ := r
  · rfl
  · exact h w'

/-- With nobody else there, the dialogue is the operation. -/
theorem serve_persistRoot {tree : SessionTree} (hroot : tree.parentId = none) :
    (persistRoot tree).serve (answerFile disk) w =
      ((Store.persistRoot disk tree w).1.map fun _ => none, (Store.persistRoot disk tree w).2) := by
  rw [persistRoot, writeSessionPayload, serve_write, Store.persistRoot, hroot]
  refine map_thenFork fun w => ?_
  rw [Dialogue.serve_bind, serve_loadSessionIndex]
  cases Store.loadSessionIndex w with
  | error e => rfl
  | ok index => exact serve_write.trans (map_thenFork fun w => rfl)

theorem serve_writeChild {index : SessionIndex} {parentEntry : SessionIndexEntry} {parent child : SessionTree}
    {parentId : String} :
    (writeChild index parentEntry parent child parentId).serve (answerFile disk) w =
      ((Store.writeChild disk index parentEntry parent child parentId w).1.map some,
        (Store.writeChild disk index parentEntry parent child parentId w).2) :=
  serve_write.trans (map_thenFork fun _ => serve_write.trans (map_thenFork fun _ => serve_write.trans (map_thenFork fun _ => rfl)))

theorem serve_fork {config : ForkConfig} {parentId childId : String} {name : Option String} {opts : ForkOptions} {now : Nat}
    (hname : forkName opts.name = .ok name) :
    (fork config parentId name opts childId now).serve (answerFile disk) w =
      ((Store.fork disk config parentId opts childId now w).1.map some,
        (Store.fork disk config parentId opts childId now w).2) := by
  rw [fork, Dialogue.serve_bind, serve_loadSessionIndex, Store.fork, hname]
  cases Store.loadSessionIndex w with
  | error e => rfl
  | ok index =>
    dsimp only
    cases index.entries.lookup parentId with
    | none => rfl
    | some parentEntry =>
      dsimp only
      rw [Dialogue.serve_bind, serve_loadSessionPayload]
      cases Store.loadSessionPayload w parentId with
      | error e => rfl
      | ok parent =>
        dsimp only
        rw [Dialogue.serve_bind, serve_newChild]
        cases Store.newChild config index w parent parentId name opts childId now with
        | error e => rfl
        | ok child => exact serve_writeChild

end serve

/-! ### Looking -/

theorem looks_loadSessionIndex : loadSessionIndex.Asks FileQuestion.Looks := by
  refine ⟨trivial, fun there => ?_⟩
  cases there with
  | false => trivial
  | true => exact looks_readJson.liftError

theorem looks_loadSessionPayload {id : String} : (loadSessionPayload id).Asks FileQuestion.Looks := by
  refine ⟨trivial, fun there => ?_⟩
  cases there with
  | true => exact looks_readJson.liftError
  | false =>
    refine looks_loadSessionIndex.bind fun index => ?_
    cases index.entries.lookup id with
    | none => trivial
    | some entry => exact looks_readJson.liftError

theorem looks_newChild {config : ForkConfig} {index : SessionIndex} {parent : SessionTree} {parentId childId : String}
    {name : Option String} {opts : ForkOptions} {now : Nat} :
    (newChild config index parent parentId name opts childId now).Asks FileQuestion.Looks := by
  refine (asks_ofExcept _).bind fun resolvedRound => ?_
  split_ifs
  · trivial
  · refine ⟨trivial, fun there => ?_⟩
    cases there <;> trivial

end FileProgram

/-! ### What every write keeps -/

/-- The parents that the index gives. -/
def SessionIndex.parents (index : SessionIndex) (id : String) : Option (Option String) :=
  (index.entries.lookup id).map SessionIndexEntry.parentId

/-- What the index has is there: each session under its parent's directory or its own, and no child in one of its own. No
child has the id of a root. -/
structure Filed (roots : String → Prop) (w : Workspace) (index : SessionIndex) : Prop where
  loaded : loadSessionIndex w = .ok index
  stored : ∀ id parent, index.parents id = some parent → ∃ tree,
    w.files.read (.bucket (parent.getD id)) (jsonName id) = some (.sessionTree tree) ∧ tree.id = id ∧ tree.parentId = parent
  own : ∀ id p, index.parents id = some (some p) → ¬roots id ∧ w.files.read (.bucket id) (jsonName id) = none
  rooted : ∀ id, index.parents id ≠ none → Rooted index.parents id

/-- The child is there, with more children perhaps. -/
structure KeepsChild (w : Workspace) (index : SessionIndex) (child : SessionTree) : Prop where
  parent : child.parentId ≠ none
  indexed : index.entries.lookup child.id = some ⟨child.parentId, child.name, child.forkedAt⟩
  stored : ∃ more, w.files.read (.bucket (child.parentId.getD child.id)) (jsonName child.id) =
    some (.sessionTree { child with children := child.children ++ more })

/-- The payload of a session is replaced. -/
def withPayload (w : Workspace) (bucket : String) (tree : SessionTree) : Workspace :=
  { w with files := w.files.write (.bucket bucket) (jsonName tree.id) (.sessionTree tree) }

def withSessionIndex (w : Workspace) (index : SessionIndex) : Workspace :=
  { w with files := w.files.write .sessions sessionIndexName (.sessionIndex index) }

section Filed

variable {roots : String → Prop} {w : Workspace} {index : SessionIndex} {bucket id : String} {tree child : SessionTree}

theorem read_withPayload {bucket' : String} : (withPayload w bucket tree).files.read (.bucket bucket') (jsonName id) =
    if bucket' = bucket ∧ id = tree.id then some (.sessionTree tree) else w.files.read (.bucket bucket') (jsonName id) := by
  rw [withPayload, FileStore.read_write]
  simp only [jsonName_inj, Dir.bucket.injEq]

theorem read_withSessionIndex {bucket' : String} : (withSessionIndex w index).files.read (.bucket bucket') (jsonName id) =
    w.files.read (.bucket bucket') (jsonName id) := by
  rw [withSessionIndex, FileStore.read_write, if_neg (by simp)]

/-- A payload is written in its place, or for a session that the index does not have. -/
theorem Filed.withPayload (h : Filed roots w index)
    (hplace : ∀ parent, index.parents tree.id = some parent → tree.parentId = parent ∧ bucket = parent.getD tree.id) :
    Filed roots (withPayload w bucket tree) index where
  loaded := (loadSessionIndex_congr (FileStore.read_write.trans (if_neg (by simp)))).trans h.loaded
  stored id parent hparent := by
    rw [read_withPayload]
    split_ifs with hsame
    · obtain ⟨-, rfl⟩ := hsame
      exact ⟨tree, rfl, rfl, (hplace parent hparent).1⟩
    · exact h.stored id parent hparent
  own id p hp := by
    refine ⟨(h.own id p hp).1, ?_⟩
    rw [read_withPayload, if_neg]
    · exact (h.own id p hp).2
    · rintro ⟨hbucket, rfl⟩
      have hself : p = tree.id := ((hplace _ hp).2.symm.trans hbucket.symm : (some p).getD tree.id = tree.id)
      exact (h.rooted tree.id (by simp [hp])).parent_ne (hself ▸ hp)
  rooted := h.rooted

/-- The index gets an entry for a payload that is there. -/
theorem Filed.withSessionIndex (h : Filed roots w index) (id : String) (entry : SessionIndexEntry)
    (hstored : ∃ tree, w.files.read (.bucket (entry.parentId.getD id)) (jsonName id) = some (.sessionTree tree) ∧
      tree.id = id ∧ tree.parentId = entry.parentId)
    (hown : ∀ p, entry.parentId = some p → ¬roots id ∧ w.files.read (.bucket id) (jsonName id) = none)
    (hsame : ∀ parent, index.parents id = some parent → parent = entry.parentId)
    (hparent : ∀ p, entry.parentId = some p → index.parents p ≠ none) :
    Filed roots (withSessionIndex w (index.insert id entry)) (index.insert id entry) := by
  have hparents (id' : String) :
      (index.insert id entry).parents id' = if id' = id then some entry.parentId else index.parents id' := by
    rw [SessionIndex.parents, SessionIndex.insert]
    split_ifs with hid
    · rw [hid, AList.lookup_insert]
      rfl
    · rw [AList.lookup_insert_ne hid]
      rfl
  have hext (id' : String) (parent : Option String) (h' : index.parents id' = some parent) :
      (index.insert id entry).parents id' = some parent := by
    rw [hparents]
    split_ifs with hid
    · rw [hsame parent (hid ▸ h')]
    · exact h'
  have hrooted (id' : String) (h' : index.parents id' ≠ none) : Rooted (index.insert id entry).parents id' :=
    (h.rooted id' h').mono hext
  constructor
  · exact loadSessionIndex_of_read (FileStore.read_write.trans (if_pos ⟨rfl, rfl⟩))
  · intro id' parent hparent'
    rw [read_withSessionIndex]
    rw [hparents] at hparent'
    split_ifs at hparent' with hid
    · obtain rfl := Option.some.inj hparent'
      rw [hid]
      exact hstored
    · exact h.stored id' parent hparent'
  · intro id' p hp
    rw [read_withSessionIndex]
    rw [hparents] at hp
    split_ifs at hp with hid
    · rw [hid]
      exact hown p (Option.some.inj hp)
    · exact h.own id' p hp
  · intro id' hthere
    by_cases hid : id' = id
    · have hentry : (index.insert id entry).parents id' = some entry.parentId := by rw [hparents, if_pos hid]
      rcases hp : entry.parentId with _ | p
      · exact .root (hp ▸ hentry)
      · exact .child (hp ▸ hentry) (hrooted p (hparent p hp))
    · rw [hparents, if_neg hid] at hthere
      exact hrooted id' hthere

theorem KeepsChild.withPayload (h : KeepsChild w index child)
    (hplace : tree.id = child.id → ∃ more, tree = { child with children := child.children ++ more }) :
    KeepsChild (withPayload w bucket tree) index child := by
  refine ⟨h.parent, h.indexed, ?_⟩
  rw [read_withPayload]
  split_ifs with hsame
  · obtain ⟨more, hmore⟩ := hplace hsame.2.symm
    exact ⟨more, by rw [hmore]⟩
  · exact h.stored

theorem KeepsChild.withSessionIndex {entry : SessionIndexEntry} (h : KeepsChild w index child) (hid : id ≠ child.id) :
    KeepsChild (withSessionIndex w (index.insert id entry)) (index.insert id entry) child := by
  refine ⟨h.parent, ?_, ?_⟩
  · rw [SessionIndex.insert, AList.lookup_insert_ne hid.symm]
    exact h.indexed
  · rw [read_withSessionIndex]
    exact h.stored

theorem KeepsChild.parents (h : KeepsChild w index child) : index.parents child.id = some child.parentId := by
  rw [SessionIndex.parents, h.indexed]
  rfl

theorem KeepsChild.not_root (h : KeepsChild w index child) (hfiled : Filed roots w index) : ¬roots child.id := by
  obtain ⟨p, hp⟩ := Option.ne_none_iff_exists'.mp h.parent
  exact (hfiled.own child.id p (hp ▸ h.parents)).1

end Filed

/-- The files agree, and have these children. -/
def Standing (roots : String → Prop) (children : SessionTree → Prop) (w : Workspace) : Prop :=
  ∃ index, Filed roots w index ∧ ∀ child, children child → KeepsChild w index child

section Upholds

variable {disk : Disk} {roots : String → Prop} {children : SessionTree → Prop} {w : Workspace} {index : SessionIndex}
  {I : Workspace → Prop}

theorem upholds_writeSessionPayload {bucket : String} {tree : SessionTree} (h : I w) (hwrite : I (withPayload w bucket tree)) :
    (FileProgram.writeSessionPayload bucket tree).Upholds (answerFile disk) I
      (fun _ w' => w' = withPayload w bucket tree) w := (FileProgram.upholds_writeJson h hwrite).liftError

theorem upholds_writeSessionIndex (h : I w) (hwrite : I (withSessionIndex w index)) :
    (FileProgram.writeSessionIndex index).Upholds (answerFile disk) I (fun _ w' => w' = withSessionIndex w index) w :=
  (FileProgram.upholds_writeJson h hwrite).liftError

theorem upholds_loadSessionIndex (hfiled : Filed roots w index) (hI : I w) :
    FileProgram.loadSessionIndex.Upholds (answerFile disk) I (fun index' w' => w' = w ∧ index' = index) w := by
  refine (FileProgram.looks_loadSessionIndex.upholds answerFile_of_looks hI).mono fun index' w' h => ⟨h.1, ?_⟩
  rw [FileProgram.serve_loadSessionIndex, hfiled.loaded] at h
  exact (Except.ok.inj h.2).symm

theorem upholds_loadSessionPayload {id : String} (hI : I w) :
    (FileProgram.loadSessionPayload id).Upholds (answerFile disk) I
      (fun tree w' => w' = w ∧ loadSessionPayload w id = .ok tree) w := by
  refine (FileProgram.looks_loadSessionPayload.upholds answerFile_of_looks hI).mono fun tree w' h => ⟨h.1, ?_⟩
  rw [FileProgram.serve_loadSessionPayload] at h
  exact h.2

/-- A root is written, and then its entry. -/
theorem upholds_persistRoot {tree : SessionTree} (h : Standing roots children w) (hroot : tree.parentId = none)
    (hid : roots tree.id) : (FileProgram.persistRoot tree).Upholds (answerFile disk) (Standing roots children)
      (fun child w' => child = none ∧ Standing roots children w') w := by
  obtain ⟨index, hfiled, hkept⟩ := h
  have hnone (parent : Option String) (hparent : index.parents tree.id = some parent) : parent = none := by
    rcases parent with _ | p
    · rfl
    · exact absurd hid (hfiled.own tree.id p hparent).1
  have hne (child : SessionTree) (hchild : children child) : tree.id ≠ child.id := fun heq =>
    (hkept child hchild).not_root hfiled (heq ▸ hid)
  have hfiled₁ : Filed roots (withPayload w tree.id tree) index := hfiled.withPayload fun parent hparent => by
    obtain rfl := hnone parent hparent
    exact ⟨hroot, rfl⟩
  have hkept₁ (child : SessionTree) (hchild : children child) : KeepsChild (withPayload w tree.id tree) index child :=
    (hkept child hchild).withPayload fun heq => absurd heq (hne child hchild)
  have hread : (withPayload w tree.id tree).files.read (.bucket tree.id) (jsonName tree.id) = some (.sessionTree tree) := by
    rw [read_withPayload, if_pos ⟨rfl, rfl⟩]
  refine (upholds_writeSessionPayload ⟨index, hfiled, hkept⟩ ⟨index, hfiled₁, hkept₁⟩).bind fun _ w₁ _ hw₁ => ?_
  subst hw₁
  refine (upholds_loadSessionIndex hfiled₁ ⟨index, hfiled₁, hkept₁⟩).bind fun index' w₁ _ hw₁ => ?_
  obtain ⟨rfl, rfl⟩ := hw₁
  have hstanding : Standing roots children (withSessionIndex (withPayload w tree.id tree)
      (index'.insert tree.id ⟨none, tree.name, tree.forkedAt⟩)) :=
    ⟨_, hfiled₁.withSessionIndex _ _ ⟨tree, hread, rfl, hroot⟩ (fun p hp => by cases hp) hnone (fun p hp => by cases hp),
      fun child hchild => (hkept₁ child hchild).withSessionIndex (hne child hchild)⟩
  refine (upholds_writeSessionIndex ⟨index', hfiled₁, hkept₁⟩ hstanding).bind fun _ w₂ hw₂ _ => ?_
  exact ⟨hw₂, rfl, hw₂⟩

end Upholds

/-! ### The three writes of a fork -/

/-- What `fork` has found out before it writes. -/
structure Forking (roots : String → Prop) (w : Workspace) (index : SessionIndex) (parentEntry : SessionIndexEntry)
    (parent child : SessionTree) (parentId : String) : Prop where
  filed : Filed roots w index
  indexed : index.parents parentId = some parentEntry.parentId
  read : w.files.read (.bucket (parentEntry.parentId.getD parentId)) (jsonName parentId) = some (.sessionTree parent)
  id : parent.id = parentId
  grandparent : parent.parentId = parentEntry.parentId
  new : index.parents child.id = none
  alone : w.files.read (.bucket child.id) (jsonName child.id) = none
  parent : child.parentId = some parentId
  notRoot : ¬roots child.id

section Forking

variable {roots : String → Prop} {w : Workspace} {index : SessionIndex} {parentEntry : SessionIndexEntry}
  {parent child c : SessionTree} {parentId : String}

/-- The first write: the child's payload. -/
def withChild (w : Workspace) (parentId : String) (child : SessionTree) : Workspace := withPayload w parentId child

/-- The second: its parent's, with one more child. -/
def withParent (w : Workspace) (parentEntry : SessionIndexEntry) (parent child : SessionTree) (parentId : String) : Workspace :=
  withPayload (withChild w parentId child) (parentEntry.parentId.getD parentId)
    { parent with children := parent.children ++ [child.id] }

def childEntry (parentId : String) (child : SessionTree) : SessionIndexEntry := ⟨some parentId, child.name, child.forkedAt⟩

theorem Forking.ne (h : Forking roots w index parentEntry parent child parentId) : parentId ≠ child.id := fun heq => by
  have hindexed := h.indexed
  rw [heq, h.new] at hindexed
  cases hindexed

theorem Forking.ne_child (h : Forking roots w index parentEntry parent child parentId) (hc : KeepsChild w index c) :
    child.id ≠ c.id := fun heq => by
  have hparents := hc.parents
  rw [← heq, h.new] at hparents
  cases hparents

theorem Forking.filed_withChild (h : Forking roots w index parentEntry parent child parentId) :
    Filed roots (withChild w parentId child) index := h.filed.withPayload fun parent hparent => by
  rw [h.new] at hparent
  cases hparent

theorem Forking.filed_withParent (h : Forking roots w index parentEntry parent child parentId) :
    Filed roots (withParent w parentEntry parent child parentId) index :=
  h.filed_withChild.withPayload fun grandparent hgrandparent => by
    dsimp only at hgrandparent ⊢
    rw [h.id] at hgrandparent ⊢
    obtain rfl := Option.some.inj (h.indexed.symm.trans hgrandparent)
    exact ⟨h.grandparent, rfl⟩

theorem Forking.read_child (h : Forking roots w index parentEntry parent child parentId) :
    (withParent w parentEntry parent child parentId).files.read (.bucket parentId) (jsonName child.id) =
      some (.sessionTree child) := by
  rw [withParent, read_withPayload, if_neg fun hsame => h.ne (h.id.symm.trans hsame.2.symm), withChild, read_withPayload,
    if_pos ⟨rfl, rfl⟩]

/-- The third write: the index, which is what the child counts by. -/
theorem Forking.filed_index (h : Forking roots w index parentEntry parent child parentId) :
    Filed roots (withSessionIndex (withParent w parentEntry parent child parentId)
      (index.insert child.id (childEntry parentId child))) (index.insert child.id (childEntry parentId child)) := by
  refine h.filed_withParent.withSessionIndex _ _ ⟨child, h.read_child, rfl, h.parent⟩ (fun _ _ => ⟨h.notRoot, ?_⟩)
    (fun parent hparent => ?_) fun p hp => ?_
  · rw [withParent, read_withPayload, if_neg fun hsame => h.ne (h.id.symm.trans hsame.2.symm), withChild, read_withPayload,
      if_neg fun hsame => h.ne hsame.1.symm, h.alone]
  · rw [h.new] at hparent
    cases hparent
  · obtain rfl := Option.some.inj hp
    rw [h.indexed]
    nofun

theorem Forking.keeps_withChild (h : Forking roots w index parentEntry parent child parentId) (hc : KeepsChild w index c) :
    KeepsChild (withChild w parentId child) index c := hc.withPayload fun heq => absurd heq (h.ne_child hc)

/-- The parent's list grows at its end. -/
theorem Forking.keeps_withParent (h : Forking roots w index parentEntry parent child parentId) (hc : KeepsChild w index c) :
    KeepsChild (withParent w parentEntry parent child parentId) index c :=
  (h.keeps_withChild hc).withPayload fun heq => by
    have hid : c.id = parentId := heq.symm.trans h.id
    have hparent : parentEntry.parentId = c.parentId := by
      have hindexed := hc.parents
      rw [hid, h.indexed] at hindexed
      exact Option.some.inj hindexed
    have hread := h.read
    obtain ⟨more, hmore⟩ := hc.stored
    rw [hparent, ← hid, hmore] at hread
    obtain rfl : { c with children := c.children ++ more } = parent := by simpa using hread
    exact ⟨more ++ [child.id], by rw [List.append_assoc]⟩

theorem Forking.keeps_index (h : Forking roots w index parentEntry parent child parentId) (hc : KeepsChild w index c) :
    KeepsChild (withSessionIndex (withParent w parentEntry parent child parentId)
      (index.insert child.id (childEntry parentId child))) (index.insert child.id (childEntry parentId child)) c :=
  (h.keeps_withParent hc).withSessionIndex (h.ne_child hc)

theorem Forking.keeps_child (h : Forking roots w index parentEntry parent child parentId) :
    KeepsChild (withSessionIndex (withParent w parentEntry parent child parentId)
      (index.insert child.id (childEntry parentId child))) (index.insert child.id (childEntry parentId child)) child := by
  have hbucket : child.parentId.getD child.id = parentId := by rw [h.parent, Option.getD_some]
  refine ⟨by rw [h.parent]; nofun, ?_, [], ?_⟩
  · rw [SessionIndex.insert, AList.lookup_insert, childEntry, h.parent]
  · rw [read_withSessionIndex, hbucket, h.read_child, List.append_nil]

variable {disk : Disk} {children : SessionTree → Prop}

theorem Forking.upholds (h : Forking roots w index parentEntry parent child parentId)
    (hkept : ∀ c, children c → KeepsChild w index c) :
    (FileProgram.writeChild index parentEntry parent child parentId).Upholds (answerFile disk) (Standing roots children)
      (fun result w' => result = some child ∧ Standing roots (fun c => children c ∨ c = child) w') w := by
  have hstart : Standing roots children w := ⟨index, h.filed, hkept⟩
  have hchild : Standing roots children (withChild w parentId child) :=
    ⟨index, h.filed_withChild, fun c hc => h.keeps_withChild (hkept c hc)⟩
  have hparent : Standing roots children (withParent w parentEntry parent child parentId) :=
    ⟨index, h.filed_withParent, fun c hc => h.keeps_withParent (hkept c hc)⟩
  have hindex : Standing roots children (withSessionIndex (withParent w parentEntry parent child parentId)
      (index.insert child.id (childEntry parentId child))) :=
    ⟨_, h.filed_index, fun c hc => h.keeps_index (hkept c hc)⟩
  refine (upholds_writeSessionPayload hstart hchild).bind fun _ w' _ hw' => ?_
  subst hw'
  refine (upholds_writeSessionPayload hchild hparent).bind fun _ w' _ hw' => ?_
  subst hw'
  refine (upholds_writeSessionIndex hparent hindex).bind fun _ w' _ hw' => ?_
  subst hw'
  refine ⟨hindex, rfl, _, h.filed_index, fun c hc => ?_⟩
  rcases hc with hc | rfl
  · exact h.keeps_index (hkept c hc)
  · exact h.keeps_child

/-- The payload of an indexed session is found, in its place. -/
theorem Filed.load (h : Filed roots w index) {id : String} {parent : Option String} (hparent : index.parents id = some parent) :
    ∃ tree, loadSessionPayload w id = .ok tree ∧
      w.files.read (.bucket (parent.getD id)) (jsonName id) = some (.sessionTree tree) ∧ tree.id = id ∧ tree.parentId = parent := by
  obtain ⟨tree, hread, hid, hup⟩ := h.stored id parent hparent
  refine ⟨tree, ?_, hread, hid, hup⟩
  obtain ⟨entry, hentry, rfl⟩ := Option.map_eq_some_iff.mp hparent
  unfold loadSessionPayload exists?
  split_ifs with hown
  · rcases hp : entry.parentId with _ | p
    · rw [hp, Option.getD_none] at hread
      exact readPayload_of_read hread
    · rw [hp] at hparent
      rw [(h.own id p hparent).2] at hown
      cases hown
  · rw [h.loaded]
    dsimp only
    rw [hentry]
    exact readPayload_of_read hread

theorem upholds_fork {config : ForkConfig} {name : Option String} {opts : ForkOptions} {childId : String} {now : Nat}
    (h : Standing roots children w) (hid : ¬roots childId) :
    (FileProgram.fork config parentId name opts childId now).Upholds (answerFile disk) (Standing roots children)
      (fun result w' => ∃ child, result = some child ∧ Standing roots (fun c => children c ∨ c = child) w') w := by
  have hstart := h
  obtain ⟨index, hfiled, hkept⟩ := h
  refine (upholds_loadSessionIndex hfiled hstart).bind fun index' w' _ hw' => ?_
  obtain ⟨rfl, rfl⟩ := hw'
  cases hentry : index'.entries.lookup parentId with
  | none => exact hstart
  | some parentEntry =>
    have hindexed : index'.parents parentId = some parentEntry.parentId := by
      rw [SessionIndex.parents, hentry]
      rfl
    refine (upholds_loadSessionPayload hstart).bind fun parent w'' _ hw'' => ?_
    obtain ⟨rfl, hload⟩ := hw''
    obtain ⟨parent', hload', hread, hparentId, hgrandparent⟩ := hfiled.load hindexed
    obtain rfl : parent' = parent := Except.ok.inj (hload'.symm.trans hload)
    refine (FileProgram.looks_newChild.upholds answerFile_of_looks hstart).bind fun child w' _ hw' => ?_
    obtain ⟨rfl, hchild⟩ := hw'
    rw [FileProgram.serve_newChild] at hchild
    obtain ⟨hnew, hfile, rfl, hparent, -, -⟩ := newChild_ok hchild
    have hforking : Forking roots w' index' parentEntry parent' child parentId :=
      ⟨hfiled, hindexed, hread, hparentId, hgrandparent, by rw [SessionIndex.parents, hnew]; rfl, hfile, hparent, hid⟩
    exact (hforking.upholds hkept).mono fun result w'' hresult => ⟨child, hresult⟩

end Forking

/-! ### Every run -/

inductive ForkRequest where
  | persistRoot (tree : SessionTree)
  | fork (config : ForkConfig) (parentId : String) (opts : ForkOptions) (childId : String) (now : Nat)

namespace ForkRequest

/-- What is done without the lock, and what is left to do with it. -/
def begin : ForkRequest → Except ForkError (FileProgram ForkError (Option SessionTree))
  | persistRoot tree =>
    match tree.parentId with
    | some parentId => .error (.invalidName s!"persist_root called with non-root tree (parent_id=Some({parentId.quote}))")
    | none => .ok (FileProgram.persistRoot tree)
  | fork config parentId opts childId now =>
    (forkName opts.name).map fun name => FileProgram.fork config parentId name opts childId now

/-- The request in one step. -/
def run (disk : Disk) (w : Workspace) : ForkRequest → ForkResult (Option SessionTree)
  | persistRoot tree => ((Store.persistRoot disk tree w).1.map fun _ => none, (Store.persistRoot disk tree w).2)
  | fork config parentId opts childId now =>
    ((Store.fork disk config parentId opts childId now w).1.map some, (Store.fork disk config parentId opts childId now w).2)

/-- The ids of roots are not those of children: the one kind is made of UUIDs, the other of ULIDs. -/
def Apart (roots : String → Prop) : ForkRequest → Prop
  | persistRoot tree => tree.parentId = none → roots tree.id ∧ IsDirName tree.id
  | fork _ _ _ childId _ => ¬roots childId ∧ IsDirName childId

end ForkRequest

inductive ForkFailure where
  | error (e : ForkError)
  | lockTimeout

/-- A request, the disk that it finds, and for how many more tries it waits after the first. -/
structure ForkCall where
  request : ForkRequest
  disk : Disk
  retries : Nat

def sessionsLockName : String := "sessions.lock"

/-- The requests under `SessionsLock`. The lock goes with the process that has it. -/
def forkOperations : Operations FileQuestion FileQuestion.Answer ForkFailure (Option SessionTree) Workspace ForkCall where
  program c :=
    match c.request.begin with
    | .error e => .fail (.error e)
    | .ok d => d.liftError .error
  handler c := answerFile c.disk
  tries c :=
    match c.request.begin with
    | .error _ => 0
    | .ok _ => c.retries + 1
  timeout c :=
    match c.request.begin with
    | .error e => .error e
    | .ok _ => .lockTimeout
  refusal c := if c.disk .sessionMeta sessionsLockName then none else some (.error (.file (.lock .sessionMeta sessionsLockName)))
  frees := true

abbrev forkLockStep := CriticalSection.step forkOperations

theorem program_forkOperations (c : ForkCall) : forkOperations.program c = match c.request.begin with
    | .error e => .fail (.error e)
    | .ok d => d.liftError .error := rfl

/-- With nobody else there, a request is what it is in one step. -/
theorem serve_forkOperations (c : ForkCall) (w : Workspace) :
    (forkOperations.program c).serve (forkOperations.handler c) w =
      ((c.request.run c.disk w).1.mapError .error, (c.request.run c.disk w).2) := by
  rw [program_forkOperations, show forkOperations.handler c = answerFile c.disk from rfl]
  obtain ⟨tree | ⟨config, parentId, opts, childId, now⟩, disk, retries⟩ := c
  · dsimp only [ForkRequest.begin, ForkRequest.run]
    rcases hroot : tree.parentId with _ | p
    · dsimp only
      rw [Dialogue.serve_liftError, FileProgram.serve_persistRoot hroot]
    · dsimp only
      rw [persistRoot, hroot]
      rfl
  · dsimp only [ForkRequest.begin, ForkRequest.run]
    rcases hname : forkName opts.name with e | name
    · rw [fork, hname]
      rfl
    · dsimp only [Except.map]
      rw [Dialogue.serve_liftError, FileProgram.serve_fork hname]
      rfl

/-- The children that forks have returned. -/
def Returned (es : List (Ended ForkFailure (Option SessionTree) ForkCall)) (child : SessionTree) : Prop :=
  ∃ e ∈ es, e.result = some (.ok (some child))

theorem standing_mono {roots : String → Prop} {children children' : SessionTree → Prop} {w : Workspace}
    (h : Standing roots children w) (hsub : ∀ c, children' c → children c) : Standing roots children' w := by
  obtain ⟨index, hfiled, hkept⟩ := h
  exact ⟨index, hfiled, fun c hc => hkept c (hsub c hc)⟩

theorem returned_concat {es : List (Ended ForkFailure (Option SessionTree) ForkCall)} {i : Nat} {c : ForkCall}
    {result : Option (Except ForkFailure (Option SessionTree))} {child : SessionTree}
    (h : Returned (es ++ [⟨i, c, result⟩]) child) : Returned es child ∨ result = some (.ok (some child)) := by
  obtain ⟨e, he, hresult⟩ := h
  obtain he | he := List.mem_append.mp he
  · exact .inl ⟨e, he, hresult⟩
  · rw [List.mem_singleton.mp he] at hresult
    exact .inr hresult

/-- **Every request keeps the files in agreement at its every write**, and a fork that returns adds its child. -/
theorem standing_invariant (roots : String → Prop) :
    Invariant forkOperations (fun c => c.request.Apart roots) fun es => Standing roots (Returned es) where
  keep es i c w hc h := by
    rw [program_forkOperations]
    obtain ⟨tree | ⟨config, parentId, opts, childId, now⟩, disk, retries⟩ := c
    · dsimp only [ForkRequest.begin]
      rcases hroot : tree.parentId with _ | p
      · refine (Dialogue.Upholds.liftError (upholds_persistRoot h hroot (hc hroot).1)).mono fun result w' hw' => ?_
        obtain ⟨rfl, hw'⟩ := hw'
        refine standing_mono hw' fun child hchild => ?_
        obtain hchild | hchild := returned_concat hchild
        · exact hchild
        · cases hchild
      · exact h
    · dsimp only [ForkRequest.begin]
      rcases hname : forkName opts.name with e | name
      · exact h
      · refine (Dialogue.Upholds.liftError (upholds_fork h hc.1)).mono fun result w' hw' => ?_
        obtain ⟨child, rfl, hw'⟩ := hw'
        refine standing_mono hw' fun child' hchild' => ?_
        obtain hchild' | hchild' := returned_concat hchild'
        · exact .inl hchild'
        · cases hchild'
          exact .inr rfl
  failed es i c e w h := standing_mono h fun child hchild => by
    obtain hchild | hchild := returned_concat hchild
    · exact hchild
    · cases hchild
  stopped es i c w h := standing_mono h fun child hchild => by
    obtain hchild | hchild := returned_concat hchild
    · exact hchild
    · cases hchild

theorem standing_unforked {roots : String → Prop} {w : Workspace} (hw : Unforked w) : Standing roots (Returned []) w := by
  refine ⟨⟨∅⟩, ⟨(holds_unforked hw).loaded, fun id parent => nofun, fun id p => nofun, fun id h => absurd rfl h⟩, ?_⟩
  rintro child ⟨e, he, -⟩
  cases he

/-! ### What the readers see -/

/-- The tree of the one has the other in its list of children. -/
def ShowsChild (w : Workspace) (id child : String) : Prop := ∃ tree, sessionTree w id = .ok tree ∧ child ∈ tree.children

/-- From a root that `list_root` gives, the lists of children lead to the session. -/
def Reached (w : Workspace) (id : String) : Prop :=
  ∃ trees, listRoot w = .ok trees ∧ ∃ root ∈ trees, Relation.ReflTransGen (ShowsChild w) root.id id

/-- The readers find every session of the index with its parent, and its tree with the children that the index gives it;
`list_root` gives the trees of the roots, each once, and every session is reached from them. -/
structure Readable (w : Workspace) (index : SessionIndex) : Prop where
  loaded : loadSessionIndex w = .ok index
  got : ∀ id parent, index.parents id = some parent →
    ∃ tree, getSession w id = .ok (some tree) ∧ tree.id = id ∧ tree.parentId = parent
  shown : ∀ id, index.parents id ≠ none → ∃ tree, sessionTree w id = .ok tree ∧ tree.id = id ∧
    ∀ child, index.parents child = some (some id) → child ∈ tree.children
  listed : ∃ trees, listRoot w = .ok trees ∧ (trees.map SessionTree.id).Nodup ∧
    (∀ id, id ∈ trees.map SessionTree.id ↔ index.parents id = some none) ∧
    ∀ tree ∈ trees, sessionTree w tree.id = .ok tree
  reached : ∀ id, index.parents id ≠ none → Reached w id

section Readable

variable {roots : String → Prop} {w : Workspace} {index : SessionIndex}

theorem Filed.getSession (h : Filed roots w index) {id : String} {parent : Option String}
    (hparent : index.parents id = some parent) : Store.getSession w id = (loadSessionPayload w id).map some := by
  obtain ⟨entry, hentry, -⟩ := Option.map_eq_some_iff.mp hparent
  rw [Store.getSession, h.loaded]
  dsimp only
  rw [hentry]

theorem Filed.sessionTree_eq (h : Filed roots w index) {id : String} {parent : Option String}
    (hparent : index.parents id = some parent) : Store.sessionTree w id = hydrate w index id := by
  obtain ⟨entry, hentry, -⟩ := Option.map_eq_some_iff.mp hparent
  rw [Store.sessionTree, h.loaded]
  dsimp only
  rw [hentry]

/-- The tree has the children of the index. -/
theorem Filed.sessionTree (h : Filed roots w index) {id : String} {parent : Option String}
    (hparent : index.parents id = some parent) : ∃ tree, Store.sessionTree w id = .ok tree ∧ tree.id = id ∧
      ∀ child, index.parents child = some (some id) → child ∈ tree.children := by
  obtain ⟨tree, hload, -, hid, -⟩ := h.load hparent
  rw [h.sessionTree_eq hparent, hydrate, hload]
  refine ⟨_, rfl, hid, fun child hchild => ?_⟩
  dsimp only
  have hindexed : child ∈ indexedChildren index id := by
    obtain ⟨entry', hentry', hup⟩ := Option.map_eq_some_iff.mp hchild
    have hkeys : child ∈ index.entries.keys := AList.lookup_isSome.mp (by rw [hentry']; rfl)
    rw [indexedChildren, List.mem_mergeSort, List.mem_filter, hentry']
    exact ⟨hkeys, by simp [hup]⟩
  by_cases hthere : child ∈ tree.children
  · exact List.mem_append_left _ hthere
  · exact List.mem_append_right _ (List.mem_filter.mpr ⟨hindexed, by simpa using hthere⟩)

/-- All roots are listed, each once, with their trees. -/
theorem Filed.listRoot (h : Filed roots w index) : ∃ trees, Store.listRoot w = .ok trees ∧
    (trees.map SessionTree.id).Nodup ∧ (∀ id, id ∈ trees.map SessionTree.id ↔ index.parents id = some none) ∧
    ∀ tree ∈ trees, Store.sessionTree w tree.id = .ok tree := by
  let isRoot (id : String) : Bool := ((index.entries.lookup id).bind SessionIndexEntry.parentId).isNone
  have hsorted := List.mergeSort_perm (index.entries.keys.filter isRoot) fun a b => a ≤ b
  have hmem (id : String) : id ∈ (index.entries.keys.filter isRoot).mergeSort (fun a b => a ≤ b) ↔
      index.parents id = some none := by
    rw [hsorted.mem_iff, List.mem_filter, ← AList.mem_keys, ← AList.lookup_isSome, SessionIndex.parents]
    rcases hentry : index.entries.lookup id with _ | entry <;> simp [isRoot, hentry]
  obtain ⟨trees, htrees, hids, hshown⟩ := mapM_ok (f := hydrate w index) (g := SessionTree.id)
    (P := fun tree => Store.sessionTree w tree.id = .ok tree) fun id hid => by
      have hparent := (hmem id).mp hid
      obtain ⟨tree, htree, rfl, -⟩ := h.sessionTree hparent
      exact ⟨tree, by rw [← h.sessionTree_eq hparent, htree], rfl, htree⟩
  have hperm := List.mergeSort_perm trees fun a b => a.forkedAt ≤ b.forkedAt
  refine ⟨_, ?_, ?_, fun id => ?_, fun tree htree => hshown tree (hperm.mem_iff.mp htree)⟩
  · rw [Store.listRoot, h.loaded]
    dsimp only
    rw [htrees]
  · rw [(hperm.map _).nodup_iff, ← hids, hsorted.nodup_iff]
    exact index.entries.keys_nodup.filter _
  · rw [(hperm.map _).mem_iff, ← hids, hmem]

/-- From its root, the lists of children lead to every session. -/
theorem Filed.reached (h : Filed roots w index) {id : String} (hthere : index.parents id ≠ none) : Reached w id := by
  obtain ⟨trees, hlist, -, hroots, -⟩ := h.listRoot
  refine ⟨trees, hlist, ?_⟩
  -- along the chain of parents
  induction h.rooted id hthere with
  | root hroot =>
    obtain ⟨tree, htree, hid⟩ := List.mem_map.mp ((hroots _).mpr hroot)
    exact ⟨tree, htree, hid ▸ .refl⟩
  | child hparent hrooted ih =>
    obtain ⟨root, hroot, hreached⟩ := ih hrooted.ne_none
    obtain ⟨grandparent, hgrandparent⟩ := Option.ne_none_iff_exists'.mp hrooted.ne_none
    obtain ⟨tree, htree, -, hshown⟩ := h.sessionTree hgrandparent
    exact ⟨root, hroot, hreached.tail ⟨tree, htree, hshown _ hparent⟩⟩

theorem Filed.readable (h : Filed roots w index) : Readable w index where
  loaded := h.loaded
  got id parent hparent := by
    obtain ⟨tree, hload, -, hid, hup⟩ := h.load hparent
    exact ⟨tree, by rw [h.getSession hparent, hload]; rfl, hid, hup⟩
  shown id hthere := by
    obtain ⟨parent, hparent⟩ := Option.ne_none_iff_exists'.mp hthere
    exact h.sessionTree hparent
  listed := h.listRoot
  reached id hthere := h.reached hthere

/-- The child has its row in the index, is found as it was returned, with more children perhaps, stands in the tree of its
parent, and is reached from a root. -/
structure Found (w : Workspace) (child : SessionTree) : Prop where
  indexed : ∃ index, Store.loadSessionIndex w = .ok index ∧
    index.entries.lookup child.id = some ⟨child.parentId, child.name, child.forkedAt⟩
  got : ∃ more, Store.getSession w child.id = .ok (some { child with children := child.children ++ more })
  shown : ∃ parentId, child.parentId = some parentId ∧ ShowsChild w parentId child.id
  reached : Reached w child.id

theorem KeepsChild.found {child : SessionTree} (h : KeepsChild w index child) (hfiled : Filed roots w index) :
    Found w child := by
  obtain ⟨more, hmore⟩ := h.stored
  obtain ⟨tree, hload, hread, -⟩ := hfiled.load h.parents
  obtain rfl : { child with children := child.children ++ more } = tree := by simpa using hmore.symm.trans hread
  obtain ⟨p, hp⟩ := Option.ne_none_iff_exists'.mp h.parent
  have hparents : index.parents child.id = some (some p) := hp ▸ h.parents
  obtain ⟨parent, hparent⟩ : ∃ parent, index.parents p = some parent := by
    cases hfiled.rooted child.id (by rw [hparents]; nofun) with
    | root hroot =>
      rw [hparents] at hroot
      cases hroot
    | child hchild hrooted =>
      rw [hparents] at hchild
      cases hchild
      exact Option.ne_none_iff_exists'.mp hrooted.ne_none
  obtain ⟨tree, htree, -, hshown⟩ := hfiled.sessionTree hparent
  refine ⟨⟨index, hfiled.loaded, h.indexed⟩, ⟨more, ?_⟩, ⟨p, hp, tree, htree, hshown child.id hparents⟩,
    hfiled.reached (by rw [hparents]; nofun)⟩
  rw [hfiled.getSession h.parents, hload]
  rfl

end Readable

/-- A root and two forks of it: one dies before the index is written, the other gets through. -/
def forkAfterDeath : List (Action ForkCall) :=
  let fork (childId : String) (now : Nat) : ForkCall := ⟨.fork .default "r" ⟨none, none, none⟩ childId now, soundDisk, 0⟩
  [.call ⟨.persistRoot (.root "r" none 0), soundDisk, 0⟩] ++ List.replicate 6 (.go 0) ++ [.call (fork "c" 1)] ++
    List.replicate 8 (.go 1) ++ [.die 1, .call (fork "d" 2)] ++ List.replicate 11 (.go 2)

theorem apart_forkAfterDeath (c : ForkCall) (hc : .call c ∈ forkAfterDeath) : c.request.Apart (· = "r") := by
  simp [forkAfterDeath] at hc
  have hnames : IsDirName "r" ∧ IsDirName "c" ∧ IsDirName "d" := by decide
  obtain rfl | rfl | rfl := hc <;> simp [ForkRequest.Apart, SessionTree.root, hnames]

/-- **At every moment of every run the forks can be read**: whatever processes persist roots and fork sessions, in whatever
order they take their steps, wherever they die and whichever writes the disk refuses. -/
theorem forks_readable (roots : String → Prop) (w : Workspace) (hw : Unforked w) (as : List (Action ForkCall))
    (hcalls : ∀ c, .call c ∈ as → c.request.Apart roots) :
    Always forkLockStep (fun s => ∃ index, Readable s.shared index) (.start w) as :=
  ((standing_invariant roots).always (standing_unforked hw) hcalls).mono fun _ ⟨index, hfiled, _⟩ => ⟨index, hfiled.readable⟩

theorem forks_readable_forkAfterDeath : ∃ s, run forkLockStep (.start ⟨.empty, ∅⟩) forkAfterDeath = some s ∧
    Always forkLockStep (fun s => ∃ index, Readable s.shared index) (.start ⟨.empty, ∅⟩) forkAfterDeath :=
  ⟨_, rfl, forks_readable (· = "r") ⟨.empty, ∅⟩ ⟨rfl, fun _ _ => rfl⟩ forkAfterDeath apart_forkAfterDeath⟩

/-- **A fork that has returned is there for good.** -/
theorem forked_kept (roots : String → Prop) (w : Workspace) (hw : Unforked w) (as : List (Action ForkCall))
    (hcalls : ∀ c, .call c ∈ as → c.request.Apart roots) :
    Always forkLockStep (fun s => ∀ i c child, s.At i c (.returned (.ok (some child))) → Found s.shared child)
      (.start w) as := by
  have h := ((standing_invariant roots).always (standing_unforked hw) hcalls).and (ordered_always forkOperations w as)
  refine h.mono fun s ⟨⟨index, hfiled, hkept⟩, hordered, _⟩ i c child hi => ?_
  exact (hkept child ⟨_, hordered.told i c _ (.inr hi), rfl⟩).found hfiled

theorem forked_kept_forkAfterDeath : ∃ s, run forkLockStep (.start ⟨.empty, ∅⟩) forkAfterDeath = some s ∧
    Always forkLockStep (fun s => ∀ i c child, s.At i c (.returned (.ok (some child))) → Found s.shared child)
      (.start ⟨.empty, ∅⟩) forkAfterDeath :=
  ⟨_, rfl, forked_kept (· = "r") ⟨.empty, ∅⟩ ⟨rfl, fun _ _ => rfl⟩ forkAfterDeath apart_forkAfterDeath⟩

end Nerve.Store
