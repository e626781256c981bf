import Nerve.Store.Model

/-!
# Forks of sessions

The fork engine of `session_fork.rs`, in the same directories as the store: an index that gives each
session its parent, in `sessions/index.json`, and for each session a payload with its rounds and its
children, in the directory of its parent, or in its own if it has none. Every
operation that writes holds `sessions.lock` from beginning to end, so it is one step. A child's
ULID and the time are given.
-/

namespace Nerve.Store

open Nerve.Run

structure ForkConfig where
  copyPatchHistory : Bool
  maxCopiedRounds : Nat
  deriving DecidableEq, Repr

def ForkConfig.default : ForkConfig := ⟨true, 1024⟩

structure ForkOptions where
  fromRound : Option Nat
  name : Option String
  fromPatchSha : Option String
  deriving DecidableEq, Repr

inductive ForkError where
  | parentNotFound (id : String)
  | invalidRound (round : Nat)
  | collision (id : String)
  | invalidName (raw : String)
  /-- An I/O error, or one of the parser. -/
  | file (e : StoreError)
  deriving DecidableEq, Repr

def ForkError.toText (cwd : String) : ForkError → String
  | parentNotFound id => s!"parent session not found: {id}"
  | invalidRound round => s!"round {round} does not exist in parent"
  | collision id => s!"session id collision: {id}"
  | invalidName raw => s!"invalid name `{raw}`: must be 1..=64 chars of [A-Za-z0-9_-]"
  | file e => s!"io error: {e.toText cwd}"

abbrev ForkResult (α : Type) := Except ForkError α × Workspace

/-- A root session, as it begins. -/
def SessionTree.root (id : String) (name : Option String) (now : Nat) : SessionTree where
  id := id
  name := name
  parentId := none
  branchedAtRound := none
  branchedFromPatchSha := none
  forkedAt := now
  children := []
  rounds := []

def sanitizeName (raw : String) : Except ForkError String :=
  let trimmed := String.ofList (Text.trim raw.toList)
  if trimmed.isEmpty || 64 < trimmed.utf8ByteSize then .error (.invalidName raw)
  else if trimmed.toList.all fun c => c.isAlphanum || c == '-' || c == '_' then .ok trimmed
  else .error (.invalidName raw)

/-! ### Reading -/

def sessionIndexName : String := "index.json"

def loadSessionIndex (w : Workspace) : Except ForkError SessionIndex :=
  if exists? w .sessions sessionIndexName then
    (readJson w .sessions sessionIndexName Stored.asSessionIndex).mapError .file
  else .ok ⟨∅⟩

def readPayload (w : Workspace) (bucket id : String) : Except ForkError SessionTree :=
  (readJson w (.bucket bucket) (jsonName id) Stored.asSessionTree).mapError .file

/-- The payload of a session: in its own directory, or where the index says. -/
def loadSessionPayload (w : Workspace) (id : String) : Except ForkError SessionTree :=
  if exists? w (.bucket id) (jsonName id) then readPayload w id id
  else
    match loadSessionIndex w with
    | .error e => .error e
    | .ok index =>
      match index.entries.lookup id with
      | none => .error (.parentNotFound id)
      | some entry => readPayload w (entry.parentId.getD id) id

def getSession (w : Workspace) (id : String) : Except ForkError (Option SessionTree) :=
  match loadSessionIndex w with
  | .error e => .error e
  | .ok index =>
    match index.entries.lookup id with
    | none => .ok none
    | some _ => (loadSessionPayload w id).map some

/-- The ids that the index gives this parent, in order. -/
def indexedChildren (index : SessionIndex) (id : String) : List String :=
  (index.entries.keys.filter fun child =>
    ((index.entries.lookup child).bind SessionIndexEntry.parentId) == some id).mergeSort fun a b => a ≤ b

/-- The payload, with the children that only the index has. -/
def hydrate (w : Workspace) (index : SessionIndex) (id : String) : Except ForkError SessionTree :=
  match loadSessionPayload w id with
  | .error e => .error e
  | .ok tree =>
    let missing := (indexedChildren index id).filter fun child => !tree.children.contains child
    .ok { tree with children := tree.children ++ missing }

/-- `tree` -/
def sessionTree (w : Workspace) (rootId : String) : Except ForkError SessionTree :=
  match loadSessionIndex w with
  | .error e => .error e
  | .ok index =>
    match index.entries.lookup rootId with
    | none => .error (.parentNotFound rootId)
    | some _ => hydrate w index rootId

/-- `list_root`: the roots in the order of their ids, and then the older ones first. -/
def listRoot (w : Workspace) : Except ForkError (List SessionTree) :=
  match loadSessionIndex w with
  | .error e => .error e
  | .ok index =>
    let rootIds := (index.entries.keys.filter fun id =>
      ((index.entries.lookup id).bind SessionIndexEntry.parentId).isNone).mergeSort fun a b => a ≤ b
    match rootIds.mapM (hydrate w index) with
    | .error e => .error e
    | .ok roots => .ok (roots.mergeSort fun a b => a.forkedAt ≤ b.forkedAt)

/-! ### Writing -/

/-- `r?` and then `k`, for a write of a file. -/
def thenFork {α : Type} (r : Result Unit) (k : Workspace → ForkResult α) : ForkResult α :=
  match r with
  | (.ok (), w) => k w
  | (.error e, w) => (.error (.file e), w)

def writeSessionPayload (disk : Disk) (bucket : String) (tree : SessionTree) (w : Workspace) : Result Unit :=
  writeJson w (.bucket bucket) (jsonName tree.id) disk (.sessionTree tree)

def writeSessionIndex (disk : Disk) (index : SessionIndex) (w : Workspace) : Result Unit :=
  writeJson w .sessions sessionIndexName disk (.sessionIndex index)

def SessionIndex.insert (index : SessionIndex) (id : String) (entry : SessionIndexEntry) : SessionIndex :=
  ⟨index.entries.insert id entry⟩

def persistRoot (disk : Disk) (tree : SessionTree) (w : Workspace) : ForkResult Unit :=
  match tree.parentId with
  | some parentId =>
    (.error (.invalidName s!"persist_root called with non-root tree (parent_id=Some({parentId.quote}))"), w)
  | none =>
    thenFork (writeSessionPayload disk tree.id tree w) fun w =>
      match loadSessionIndex w with
      | .error e => (.error e, w)
      | .ok index =>
        thenFork (writeSessionIndex disk (index.insert tree.id ⟨none, tree.name, tree.forkedAt⟩) w) fun w =>
          (.ok (), w)

/-- The round a child branches off at: one that the parent has, or its last one. -/
def resolveRound (parent : SessionTree) : Option Nat → Except ForkError (Option Nat)
  | some requested =>
    if parent.rounds.any fun r => r.round == requested then .ok (some requested) else .error (.invalidRound requested)
  | none => .ok (parent.rounds.getLast?.map RoundRecord.round)

def resolvePatchSha (parent : SessionTree) (given : Option String) (resolvedRound : Option Nat) : Option String :=
  given <|> resolvedRound.bind fun round =>
    (parent.rounds.find? fun r => r.round == round).bind RoundRecord.patchSha

/-- The rounds a child begins with. -/
def copiedRounds (config : ForkConfig) (parent : SessionTree) (resolvedRound : Option Nat) : List RoundRecord :=
  match config.copyPatchHistory, resolvedRound with
  | true, some round => (parent.rounds.takeWhile fun r => r.round ≤ round).take config.maxCopiedRounds
  | _, _ => []

/-- The part of `fork` that decides on the child: `childId` is its ULID, and `now` the time. -/
def newChild (config : ForkConfig) (index : SessionIndex) (w : Workspace) (parent : SessionTree) (parentId : String)
    (name : Option String) (opts : ForkOptions) (childId : String) (now : Nat) : Except ForkError SessionTree :=
  match resolveRound parent opts.fromRound with
  | .error e => .error e
  | .ok resolvedRound =>
    if (index.entries.lookup childId).isSome then .error (.collision childId)
    else if exists? w (.bucket childId) (jsonName childId) then .error (.collision childId)
    else
      .ok
        { id := childId
          name := name
          parentId := some parentId
          branchedAtRound := resolvedRound
          branchedFromPatchSha := resolvePatchSha parent opts.fromPatchSha resolvedRound
          forkedAt := now
          children := []
          rounds := copiedRounds config parent resolvedRound }

/-- The child's payload, the parent's with its new child, and the index. -/
def writeChild (disk : Disk) (index : SessionIndex) (parentEntry : SessionIndexEntry) (parent child : SessionTree)
    (parentId : String) (w : Workspace) : ForkResult SessionTree :=
  thenFork (writeSessionPayload disk parentId child w) fun w =>
    thenFork (writeSessionPayload disk (parentEntry.parentId.getD parentId)
        { parent with children := parent.children ++ [child.id] } w) fun w =>
      thenFork (writeSessionIndex disk (index.insert child.id ⟨some parentId, child.name, child.forkedAt⟩) w) fun w =>
        (.ok child, w)

def forkName : Option String → Except ForkError (Option String)
  | none => .ok none
  | some raw => (sanitizeName raw).map some

def fork (disk : Disk) (config : ForkConfig) (parentId : String) (opts : ForkOptions) (childId : String) (now : Nat)
    (w : Workspace) : ForkResult SessionTree :=
  match forkName opts.name with
  | .error e => (.error e, w)
  | .ok name =>
    match loadSessionIndex w with
    | .error e => (.error e, w)
    | .ok index =>
      match index.entries.lookup parentId with
      | none => (.error (.parentNotFound parentId), w)
      | some parentEntry =>
        match loadSessionPayload w parentId with
        | .error e => (.error e, w)
        | .ok parent =>
          match newChild config index w parent parentId name opts childId now with
          | .error e => (.error e, w)
          | .ok child => writeChild disk index parentEntry parent child parentId w

end Nerve.Store
