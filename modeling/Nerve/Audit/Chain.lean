import Mathlib.Data.List.Basic

/-!
# The budget audit log

The hash-chained log of budget changes of `budget_audit.rs`. Each entry carries
in `prevHash` the hash of the entry before it, its own `entryMac` left out of
what is hashed; under a key the hash is an HMAC and the entry also carries its own in `entryMac`.
`verifyChain` walks the log, `appendWithKey` verifies what is on disk, links the new entry to it
and writes the log back, all under `budget.lock`, so that an append is one step.

The log is kept as the entries its JSON text stands for. The text of an entry,
SHA-256 and HMAC-SHA-256 are parameters (`Hashes`); that the text of an entry can always
be written is built in.
-/

namespace Nerve.Audit

/-! ### Entries -/

structure BudgetSnapshot where
  maxTotalTokens : Option UInt64
  maxEstimatedCostMicrousd : Option UInt64
  deriving DecidableEq, Repr

/-- An entry; `ts` counts nanoseconds. -/
structure BudgetAuditEntry where
  ts : Int
  prev : BudgetSnapshot
  next : BudgetSnapshot
  source : String
  userConfirmed : Bool
  prevHash : Option String
  entryMac : Option String
  deriving DecidableEq, Repr

/-- The entry without its own MAC: what is hashed. -/
def BudgetAuditEntry.bare (entry : BudgetAuditEntry) : BudgetAuditEntry := { entry with entryMac := none }

/-- The operator's key. -/
abbrev Key := List UInt8

/-- What the chain is built on: the JSON text of an entry, and the digests in hexadecimal. -/
structure Hashes where
  toVec : BudgetAuditEntry → List UInt8
  sha256 : List UInt8 → String
  hmacSha256 : Key → List UInt8 → String

/-! ### Errors -/

def AUDIT_KEY_ENV : String := "NERVE_BUDGET_AUDIT_KEY"

inductive AuditError where
  | read (path source : String)
  | invalidJson (path source : String)
  | chainBroken (atEntry : Nat) (expectedPrev : String) (actualPrev : Option String)
  | keyOverUnkeyedLog (path : String) (unkeyedEntries : Nat) (keyEnv : String)
  | io (source : String)
  deriving DecidableEq, Repr

/-- The log file as it stands on disk. -/
inductive LogFile where
  | missing
  /-- Whitespace only. -/
  | blank
  | entries (log : List BudgetAuditEntry)
  /-- Not the JSON text of a log. -/
  | garbled (source : String)
  | unreadable (source : String)
  deriving DecidableEq, Repr

inductive ChainStatus where
  | empty
  | intact (entries : Nat) (lastHash : String)
  | broken (atEntry : Nat) (expectedPrev : String) (actualPrev : Option String)
  deriving DecidableEq, Repr

/-- The head of the chain as last loaded or appended. -/
structure AuditChainState where
  lastHash : Option String
  entries : Nat
  deriving DecidableEq, Repr

def readAuditLogRaw (auditPath : String) : LogFile → Except AuditError (List BudgetAuditEntry)
  | .missing | .blank => .ok []
  | .entries log => .ok log
  | .garbled source => .error (.invalidJson auditPath source)
  | .unreadable source => .error (.read auditPath source)

/-! ### The chain -/

section Chain

variable (H : Hashes)

/-- The hash of an entry, its own MAC left out. -/
def hashEntry (entry : BudgetAuditEntry) (key : Option Key) : String :=
  let raw := H.toVec (if entry.entryMac.isSome then entry.bare else entry)
  match key with
  | some key => H.hmacSha256 key raw
  | none => H.sha256 raw

/-- Whether two hashes are one; the constant time it takes does not show in the result. -/
def hashesEqual (claimed expected : String) : Bool := claimed == expected

/-- The check of one entry against the hash of the one before it. Gives whether a
hashed link has been seen by now. -/
def checkLink (keyed : Bool) (idx : Nat) (entry : BudgetAuditEntry) (previousHash : Option String)
    (seenHashedLink : Bool) : Except AuditError Bool :=
  if idx = 0 then .ok seenHashedLink
  else
    let broken : Except AuditError Bool := .error (.chainBroken idx (previousHash.getD "") entry.prevHash)
    match entry.prevHash, previousHash with
    | some claimed, some expected => if hashesEqual claimed expected then .ok true else broken
    | none, some _ => if !keyed && !seenHashedLink then .ok seenHashedLink else broken
    | _, none => broken

/-- The walk of `verifyChain`, giving the hash of the last entry. -/
def walkChain (key : Option Key) : Nat → Option String → Bool → List BudgetAuditEntry →
    Except AuditError (Option String)
  | _, previousHash, _, [] => .ok previousHash
  | idx, previousHash, seenHashedLink, entry :: rest =>
    match checkLink key.isSome idx entry previousHash seenHashedLink with
    | .error e => .error e
    | .ok seenHashedLink => walkChain key (idx + 1) (some (hashEntry H entry key)) seenHashedLink rest

/-- Under a key the last entry must carry its own MAC. -/
def checkTail (entries : List BudgetAuditEntry) (keyed : Bool) (previousHash : Option String) :
    Except AuditError Unit :=
  match keyed, entries.getLast?, previousHash with
  | true, some tail, some expected =>
    let broken := .error (.chainBroken (entries.length - 1) expected tail.entryMac)
    match tail.entryMac with
    | some claimed => if hashesEqual claimed expected then .ok () else broken
    | none => broken
  | _, _, _ => .ok ()

def verifyChain (entries : List BudgetAuditEntry) (key : Option Key) : Except AuditError (Option String × Nat) :=
  match walkChain H key 0 none false entries with
  | .error e => .error e
  | .ok previousHash =>
    match checkTail entries key.isSome previousHash with
    | .error e => .error e
    | .ok () => .ok (previousHash, entries.length)

/-- A keyed failure over a log that verifies without a key is the migration boundary. -/
def diagnoseKeyedLoad (err : AuditError) (entries : List BudgetAuditEntry) (key : Option Key)
    (auditPath : String) : AuditError :=
  match key, err, verifyChain H entries none with
  | some _, .chainBroken .., .ok _ => .keyOverUnkeyedLog auditPath entries.length AUDIT_KEY_ENV
  | _, _, _ => err

/-- Read the log and verify it. -/
def readVerified (auditPath : String) (file : LogFile) (key : Option Key) :
    Except AuditError (List BudgetAuditEntry × Option String) :=
  match readAuditLogRaw auditPath file with
  | .error e => .error e
  | .ok entries =>
    match verifyChain H entries key with
    | .error e => .error (diagnoseKeyedLoad H e entries key auditPath)
    | .ok (lastHash, _) => .ok (entries, lastHash)

namespace AuditChainState

def loadWithKey (auditPath : String) (file : LogFile) (key : Option Key) : Except AuditError AuditChainState :=
  match readVerified H auditPath file key with
  | .error e => .error e
  | .ok (entries, lastHash) => .ok ⟨lastHash, entries.length⟩

/-- The entry as it is appended to a log with the given head. -/
def link (entry : BudgetAuditEntry) (currentHead : Option String) (key : Option Key) : BudgetAuditEntry :=
  let entry := { entry with prevHash := currentHead }
  if key.isSome then { entry with entryMac := some (hashEntry H entry key) } else entry

/-- An append, with the state and the log it leaves. -/
def appendWithKey (self : AuditChainState) (auditPath : String) (entry : BudgetAuditEntry) (key : Option Key)
    (file : LogFile) : Except AuditError Unit × AuditChainState × LogFile :=
  match readVerified H auditPath file key with
  | .error e => (.error e, self, file)
  | .ok (entries, currentHead) =>
    let entry := link H entry currentHead key
    let entries := entries ++ [entry]
    (.ok (), ⟨some (hashEntry H entry key), entries.length⟩, .entries entries)

def verifyWithKey (auditPath : String) (file : LogFile) (key : Option Key) : Except AuditError ChainStatus :=
  match readAuditLogRaw auditPath file with
  | .error e => .error e
  | .ok [] => .ok .empty
  | .ok entries =>
    match verifyChain H entries key with
    | .ok (some lastHash, count) => .ok (.intact count lastHash)
    | .ok (none, _) => .ok .empty
    | .error (.chainBroken atEntry expectedPrev actualPrev) => .ok (.broken atEntry expectedPrev actualPrev)
    | .error other => .error other

end AuditChainState

/-- Load the head, then append. -/
def appendBudgetAuditEntryWithKey (auditPath : String) (entry : BudgetAuditEntry) (key : Option Key)
    (file : LogFile) : Except AuditError Unit × LogFile :=
  match AuditChainState.loadWithKey H auditPath file key with
  | .error e => (.error e, file)
  | .ok state =>
    let (result, _, file) := state.appendWithKey H auditPath entry key file
    (result, file)

end Chain

/-! ### What hashing leaves out -/

@[simp] theorem BudgetAuditEntry.bare_bare (entry : BudgetAuditEntry) : entry.bare.bare = entry.bare := rfl

@[simp] theorem BudgetAuditEntry.prevHash_bare (entry : BudgetAuditEntry) : entry.bare.prevHash = entry.prevHash := rfl

theorem BudgetAuditEntry.bare_eq_self {entry : BudgetAuditEntry} (h : entry.entryMac = none) : entry.bare = entry := by
  cases entry
  cases h
  rfl

theorem BudgetAuditEntry.eq_of_bare {e e' : BudgetAuditEntry} (h : e.bare = e'.bare) (hmac : e.entryMac = e'.entryMac) :
    e = e' := by
  cases e
  cases e'
  simp_all [bare]

variable {H : Hashes}

/-- The hash is the hash of the bare entry. -/
theorem hashEntry_eq (entry : BudgetAuditEntry) (key : Option Key) :
    hashEntry H entry key = match key with
      | some key => H.hmacSha256 key (H.toVec entry.bare)
      | none => H.sha256 (H.toVec entry.bare) := by
  unfold hashEntry
  rcases h : entry.entryMac with _ | mac
  · rw [BudgetAuditEntry.bare_eq_self h]
    rfl
  · rfl

@[simp] theorem hashEntry_bare (entry : BudgetAuditEntry) (key : Option Key) :
    hashEntry H entry.bare key = hashEntry H entry key := by
  rw [hashEntry_eq, hashEntry_eq, BudgetAuditEntry.bare_bare]

theorem hashesEqual_iff {claimed expected : String} : hashesEqual claimed expected = true ↔ claimed = expected :=
  beq_iff_eq

end Nerve.Audit
