import Nerve.Audit.Authenticity
import Nerve.Library.TransitionSystem
import Mathlib.Logic.Function.Basic

/-!
# Concurrent appends

Any number of appenders call `appendWithKey` on one log, their steps in any order: a call opens the
lock file, waits for the lock, reads and verifies the log under it, writes the log back with its
entry, and unlocks. Reading, writing and what comes before the lock can fail for reasons of the file
system; the write itself replaces the file or leaves it.

What the log holds is at any time what it held at first with the entries of the calls that have
returned without an error, in the order of their returns (`appends_kept`); an entry that is written
while its call still holds the lock comes last. So nothing appended is lost, a failed call adds
nothing, and the log verifies throughout.
-/

namespace Nerve.Audit

open TransitionSystem

abbrev Pid := Nat

/-- Where an appender is, with the head it has cached. -/
inductive Appender where
  | idle (self : AuditChainState)
  /-- The lock file is open. -/
  | waiting (self : AuditChainState) (entry : BudgetAuditEntry)
  | locked (self : AuditChainState) (entry : BudgetAuditEntry)
  /-- The log is read and verified. -/
  | loaded (self : AuditChainState) (entry : BudgetAuditEntry) (entries : List BudgetAuditEntry) (head : Option String)
  /-- The result is known, and the lock still held. -/
  | releasing (self : AuditChainState) (entry : BudgetAuditEntry) (result : Except AuditError Unit)

/-- The log file, who holds `budget.lock`, and the appenders. -/
structure Appenders where
  file : LogFile
  lock : Option Pid
  procs : Pid → Appender

inductive AppendAction where
  | call (pid : Pid) (entry : BudgetAuditEntry)
  /-- The directory or the lock file cannot be had. -/
  | fail (pid : Pid) (source : String)
  | lock (pid : Pid)
  | load (pid : Pid) (fault : Option String)
  | write (pid : Pid) (fault : Option String)
  | unlock (pid : Pid)

section Step

variable (H : Hashes) (auditPath : String) (key : Option Key)

/-- The appender goes on as `P`. -/
def Appenders.become (s : Appenders) (pid : Pid) (P : Appender) : Appenders :=
  { s with procs := Function.update s.procs pid P }

/-- One step of one appender. -/
def appendStep (s : Appenders) : AppendAction → Option Appenders
  | .call pid entry =>
    match s.procs pid with
    | .idle self => some (s.become pid (.waiting self entry))
    | _ => none
  | .fail pid _ =>
    match s.procs pid with
    | .waiting self _ => some (s.become pid (.idle self))
    | _ => none
  | .lock pid =>
    match s.procs pid, s.lock with
    | .waiting self entry, none => some { s.become pid (.locked self entry) with lock := some pid }
    | _, _ => none
  | .load pid fault =>
    match s.procs pid with
    | .locked self entry =>
      match readVerified H auditPath (fault.elim s.file .unreadable) key with
      | .ok (entries, head) => some (s.become pid (.loaded self entry entries head))
      | .error e => some (s.become pid (.releasing self entry (.error e)))
    | _ => none
  | .write pid fault =>
    match s.procs pid with
    | .loaded self entry entries head =>
      match fault with
      | none =>
        let linked := AuditChainState.link H entry head key
        let entries := entries ++ [linked]
        some { s.become pid (.releasing ⟨some (hashEntry H linked key), entries.length⟩ entry (.ok ())) with
          file := .entries entries }
      | some source => some (s.become pid (.releasing self entry (.error (.io source))))
    | _ => none
  | .unlock pid =>
    match s.procs pid with
    | .releasing self _ _ => some { s.become pid (.idle self) with lock := none }
    | _ => none

/-- The entry the appender has written, if it is about to return. -/
def Appender.wrote : Appender → Option BudgetAuditEntry
  | .releasing _ entry (.ok ()) => some entry
  | _ => none

/-- The entry of a call that returns without an error. -/
def acknowledged (s : Appenders) : AppendAction → Option BudgetAuditEntry
  | .unlock pid => (s.procs pid).wrote
  | _ => none

/-- What is written by a call that has not returned: at most one entry, under the lock. -/
def Appenders.written (s : Appenders) : List BudgetAuditEntry := (s.lock.bind fun pid => (s.procs pid).wrote).toList

/-- The log with an entry linked to its last one. -/
def append (log : List BudgetAuditEntry) (entry : BudgetAuditEntry) : List BudgetAuditEntry :=
  log ++ [AuditChainState.link H entry (log.getLast?.map fun e => hashEntry H e key) key]

end Step

variable {H : Hashes} {auditPath : String} {key : Option Key}

/-! ### An append keeps the log -/

/-- A log that is walked to its end can be gone on with. -/
theorem walkChain_concat {idx : Nat} {previous last : Option String} {seen : Bool} {log : List BudgetAuditEntry}
    {entry : BudgetAuditEntry} (h : walkChain H key idx previous seen log = .ok last)
    (hidx : idx = 0 ∨ previous.isSome) (hentry : entry.prevHash = last) :
    walkChain H key idx previous seen (log ++ [entry]) = .ok (some (hashEntry H entry key)) := by
  induction log generalizing idx previous seen with
  | nil =>
    obtain rfl : previous = last := Except.ok.inj h
    have hlink : checkLink key.isSome idx entry previous seen = .ok true ∨
        checkLink key.isSome idx entry previous seen = .ok seen := by
      rcases hidx with rfl | hsome
      · exact Or.inr rfl
      · obtain ⟨expected, rfl⟩ := Option.isSome_iff_exists.mp hsome
        by_cases hzero : idx = 0
        · exact Or.inr (by rw [checkLink, if_pos hzero])
        · exact Or.inl (by simp [checkLink, hzero, hentry, hashesEqual])
    rcases hlink with hlink | hlink <;> simp [walkChain, hlink]
  | cons x log ih =>
    rw [walkChain] at h
    rw [List.cons_append, walkChain]
    rcases hlink : checkLink key.isSome idx x previous seen with e | seen' <;> simp only [hlink] at h ⊢
    · cases h
    · exact ih h (Or.inr rfl)

/-- The walk ends with the hash of the last entry. -/
theorem walkChain_last {idx : Nat} {previous last : Option String} {seen : Bool} {log : List BudgetAuditEntry}
    (h : walkChain H key idx previous seen log = .ok last) :
    last = (log.getLast?.map fun e => hashEntry H e key).or previous := by
  induction log generalizing idx previous seen with
  | nil => exact (Except.ok.inj h).symm
  | cons x log ih =>
    rw [walkChain] at h
    rcases hlink : checkLink key.isSome idx x previous seen with e | seen' <;> simp only [hlink] at h
    · cases h
    · rw [ih h]
      rcases log.eq_nil_or_concat with rfl | ⟨log, y, rfl⟩
      · rfl
      · simp [List.getLast?_cons]

theorem verifyChain_last {log : List BudgetAuditEntry} {last : Option String} {n : Nat}
    (h : verifyChain H log key = .ok (last, n)) :
    walkChain H key 0 none false log = .ok last ∧ last = log.getLast?.map fun e => hashEntry H e key := by
  unfold verifyChain at h
  rcases hw : walkChain H key 0 none false log with e | last' <;> simp only [hw] at h
  · cases h
  rcases ht : checkTail log key.isSome last' with e | _ <;> simp only [ht] at h
  · cases h
  · cases h
    exact ⟨rfl, by rw [walkChain_last hw, Option.or_none]⟩

/-- **An append keeps the log**: what verifies goes on to verify. -/
theorem verifyChain_append {log : List BudgetAuditEntry} {r : Option String × Nat}
    (h : verifyChain H log key = .ok r) (entry : BudgetAuditEntry) :
    ∃ r', verifyChain H (append H key log entry) key = .ok r' := by
  obtain ⟨hwalk, hlast⟩ := verifyChain_last h
  set linked := AuditChainState.link H entry (log.getLast?.map fun e => hashEntry H e key) key with hlinked
  have hprev : linked.prevHash = r.1 := by
    rw [hlast, hlinked, AuditChainState.link]
    split_ifs <;> rfl
  have hgoes := walkChain_concat hwalk (Or.inl rfl) hprev
  have htail : checkTail (log ++ [linked]) key.isSome (some (hashEntry H linked key)) = .ok () := by
    rcases key with _ | k
    · rfl
    · have hmac : linked.entryMac = some (hashEntry H linked (some k)) := (link_keyed entry _).2
      simp [checkTail, hmac, hashesEqual]
  refine ⟨(some (hashEntry H linked key), (log ++ [linked]).length), ?_⟩
  rw [append, ← hlinked, verifyChain, hgoes]
  simp only [htail]

/-! ### What the appenders keep -/

/-- The head of a verified log is the hash of its last entry. -/
theorem readVerified_spec {file : LogFile} {log : List BudgetAuditEntry} {head : Option String}
    (h : readVerified H auditPath file key = .ok (log, head)) :
    readAuditLogRaw auditPath file = .ok log ∧ head = log.getLast?.map fun e => hashEntry H e key := by
  obtain ⟨hraw, n, hverify⟩ := readVerified_ok h
  exact ⟨hraw, (verifyChain_last hverify).2⟩

/-- The appender is between taking the lock and giving it back. -/
def Appender.holdsLock : Appender → Bool
  | .locked _ _ | .loaded _ _ _ _ | .releasing _ _ _ => true
  | _ => false

/-- The lock is held by whoever is in between, and what such a one has read still stands in the file. -/
structure Serial (H : Hashes) (auditPath : String) (key : Option Key) (s : Appenders) : Prop where
  exclusive : ∀ pid, (s.procs pid).holdsLock = true ↔ s.lock = some pid
  unchanged : ∀ pid self entry entries head, s.procs pid = .loaded self entry entries head →
    readAuditLogRaw auditPath s.file = .ok entries ∧ head = entries.getLast?.map fun e => hashEntry H e key

/-- What the log is after the run, from what it was and what the calls returned. -/
structure Kept (H : Hashes) (auditPath : String) (key : Option Key) (log₀ : List BudgetAuditEntry) (s₀ : Appenders)
    (as : List AppendAction) (s : Appenders) : Prop where
  /-- The entries of the calls that returned without an error, in order, then what the holder of the
  lock has written. -/
  log : readAuditLogRaw auditPath s.file =
    .ok ((outputs (appendStep H auditPath key) acknowledged s₀ as ++ s.written).foldl (append H key) log₀)
  intact : ∃ r, verifyChain H ((outputs (appendStep H auditPath key) acknowledged s₀ as ++ s.written).foldl
    (append H key) log₀) key = .ok r
  /-- Only a call that goes on to return without an error changes the file, and all it does is
  append its entry. -/
  changes : ∀ a t, appendStep H auditPath key s a = some t → t.file ≠ s.file → ∃ pid entry log,
    a = .write pid none ∧ (t.procs pid).wrote = some entry ∧ readAuditLogRaw auditPath s.file = .ok log ∧
      t.file = .entries (append H key log entry)

section Moves

variable {s t : Appenders} {a : AppendAction}

/-- What a step can do. -/
inductive Moves (H : Hashes) (auditPath : String) (key : Option Key) (s : Appenders) (t : Appenders) :
    AppendAction → Prop
  | calls {pid : Pid} {self : AuditChainState} {entry : BudgetAuditEntry} (before : s.procs pid = .idle self)
      (after : t = s.become pid (.waiting self entry)) : Moves H auditPath key s t (.call pid entry)
  | fails {pid : Pid} {self : AuditChainState} {entry : BudgetAuditEntry} {source : String}
      (before : s.procs pid = .waiting self entry) (after : t = s.become pid (.idle self)) :
      Moves H auditPath key s t (.fail pid source)
  | locks {pid : Pid} {self : AuditChainState} {entry : BudgetAuditEntry} (before : s.procs pid = .waiting self entry)
      (free : s.lock = none) (after : t = { s.become pid (.locked self entry) with lock := some pid }) :
      Moves H auditPath key s t (.lock pid)
  | loads {pid : Pid} {self : AuditChainState} {entry : BudgetAuditEntry} {entries : List BudgetAuditEntry}
      {head : Option String} (before : s.procs pid = .locked self entry)
      (read : readAuditLogRaw auditPath s.file = .ok entries)
      (isHead : head = entries.getLast?.map fun e => hashEntry H e key)
      (after : t = s.become pid (.loaded self entry entries head)) : Moves H auditPath key s t (.load pid none)
  | givesUp {pid : Pid} {self : AuditChainState} {entry : BudgetAuditEntry} {fault : Option String} {e : AuditError}
      (before : s.procs pid = .locked self entry) (after : t = s.become pid (.releasing self entry (.error e))) :
      Moves H auditPath key s t (.load pid fault)
  | writes {pid : Pid} {self self' : AuditChainState} {entry : BudgetAuditEntry} {entries : List BudgetAuditEntry}
      {head : Option String} (before : s.procs pid = .loaded self entry entries head)
      (after : t = { s.become pid (.releasing self' entry (.ok ())) with
        file := .entries (entries ++ [AuditChainState.link H entry head key]) }) :
      Moves H auditPath key s t (.write pid none)
  | failsToWrite {pid : Pid} {self : AuditChainState} {entry : BudgetAuditEntry} {entries : List BudgetAuditEntry}
      {head : Option String} {source : String} (before : s.procs pid = .loaded self entry entries head)
      (after : t = s.become pid (.releasing self entry (.error (.io source)))) :
      Moves H auditPath key s t (.write pid (some source))
  | unlocks {pid : Pid} {self : AuditChainState} {entry : BudgetAuditEntry} {result : Except AuditError Unit}
      (before : s.procs pid = .releasing self entry result)
      (after : t = { s.become pid (.idle self) with lock := none }) : Moves H auditPath key s t (.unlock pid)

theorem appendStep_moves (h : appendStep H auditPath key s a = some t) : Moves H auditPath key s t a := by
  cases a with
  | call pid entry =>
    rw [appendStep] at h
    split at h
    · exact .calls ‹_› (Option.some.inj h).symm
    · cases h
  | fail pid source =>
    rw [appendStep] at h
    split at h
    · exact .fails ‹_› (Option.some.inj h).symm
    · cases h
  | lock pid =>
    rw [appendStep] at h
    split at h
    · exact .locks ‹_› ‹_› (Option.some.inj h).symm
    · cases h
  | load pid fault =>
    rw [appendStep] at h
    split at h
    · split at h
      · rename_i hread
        rcases fault with _ | source
        · obtain ⟨hraw, hhead⟩ := readVerified_spec hread
          exact .loads ‹_› hraw hhead (Option.some.inj h).symm
        · cases hread
      · exact .givesUp ‹_› (Option.some.inj h).symm
    · cases h
  | write pid fault =>
    rw [appendStep] at h
    split at h
    · rcases fault with _ | source
      · exact .writes ‹_› (Option.some.inj h).symm
      · exact .failsToWrite ‹_› (Option.some.inj h).symm
    · cases h
  | unlock pid =>
    rw [appendStep] at h
    split at h
    · exact .unlocks ‹_› (Option.some.inj h).symm
    · cases h

/-- One appender goes on, and only the holder of the lock touches lock or file. -/
theorem Serial.update {pid : Pid} {P : Appender} (hs : Serial H auditPath key s)
    (hprocs : t.procs = Function.update s.procs pid P)
    (hlock : t.lock = s.lock ∨ (s.lock = none ∨ s.lock = some pid) ∧ (t.lock = none ∨ t.lock = some pid))
    (hfile : t.file = s.file ∨ s.lock = some pid) (hP : P.holdsLock = true ↔ t.lock = some pid)
    (hloaded : ∀ self entry entries head, P = .loaded self entry entries head →
      readAuditLogRaw auditPath t.file = .ok entries ∧ head = entries.getLast?.map fun e => hashEntry H e key) :
    Serial H auditPath key t := by
  have hother {pid' : Pid} (hne : pid' ≠ pid) : t.procs pid' = s.procs pid' := by
    rw [hprocs, Function.update_of_ne hne]
  have hself : t.procs pid = P := by rw [hprocs, Function.update_self]
  constructor
  · intro pid'
    by_cases hne : pid' = pid
    · rw [hne, hself, hP]
    · rw [hother hne, hs.exclusive]
      rcases hlock with hsame | ⟨hs', ht⟩
      · rw [hsame]
      · have hnot {lock : Option Pid} (h : lock = none ∨ lock = some pid) : lock ≠ some pid' := by
          rcases h with rfl | rfl
          · exact fun h => by cases h
          · exact fun h => hne (Option.some.inj h).symm
        exact iff_of_false (hnot hs') (hnot ht)
  · intro pid' self entry entries head hpid'
    by_cases hne : pid' = pid
    · subst hne
      exact hloaded self entry entries head (hself ▸ hpid')
    · rw [hother hne] at hpid'
      rcases hfile with hsame | hmine
      · rw [hsame]
        exact hs.unchanged pid' self entry entries head hpid'
      · have hheld := (hs.exclusive pid').mp (by rw [hpid']; rfl)
        rw [hmine] at hheld
        exact absurd (Option.some.inj hheld).symm hne

/-- Who is not between taking the lock and giving it back does not hold it. -/
theorem Serial.not_lock (hs : Serial H auditPath key s) {pid : Pid} (hpid : (s.procs pid).holdsLock = false) :
    s.lock ≠ some pid := fun h => by
  rw [← hs.exclusive, hpid] at h
  cases h

/-- Every move keeps the appends apart. -/
theorem Serial.moves (hs : Serial H auditPath key s) (h : Moves H auditPath key s t a) : Serial H auditPath key t := by
  have hheld {pid : Pid} (hpid : (s.procs pid).holdsLock = true) : s.lock = some pid := (hs.exclusive pid).mp hpid
  cases h with
  | calls before after =>
    subst after
    have hnot := hs.not_lock (by rw [before]; rfl)
    exact hs.update rfl (Or.inl rfl) (Or.inl rfl) (iff_of_false Bool.false_ne_true hnot) (fun _ _ _ _ h => by cases h)
  | fails before after =>
    subst after
    have hnot := hs.not_lock (by rw [before]; rfl)
    exact hs.update rfl (Or.inl rfl) (Or.inl rfl) (iff_of_false Bool.false_ne_true hnot) (fun _ _ _ _ h => by cases h)
  | locks before free after =>
    subst after
    exact hs.update rfl (Or.inr ⟨Or.inl free, Or.inr rfl⟩) (Or.inl rfl) (iff_of_true rfl rfl) (fun _ _ _ _ h => by cases h)
  | loads before read isHead after =>
    subst after
    have hlock := hheld (by rw [before]; rfl)
    refine hs.update rfl (Or.inl rfl) (Or.inl rfl) (iff_of_true rfl hlock) fun _ _ _ _ h => ?_
    cases h
    exact ⟨read, isHead⟩
  | givesUp before after =>
    subst after
    have hlock := hheld (by rw [before]; rfl)
    exact hs.update rfl (Or.inl rfl) (Or.inl rfl) (iff_of_true rfl hlock) (fun _ _ _ _ h => by cases h)
  | writes before after =>
    subst after
    have hlock := hheld (by rw [before]; rfl)
    exact hs.update rfl (Or.inl rfl) (Or.inr hlock) (iff_of_true rfl hlock) (fun _ _ _ _ h => by cases h)
  | failsToWrite before after =>
    subst after
    have hlock := hheld (by rw [before]; rfl)
    exact hs.update rfl (Or.inl rfl) (Or.inl rfl) (iff_of_true rfl hlock) (fun _ _ _ _ h => by cases h)
  | unlocks before after =>
    subst after
    have hlock := hheld (by rw [before]; rfl)
    exact hs.update rfl (Or.inr ⟨Or.inr hlock, Or.inl rfl⟩) (Or.inl rfl)
      (iff_of_false Bool.false_ne_true (by simp)) (fun _ _ _ _ h => by cases h)

/-! ### One step, and the runs -/

/-- What the holder of the lock has written. -/
theorem written_of_lock {pid : Pid} (h : s.lock = some pid) : s.written = (s.procs pid).wrote.toList := by
  rw [Appenders.written, h, Option.bind_some]

theorem written_of_free (h : s.lock = none) : s.written = [] := by
  rw [Appenders.written, h, Option.bind_none, Option.toList_none]

/-- The holder of the lock goes on. -/
theorem written_update {pid : Pid} {P : Appender} (t : Appenders) (hlock : t.lock = some pid)
    (hprocs : t.procs = Function.update s.procs pid P) : t.written = P.wrote.toList := by
  rw [written_of_lock hlock, hprocs, Function.update_self]

/-- The holder of the lock goes on and does not write. -/
theorem written_held {pid : Pid} {P : Appender} (hlock : s.lock = some pid) (hP : (s.procs pid).wrote = P.wrote) :
    (s.become pid P).written = s.written := by
  rw [written_of_lock hlock, hP]
  exact written_update (s.become pid P) hlock rfl

/-- Someone who does not hold the lock goes on. -/
theorem written_become {pid : Pid} {P : Appender} (h : s.lock ≠ some pid) : (s.become pid P).written = s.written := by
  rw [Appenders.written, Appenders.written]
  refine congrArg Option.toList (Option.bind_congr fun holder hholder => ?_)
  have hne : holder ≠ pid := fun heq => h (heq ▸ hholder)
  have hsame : (s.become pid P).procs holder = s.procs holder := Function.update_of_ne hne _ _
  rw [hsame]

/-- A step appends an entry to the log, or leaves the file: then what was written and what is acknowledged
are together what was written before. -/
theorem Moves.log (hs : Serial H auditPath key s) (h : Moves H auditPath key s t a) :
    (t.file = s.file ∧ (acknowledged s a).toList ++ t.written = s.written) ∨
      ∃ pid entry log, a = .write pid none ∧ (t.procs pid).wrote = some entry ∧ s.written = [] ∧ t.written = [entry] ∧
        readAuditLogRaw auditPath s.file = .ok log ∧ t.file = .entries (append H key log entry) := by
  have hheld {pid : Pid} (hpid : (s.procs pid).holdsLock = true) : s.lock = some pid := (hs.exclusive pid).mp hpid
  cases h with
  | calls before after =>
    subst after
    exact Or.inl ⟨rfl, written_become (hs.not_lock (by rw [before]; rfl))⟩
  | fails before after =>
    subst after
    exact Or.inl ⟨rfl, written_become (hs.not_lock (by rw [before]; rfl))⟩
  | @locks pid self entry before free after =>
    subst after
    have hwritten : Appenders.written { s.become pid (.locked self entry) with lock := some pid } = [] :=
      written_update (s := s) (P := .locked self entry) _ rfl rfl
    exact Or.inl ⟨rfl, hwritten.trans (written_of_free free).symm⟩
  | loads before read isHead after =>
    subst after
    have hlock := hheld (by rw [before]; rfl)
    exact Or.inl ⟨rfl, written_held hlock (by rw [before]; rfl)⟩
  | givesUp before after =>
    subst after
    have hlock := hheld (by rw [before]; rfl)
    exact Or.inl ⟨rfl, written_held hlock (by rw [before]; rfl)⟩
  | @writes pid self self' entry entries head before after =>
    subst after
    have hlock := hheld (by rw [before]; rfl)
    obtain ⟨hraw, hhead⟩ := hs.unchanged _ _ _ _ _ before
    have hwrote : (Function.update s.procs pid (.releasing self' entry (.ok ())) pid).wrote = some entry := by
      rw [Function.update_self]
      rfl
    refine Or.inr ⟨pid, entry, entries, rfl, hwrote, (written_of_lock hlock).trans (by rw [before]; rfl), ?_, hraw, ?_⟩
    · exact written_update (s := s) (P := .releasing self' entry (.ok ())) _ hlock rfl
    · rw [append, ← hhead]
  | failsToWrite before after =>
    subst after
    have hlock := hheld (by rw [before]; rfl)
    exact Or.inl ⟨rfl, written_held hlock (by rw [before]; rfl)⟩
  | unlocks before after =>
    subst after
    have hlock := hheld (by rw [before]; rfl)
    refine Or.inl ⟨rfl, ?_⟩
    rw [written_of_lock hlock, written_of_free rfl, List.append_nil]
    rfl

/-- **What the log holds**, after any steps of any appenders: what it held at first with the entries
of the calls that have returned without an error. -/
theorem appends_kept {log₀ : List BudgetAuditEntry} {s₀ : Appenders} {as : List AppendAction}
    (hfile : readAuditLogRaw auditPath s₀.file = .ok log₀) (hlog : ∃ r, verifyChain H log₀ key = .ok r)
    (hlock : s₀.lock = none) (hidle : ∀ pid, ∃ self, s₀.procs pid = .idle self)
    (hrun : run (appendStep H auditPath key) s₀ as = some s) : Kept H auditPath key log₀ s₀ as s := by
  have hserial : Serial H auditPath key s₀ := by
    constructor
    · intro pid
      obtain ⟨self, hself⟩ := hidle pid
      rw [hself, hlock]
      exact iff_of_false Bool.false_ne_true (by simp)
    · intro pid self entry entries head hpid
      obtain ⟨self', hself⟩ := hidle pid
      rw [hself] at hpid
      cases hpid
  have hchanges {s : Appenders} (hs : Serial H auditPath key s) : ∀ a t, appendStep H auditPath key s a = some t →
      t.file ≠ s.file → ∃ pid entry log, a = .write pid none ∧ (t.procs pid).wrote = some entry ∧
        readAuditLogRaw auditPath s.file = .ok log ∧ t.file = .entries (append H key log entry) := by
    intro a t hstep hne
    rcases (appendStep_moves hstep).log hs with ⟨hsame, -⟩ | ⟨pid, entry, log, ha, hwrote, -, -, hraw, hfile⟩
    · exact absurd hsame hne
    · exact ⟨pid, entry, log, ha, hwrote, hraw, hfile⟩
  suffices h : Kept H auditPath key log₀ s₀ as s ∧ Serial H auditPath key s from h.1
  refine run_induction (I := fun as s => Kept H auditPath key log₀ s₀ as s ∧ Serial H auditPath key s)
    ⟨⟨?_, ?_, hchanges hserial⟩, hserial⟩ (fun as t a u hrun ⟨hkept, ht⟩ hstep => ?_) hrun
  · rw [written_of_free hlock]
    exact hfile
  · rw [written_of_free hlock]
    exact hlog
  · have hmoves := appendStep_moves hstep
    have hu := ht.moves hmoves
    have houtputs : outputs (appendStep H auditPath key) acknowledged s₀ (as ++ [a]) =
        outputs (appendStep H auditPath key) acknowledged s₀ as ++ (acknowledged t a).toList :=
      outputs_concat hrun hstep
    suffices h : ∃ log, outputs (appendStep H auditPath key) acknowledged s₀ (as ++ [a]) ++ u.written = log ∧
        readAuditLogRaw auditPath u.file = .ok (log.foldl (append H key) log₀) ∧
        ∃ r, verifyChain H (log.foldl (append H key) log₀) key = .ok r by
      obtain ⟨log, rfl, hraw, hintact⟩ := h
      exact ⟨⟨hraw, hintact, hchanges hu⟩, hu⟩
    rcases hmoves.log ht with ⟨hfile, hwritten⟩ | ⟨pid, entry, log, rfl, -, hwritten, hwritten', hraw, hfile⟩
    · refine ⟨_, by rw [houtputs, List.append_assoc, hwritten], ?_, hkept.intact⟩
      rw [hfile]
      exact hkept.log
    · -- the log that the call has read is still the one in the file
      have hlog : log = (outputs (appendStep H auditPath key) acknowledged s₀ as).foldl (append H key) log₀ := by
        have hsame := hkept.log
        rw [hwritten, List.append_nil, hraw] at hsame
        exact Except.ok.inj hsame
      obtain ⟨r, hr⟩ := hkept.intact
      rw [hwritten, List.append_nil, ← hlog] at hr
      have hnone : (acknowledged t (.write pid none)).toList = [] := rfl
      refine ⟨outputs (appendStep H auditPath key) acknowledged s₀ as ++ [entry], ?_, ?_, ?_⟩
      · rw [houtputs, hwritten', hnone, List.append_nil]
      · rw [List.foldl_append, ← hlog, hfile]
        rfl
      · rw [List.foldl_append, ← hlog]
        exact verifyChain_append hr entry

end Moves

/-! ### One appender, and two -/

/-- With nobody else about, the steps of a call are `appendWithKey`. -/
theorem run_call {s : Appenders} {pid : Pid} {self self' : AuditChainState} {entry : BudgetAuditEntry} {file' : LogFile}
    (hlock : s.lock = none) (hidle : s.procs pid = .idle self)
    (happend : self.appendWithKey H auditPath entry key s.file = (.ok (), self', file')) :
    run (appendStep H auditPath key) s [.call pid entry, .lock pid, .load pid none, .write pid none, .unlock pid] =
      some ⟨file', none, Function.update s.procs pid (.idle self')⟩ := by
  unfold AuditChainState.appendWithKey at happend
  rcases hread : readVerified H auditPath s.file key with e | ⟨log, head⟩ <;> simp only [hread] at happend
  · cases happend
  obtain ⟨-, rfl, rfl⟩ := happend
  simp [run, appendStep, Appenders.become, hidle, hlock, hread]

/-- Digests of one letter. -/
def letterHashes : Hashes where
  toVec e := [(e.next.maxTotalTokens.getD 0).toUInt8]
  sha256 raw := String.ofList (raw.map fun b => Char.ofNat (97 + b.toNat % 26))
  hmacSha256 key raw := String.ofList ((key ++ raw).map fun b => Char.ofNat (97 + b.toNat % 26))

/-- No log yet, and nobody appending. -/
def noLog : Appenders := ⟨.missing, none, fun _ => .idle ⟨none, 0⟩⟩

/-- Two calls at once: the second to come has the lock first. -/
def twoCalls : List AppendAction :=
  [.call 0 (sampleEntry 100 200), .call 1 (sampleEntry 200 300), .lock 1, .load 1 none, .write 1 none, .unlock 1,
    .lock 0, .load 0 none, .write 0 none, .unlock 0]

/-- Both entries are there, in the order of the returns. -/
theorem appends_kept_two : ∃ s, run (appendStep letterHashes "budget-audit.json" (some [1])) noLog twoCalls = some s ∧
    outputs (appendStep letterHashes "budget-audit.json" (some [1])) acknowledged noLog twoCalls =
      [sampleEntry 200 300, sampleEntry 100 200] ∧
    Kept letterHashes "budget-audit.json" (some [1]) [] noLog twoCalls s := by
  refine ⟨_, rfl, rfl, ?_⟩
  exact appends_kept rfl ⟨_, rfl⟩ rfl (fun _ => ⟨_, rfl⟩) rfl

end Nerve.Audit
