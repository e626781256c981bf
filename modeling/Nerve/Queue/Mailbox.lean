import Nerve.Library.TransitionSystem
import Nerve.Queue.OnDisk

/-!
# The mailbox

Mayors and patrols leave each other messages, one JSON file for each in the recipient's directory. A
message is put there by a rename, which replaces what stands under its name, and its name is its id;
the notices of `recover_orphans` have the id of the task. A drain lists the directory, and then
reads and removes one file after the other. No lock is taken, so the steps of any number of calls
interleave (`mailStep`). There are five things a step can do (`mail_effect`), and three of them
concern the messages: one is put in place, one is read, one is removed.
-/

namespace Nerve.Queue

open TransitionSystem

/-! ### Messages -/

inductive MailKind where
  | note
  | progress
  | reclaimed
  deriving DecidableEq, Repr

structure MailMessage where
  id : String
  from_ : String
  to_ : String
  kind : MailKind
  body : String
  createdAt : Option Nat
  deriving DecidableEq, Repr

/-- The notice of a task taken from a patrol, at the given time. -/
def reclaimedNotice (patrolId taskId : String) (now : Nat) : MailMessage where
  id := taskId
  from_ := "mayor"
  to_ := patrolId
  kind := .reclaimed
  body := s!"task `{taskId}` reclaimed from `{patrolId}` (stale heartbeat)"
  createdAt := some now

/-- The checks of `send_mail`. -/
def checkMail (m : MailMessage) : Except MayorError Unit :=
  match validateFileComponent "mail recipient" m.to_ with
  | .error e => .error e
  | .ok () =>
    match validateFileComponent "mail sender" m.from_ with
    | .error e => .error e
    | .ok () => validateFileComponent "mail id" m.id

/-- The name of the file of a message. -/
def mailFile (id : String) : String := id ++ ".json"

/-! ### What is shared -/

/-- A file of the inbox. A message has the number of the send that has put it there, which is on no disk. -/
inductive MailFile where
  | message (m : MailMessage) (number : Nat)
  | malformed
  deriving DecidableEq, Repr

/-- The inbox of a recipient. On no disk are the messages whose send has succeeded, in order, and
what each drain has read so far, which is what it returns. -/
structure Mailbox where
  exists_ : Bool
  inbox : AList fun _ : String => MailFile
  sent : List MailMessage
  drains : Nat
  read : Nat → List (MailMessage × Nat)

/-- `sorted_json_filenames` of the inbox. -/
def Mailbox.scan (b : Mailbox) : List String :=
  (b.inbox.keys.filter fun name => (jsonStem name).isSome).insertionSort (· ≤ ·)

/-- The file of the message is put in place. -/
def Mailbox.deliver (b : Mailbox) (m : MailMessage) : Mailbox :=
  { b with
    inbox := b.inbox.insert (mailFile m.id) (.message m b.sent.length)
    sent := b.sent ++ [m] }

/-- A drain has read a message. -/
def Mailbox.take (b : Mailbox) (call : Nat) (m : MailMessage) (number : Nat) : Mailbox :=
  { b with read := Function.update b.read call (b.read call ++ [(m, number)]) }

/-- A file is removed. -/
def Mailbox.remove (b : Mailbox) (name : String) : Mailbox := { b with inbox := b.inbox.erase name }

/-! ### Processes -/

/-- What a call returns; a drain, with its number. -/
inductive MailReturned where
  | sent
  | recovered
  | drained (call : Nat) (messages : List MailMessage)
  deriving DecidableEq, Repr

inductive SendPhase where
  | makeDir
  | write
  deriving DecidableEq, Repr

/-- `drain_mail`, with the names of the listing still to be read. -/
inductive DrainPhase where
  | look
  | scan
  | read (names : List String)
  | remove (name : String) (later : List String)
  deriving DecidableEq, Repr

/-- What a process is doing. -/
inductive MailProc where
  | idle (last : Option (Except MayorError MailReturned))
  /-- `send_mail`, by itself or for `recover_orphans` with the notices it has still to send. -/
  | send (m : MailMessage) (phase : SendPhase) (later : Option (List MailMessage))
  /-- `drain_mail`, with the number of the call. -/
  | drain (call : Nat) (phase : DrainPhase)
  deriving DecidableEq, Repr

def MailProc.returned (r : Except MayorError MailReturned) : MailProc := .idle (some r)

/-- Whether a filesystem operation succeeds is not up to the program. -/
inductive MailChoice where
  | proceed
  | fail (message : String)
  deriving DecidableEq, Repr

/-- `recover_orphans`, at its next notice; one that is refused is passed over. -/
def nextNotice : List MailMessage → MailProc
  | [] => .returned (.ok .recovered)
  | m :: later =>
    match checkMail m with
    | .error _ => nextNotice later
    | .ok () => .send m .makeDir (some later)

/-- What comes after a send. -/
def afterSend (r : Except MayorError Unit) : Option (List MailMessage) → MailProc
  | none => .returned (r.map fun () => .sent)
  | some later => nextNotice later

def advanceSend (m : MailMessage) (later : Option (List MailMessage)) (b : Mailbox) :
    SendPhase → MailChoice → MailProc × Mailbox
  | .makeDir, .proceed => (.send m .write later, { b with exists_ := true })
  | .write, .proceed => (afterSend (.ok ()) later, b.deliver m)
  | _, .fail message => (afterSend (.error (.io message)) later, b)

def advanceDrain (call : Nat) (b : Mailbox) : DrainPhase → MailChoice → MailProc × Mailbox
  | .look, .proceed => if b.exists_ then (.drain call .scan, b) else (.returned (.ok (.drained call [])), b)
  | .look, .fail _ => (.returned (.ok (.drained call [])), b)
  | .scan, .proceed => (.drain call (.read b.scan), b)
  | .scan, .fail message => (.returned (.error (.io message)), b)
  | .read [], _ => (.returned (.ok (.drained call ((b.read call).map Prod.fst))), b)
  | .read (name :: names), .proceed =>
    match b.inbox.lookup name with
    | some (.message m number) => (.drain call (.remove name names), b.take call m number)
    | some .malformed | none => (.drain call (.read names), b)
  | .read (_ :: names), .fail _ => (.drain call (.read names), b)
  | .remove name later, .proceed => (.drain call (.read later), b.remove name)
  -- that the file is still there is no error
  | .remove _ later, .fail _ => (.drain call (.read later), b)

def advanceMail (b : Mailbox) : MailProc → MailChoice → Option (MailProc × Mailbox)
  | .idle _, _ => none
  | .send m phase later, choice => some (advanceSend m later b phase choice)
  | .drain call phase, choice => some (advanceDrain call b phase choice)

/-! ### The system -/

/-- A call, as far as it concerns one recipient: a send to it, a sweep that takes these tasks from
it, with the time of each notice, or a drain. -/
inductive MailOperation where
  | send (m : MailMessage)
  | recoverOrphans (tasks : List (String × Nat))
  | drain
  deriving DecidableEq, Repr

/-- The beginning of a call, up to its first filesystem operation. -/
def MailOperation.begin (enabled : Bool) (recipient : String) (b : Mailbox) : MailOperation → MailProc × Mailbox
  | send m =>
    if !enabled then (.returned (.ok .sent), b)
    else
      match checkMail m with
      | .error e => (.returned (.error e), b)
      | .ok () => (.send m .makeDir none, b)
  | recoverOrphans tasks =>
    if !enabled then (.returned (.ok .recovered), b)
    else (nextNotice (tasks.map fun task => reclaimedNotice recipient task.1 task.2), b)
  | drain =>
    -- a call that ends here has a number too
    let b' := { b with drains := b.drains + 1 }
    if !enabled then (.returned (.ok (.drained b.drains [])), b')
    else
      match validateFileComponent "mail recipient" recipient with
      | .error e => (.returned (.error e), b')
      | .ok () => (.drain b.drains .look, b')

inductive MailAction where
  | start (pid : Pid) (operation : MailOperation)
  | go (pid : Pid) (choice : MailChoice)
  deriving DecidableEq, Repr

structure MailState where
  procs : Pid → MailProc
  box : Mailbox

def MailState.set (s : MailState) (pid : Pid) (next : MailProc × Mailbox) : MailState where
  procs := Function.update s.procs pid next.1
  box := next.2

/-- Whether the operation is on this recipient. -/
def MailOperation.isFor (recipient : String) : MailOperation → Bool
  | send m => m.to_ = recipient
  | recoverOrphans _ | drain => true

def mailStep (enabled : Bool) (recipient : String) (s : MailState) : MailAction → Option MailState
  | .start pid operation =>
    match s.procs pid with
    | .idle _ =>
      if operation.isFor recipient then some (s.set pid (operation.begin enabled recipient s.box)) else none
    | _ => none
  | .go pid choice => (advanceMail s.box (s.procs pid) choice).map (s.set pid)

/-- Files that are no messages. -/
def strayFiles (stray : List String) : AList fun _ : String => MailFile :=
  stray.foldr (fun name inbox => inbox.insert name .malformed) ∅

/-- No message has been sent; there may be files that are none. -/
def MailState.initial (stray : List String) : MailState where
  procs _ := .idle none
  box := {
    exists_ := !stray.isEmpty
    inbox := strayFiles stray
    sent := []
    drains := 0
    read := fun _ => [] }

/-! ### What a step does -/

/-- A drain has read this message. -/
def Mailbox.Taken (b : Mailbox) (number : Nat) : Prop := ∃ call m, (m, number) ∈ b.read call

/-- The message under the name, if any, is one that a drain has read, or one that none has. -/
def Mailbox.AllTaken (b : Mailbox) (name : String) : Prop :=
  ∀ m number, b.inbox.lookup name = some (.message m number) → b.Taken number

def Mailbox.NoneTaken (b : Mailbox) (name : String) : Prop :=
  ∀ m number, b.inbox.lookup name = some (.message m number) → ¬ b.Taken number

/-- What the action must find: a message that is replaced or removed has been read, and one that is
read has not. -/
def Clean (s : MailState) : MailAction → Prop
  | .start _ _ => True
  | .go pid choice =>
    match s.procs pid, choice with
    | .send m .write _, .proceed => s.box.AllTaken (mailFile m.id)
    | .drain _ (.read (name :: _)), .proceed => s.box.NoneTaken name
    | .drain _ (.remove name _), .proceed => s.box.AllTaken name
    | _, _ => True

namespace MailProc

/-- The drain that is running, or has returned. -/
def call : MailProc → Option Nat
  | drain call _ => some call
  | idle (some (.ok (.drained call _))) => some call
  | _ => none

/-- The drain that is running. -/
def running : MailProc → Option Nat
  | drain call _ => some call
  | _ => none

/-- A drain that has not yet come to its files. -/
def atStart : MailProc → Bool
  | drain _ .look | drain _ .scan => true
  | _ => false

/-- What the process has of its drain is what the drain has read. -/
def Agrees (b : Mailbox) : MailProc → Prop
  | drain call phase => call < b.drains ∧ ((drain call phase).atStart = true → b.read call = [])
  | idle (some (.ok (.drained call messages))) => call < b.drains ∧ messages = (b.read call).map Prod.fst
  | _ => True

theorem call_of_running {P : MailProc} {c : Nat} (h : P.running = some c) : P.call = some c := by
  cases P with
  | drain c' phase => exact h
  | idle last => cases h
  | send m phase later => cases h

theorem agrees_of_call_eq_none {P : MailProc} {b : Mailbox} (h : P.call = none) : P.Agrees b := by
  unfold call at h
  split at h
  · cases h
  · cases h
  · rename_i hdrain hidle
    unfold Agrees
    split
    · exact absurd rfl (hdrain _ _)
    · exact absurd rfl (hidle _ _)
    · trivial

/-- Only what this drain has read matters. -/
theorem Agrees.mono {P : MailProc} {b b' : Mailbox} (h : P.Agrees b) (hdrains : b.drains ≤ b'.drains)
    (hread : ∀ c, P.call = some c → b'.read c = b.read c) : P.Agrees b' := by
  unfold Agrees at h ⊢
  split at h
  · exact ⟨Nat.lt_of_lt_of_le h.1 hdrains, fun hstart => (hread _ rfl).trans (h.2 hstart)⟩
  · exact ⟨Nat.lt_of_lt_of_le h.1 hdrains, h.2.trans (congrArg _ (hread _ rfl).symm)⟩
  · trivial

theorem Agrees.lt {P : MailProc} {b : Mailbox} (h : P.Agrees b) {c : Nat} (hcall : P.call = some c) : c < b.drains := by
  unfold Agrees at h
  split at h
  · cases hcall
    exact h.1
  · cases hcall
    exact h.1
  · rename_i hdrain hidle
    unfold call at hcall
    split at hcall
    · exact absurd rfl (hdrain _ _)
    · exact absurd rfl (hidle _ _)
    · cases hcall

end MailProc

/-- The process is about to remove this file. -/
def MailProc.Removes (P : MailProc) (name : String) : Prop := ∃ call later, P = .drain call (.remove name later)

/-- The five things a step can do. -/
inductive MailEffect (s : MailState) (action : MailAction) : MailState → Prop where
  /-- The inbox and what has been read of it stay. A drain that was to remove a file has failed to. -/
  | quiet {pid : Pid} {next : MailProc} (exists_ : Bool) (hclean : Clean s action)
      (hrunning : next.running = none ∨ next.running = (s.procs pid).running)
      (hcall : next.call = none ∨ next.call = (s.procs pid).running)
      (hagrees : (s.procs pid).Agrees s.box → next.Agrees s.box) (hnext : ∀ name, ¬ next.Removes name)
      (hremoves : ∀ name, (s.procs pid).Removes name → ∃ message, action = .go pid (.fail message)) :
      MailEffect s action (s.set pid (next, { s.box with exists_ := exists_ }))
  /-- A drain is called. -/
  | begin {pid : Pid} {next : MailProc} (haction : action = .start pid .drain) (hclean : Clean s action)
      (hidle : ∃ last, s.procs pid = .idle last) (hcall : next.call = none ∨ next = .drain s.box.drains .look) :
      MailEffect s action (s.set pid (next, { s.box with drains := s.box.drains + 1 }))
  | deliver {pid : Pid} {next : MailProc} (m : MailMessage) (later : Option (List MailMessage))
      (haction : action = .go pid .proceed) (hproc : s.procs pid = .send m .write later)
      (hclean : Clean s action ↔ s.box.AllTaken (mailFile m.id)) (hcall : next.call = none) :
      MailEffect s action (s.set pid (next, s.box.deliver m))
  | take {pid : Pid} (call : Nat) (name : String) (names : List String) (m : MailMessage) (number : Nat)
      (hclean : Clean s action ↔ s.box.NoneTaken name) (hproc : s.procs pid = .drain call (.read (name :: names)))
      (hfile : s.box.inbox.lookup name = some (.message m number)) :
      MailEffect s action (s.set pid (.drain call (.remove name names), s.box.take call m number))
  | remove {pid : Pid} (call : Nat) (name : String) (later : List String)
      (hclean : Clean s action ↔ s.box.AllTaken name) (hproc : s.procs pid = .drain call (.remove name later)) :
      MailEffect s action (s.set pid (.drain call (.read later), s.box.remove name))

theorem call_nextNotice (notices : List MailMessage) : (nextNotice notices).call = none := by
  induction notices with
  | nil => rfl
  | cons m later ih =>
    unfold nextNotice
    split
    · exact ih
    · rfl

theorem call_afterSend (r : Except MayorError Unit) (later : Option (List MailMessage)) :
    (afterSend r later).call = none := by
  cases later with
  | none => cases r <;> rfl
  | some later => exact call_nextNotice later

theorem running_eq_none_of_call {P : MailProc} (h : P.call = none) : P.running = none := by
  cases P with
  | drain call phase => cases h
  | idle last => rfl
  | send m phase later => rfl

theorem not_removes_of_call {P : MailProc} (h : P.call = none) (name : String) : ¬ P.Removes name := by
  rintro ⟨call, later, rfl⟩
  cases h

section Effect

variable {recipient : String} {s s' : MailState} {pid : Pid} {action : MailAction}

/-- A step after which the process has no drain. -/
theorem MailEffect.of_call_eq_none {next : MailProc} (exists_ : Bool) (hclean : Clean s action) (h : next.call = none)
    (hremoves : ∀ name, ¬ (s.procs pid).Removes name) :
    MailEffect s action (s.set pid (next, { s.box with exists_ := exists_ })) :=
  .quiet exists_ hclean (Or.inl (running_eq_none_of_call h)) (Or.inl h) (fun _ => MailProc.agrees_of_call_eq_none h)
    (not_removes_of_call h) fun name h => absurd h (hremoves name)

theorem send_effect {m : MailMessage} {phase : SendPhase} {later : Option (List MailMessage)} {choice : MailChoice}
    (hproc : s.procs pid = .send m phase later) :
    MailEffect s (.go pid choice) (s.set pid (advanceSend m later s.box phase choice)) := by
  have hremoves (name : String) : ¬ (s.procs pid).Removes name := by
    rintro ⟨call, names, h⟩
    rw [hproc] at h
    cases h
  cases choice with
  | fail message =>
    have hclean : Clean s (.go pid (.fail message)) := by simp [Clean, hproc]
    cases phase <;> exact .of_call_eq_none s.box.exists_ hclean (call_afterSend _ later) hremoves
  | proceed =>
    cases phase with
    | makeDir => exact .of_call_eq_none true (by simp [Clean, hproc]) rfl hremoves
    | write => exact .deliver m later rfl hproc (by simp [Clean, hproc]) (call_afterSend _ later)

theorem drain_effect {call : Nat} {phase : DrainPhase} {choice : MailChoice} (hproc : s.procs pid = .drain call phase) :
    MailEffect s (.go pid choice) (s.set pid (advanceDrain call s.box phase choice)) := by
  have hrunning : (s.procs pid).running = some call := by rw [hproc]; rfl
  -- the drain goes on, to no removal
  have hon {phase' : DrainPhase} (hclean : Clean s (.go pid choice))
      (hstart : (MailProc.drain call phase').atStart = true → (MailProc.drain call phase).atStart = true)
      (hnext : ∀ name, ¬ (MailProc.drain call phase').Removes name)
      (hremoves : ∀ name, (MailProc.drain call phase).Removes name → ∃ message, choice = .fail message) :
      MailEffect s (.go pid choice) (s.set pid (.drain call phase', s.box)) := by
    refine .quiet s.box.exists_ hclean (Or.inr hrunning.symm) (Or.inr hrunning.symm) (fun hagrees => ?_) hnext
      fun name h => ?_
    · rw [hproc] at hagrees
      exact ⟨hagrees.1, fun h => hagrees.2 (hstart h)⟩
    · obtain ⟨message, rfl⟩ := hremoves name (hproc ▸ h)
      exact ⟨message, rfl⟩
  -- the drain returns, with what it has read
  have hend {messages : List MailMessage} (hclean : Clean s (.go pid choice))
      (hmessages : (MailProc.drain call phase).Agrees s.box → messages = (s.box.read call).map Prod.fst)
      (hremoves : ∀ name, ¬ (MailProc.drain call phase).Removes name) :
      MailEffect s (.go pid choice) (s.set pid (.returned (.ok (.drained call messages)), s.box)) := by
    refine .quiet s.box.exists_ hclean (Or.inl rfl) (Or.inr hrunning.symm) (fun hagrees => ?_) (fun name => ?_)
      fun name h => ?_
    · rw [hproc] at hagrees
      exact ⟨hagrees.1, hmessages hagrees⟩
    · rintro ⟨call, later, h⟩
      cases h
    · exact absurd (hproc ▸ h) (hremoves name)
  cases phase with
  | look =>
    have hclean : Clean s (.go pid choice) := by simp [Clean, hproc]
    have hnone (name : String) : ¬ (MailProc.drain call .look).Removes name := by simp [MailProc.Removes]
    have hnothing : (MailProc.drain call .look).Agrees s.box → [] = (s.box.read call).map Prod.fst := by
      intro hagrees
      rw [hagrees.2 rfl]
      rfl
    cases choice with
    | fail message => exact hend hclean hnothing hnone
    | proceed =>
      unfold advanceDrain
      split_ifs
      · exact hon hclean (fun _ => rfl) (by simp [MailProc.Removes]) fun name h => absurd h (hnone name)
      · exact hend hclean hnothing hnone
  | scan =>
    have hclean : Clean s (.go pid choice) := by simp [Clean, hproc]
    have hnone (name : String) : ¬ (MailProc.drain call .scan).Removes name := by simp [MailProc.Removes]
    cases choice with
    | fail message => exact .of_call_eq_none s.box.exists_ hclean rfl (hproc ▸ hnone)
    | proceed => exact hon hclean (fun h => by cases h) (by simp [MailProc.Removes]) fun name h => absurd h (hnone name)
  | read names =>
    have hnone (name : String) : ¬ (MailProc.drain call (.read names)).Removes name := by simp [MailProc.Removes]
    cases names with
    | nil => exact hend (by simp [Clean, hproc]) (fun _ => rfl) hnone
    | cons name names =>
      -- there is no message under the name, or it could not be read
      have hskip (hclean : Clean s (.go pid choice)) :
          MailEffect s (.go pid choice) (s.set pid (.drain call (.read names), s.box)) :=
        hon hclean (fun h => by cases h) (by simp [MailProc.Removes]) fun name h => absurd h (hnone name)
      cases choice with
      | fail message => exact hskip (by simp [Clean, hproc])
      | proceed =>
        have hiff : Clean s (.go pid .proceed) ↔ s.box.NoneTaken name := by simp [Clean, hproc]
        rcases hfile : s.box.inbox.lookup name with _ | ⟨m, number⟩ | _ <;> simp only [advanceDrain, hfile]
        · exact hskip (hiff.mpr (by simp [Mailbox.NoneTaken, hfile]))
        · exact .take call name names m number hiff hproc hfile
        · exact hskip (hiff.mpr (by simp [Mailbox.NoneTaken, hfile]))
  | remove name later =>
    cases choice with
    | fail message =>
      exact hon (by simp [Clean, hproc]) (fun h => by cases h) (by simp [MailProc.Removes]) fun _ _ => ⟨message, rfl⟩
    | proceed => exact .remove call name later (by simp [Clean, hproc]) hproc

/-- **What a step does.** -/
theorem mail_effect (h : mailStep true recipient s action = some s') : MailEffect s action s' := by
  cases action with
  | start pid operation =>
    have hclean : Clean s (.start pid operation) := trivial
    simp only [mailStep] at h
    split at h
    · rename_i last hidle
      have hremoves (name : String) : ¬ (s.procs pid).Removes name := by
        rintro ⟨call, later, hproc⟩
        rw [hidle] at hproc
        cases hproc
      split_ifs at h
      cases h
      cases operation with
      | send m =>
        simp only [MailOperation.begin, Bool.not_true, Bool.false_eq_true, if_false]
        split
        · exact .of_call_eq_none s.box.exists_ hclean rfl hremoves
        · exact .of_call_eq_none s.box.exists_ hclean rfl hremoves
      | recoverOrphans tasks =>
        simp only [MailOperation.begin, Bool.not_true, Bool.false_eq_true, if_false]
        exact .of_call_eq_none s.box.exists_ hclean (call_nextNotice _) hremoves
      | drain =>
        simp only [MailOperation.begin, Bool.not_true, Bool.false_eq_true, if_false]
        split
        · exact .begin rfl hclean ⟨last, hidle⟩ (Or.inl rfl)
        · exact .begin rfl hclean ⟨last, hidle⟩ (Or.inr rfl)
    · cases h
  | go pid choice =>
    simp only [mailStep] at h
    obtain ⟨next, hnext, rfl⟩ := Option.map_eq_some_iff.mp h
    cases hproc : s.procs pid with
    | idle last =>
      rw [hproc] at hnext
      cases hnext
    | send m phase later =>
      rw [hproc] at hnext
      cases hnext
      exact send_effect hproc
    | drain call phase =>
      rw [hproc] at hnext
      cases hnext
      exact drain_effect hproc

end Effect

end Nerve.Queue
