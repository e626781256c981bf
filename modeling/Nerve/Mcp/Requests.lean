import Nerve.Library.TransitionSystem
import Nerve.Mcp.Model
import Mathlib.Data.List.Nodup
import Mathlib.Data.List.Basic
import Mathlib.Tactic.Common

/-!
# Requests and replies

Any number of requests share the connection to one server. Each takes an id, enters the sending end of a channel
under the id, writes its line, and waits at the receiving end; the reader takes the entry out that a message
names and sends the reply to it. Between any two of these steps others can come: messages of any ids, the end of
the server's output, a shutdown, and the timeout, which drops a request wherever it is.

Dropped, a request does nothing more; and nobody takes its entry out. `matched_iff` says of every run
that the entries are those of the requests that wait exactly as long as no request is dropped while its
entry is there. That a reply comes to no request but the one whose id it carries, and to one at most, holds of every
run.
-/

namespace Nerve.Mcp

open TransitionSystem

inductive RpcReply where
  | ok (value : Json)
  | err (code : Int) (message : String)

namespace RpcReply

/-- What a request makes of it. -/
def result : RpcReply → Except McpError Json
  | ok value => .ok value
  | err code message => .error (.rpc code message)

/-- The reply that a message is; a code is cut to 32 bits. -/
def of (value : Json) : RpcReply :=
  match value.get? "error" with
  | some error =>
    .err (Int.bmod (((error.get? "code").bind Json.asI64).getD (-32000)) (2 ^ 32))
      (((error.get? "message").bind Json.asString).getD "rpc error")
  | none => .ok ((value.get? "result").getD .null)

def closedStdout : RpcReply := .err (-32000) "server closed stdout"

def shuttingDown : RpcReply := .err (-32000) "server shutting down"

theorem result_injective {reply reply' : RpcReply} (h : reply.result = reply'.result) : reply = reply' := by
  cases reply <;> cases reply' <;> simp_all [result]

end RpcReply

/-- The id that a message carries. -/
def messageId (value : Json) : Option Nat := (value.get? "id").bind Json.asU64

/-- The channel of a request, seen from where it is received. -/
inductive Slot where
  | waits
  | holds (reply : RpcReply)
  /-- The sending end is gone. -/
  | closed

inductive RequestPhase where
  /-- It has its id, and is to be entered. -/
  | numbered
  /-- It is entered, and its line is to be written. -/
  | writes
  /-- The line could not be written: the entry is to be taken out. -/
  | failed (e : McpError)
  | awaits
  | returned (result : Except McpError Json)
  /-- The timeout has dropped it. -/
  | dropped

/-- A call of `send_request`. -/
structure Request where
  id : Nat
  phase : RequestPhase
  slot : Slot

namespace Request

/-- The request is neither over nor dropped: its receiving end is there. -/
def alive (r : Request) : Bool :=
  match r.phase with
  | .returned _ | .dropped => false
  | _ => true

/-- The request is entered, and nothing has come yet, and it is neither over nor dropped. -/
def waits (r : Request) : Bool :=
  match r.phase, r.slot with
  | .writes, .waits | .failed _, .waits | .awaits, .waits => true
  | _, _ => false

/-- The sending end is used. -/
def send (reply : RpcReply) (r : Request) : Request := if r.alive then { r with slot := .holds reply } else r

/-- The sending end is dropped. -/
def close (r : Request) : Request :=
  match r.slot with
  | .waits => { r with slot := .closed }
  | _ => r

end Request

/-- A reply that came to a request: which of the server's messages, and whose. -/
structure Delivery where
  message : Nat
  value : Json
  request : Nat

/-- The state the requests share, the requests, by number, and what has been delivered. -/
structure Connection where
  server : String
  nextRequestId : Nat
  /-- Under an id the request whose sending end is there. -/
  pending : Nat → Option Nat
  /-- `write_tx` is there. -/
  writeTx : Bool
  process : Bool
  /-- The reader is at work. -/
  reader : Bool
  /-- A shutdown has taken the process, and has the entries still to drain. -/
  draining : Bool
  requests : List Request
  /-- How many messages have come. -/
  messages : Nat
  delivered : List Delivery

/-- What can happen next. -/
inductive ConnectionAction where
  | request
  | enter (k : Nat)
  /-- The line is written, or the writer is gone. -/
  | write (k : Nat) (writerGone : Bool)
  | rollBack (k : Nat)
  | receive (k : Nat)
  | timeout (k : Nat)
  | incoming (value : Json)
  | endOfOutput
  | closeWriter
  | takeProcess
  | drain

namespace Connection

/-- Right after the child has been spawned. -/
def started (server : String) (nextRequestId : Nat) : Connection where
  server := server
  nextRequestId := nextRequestId
  pending := fun _ => none
  writeTx := true
  process := true
  reader := true
  draining := false
  requests := []
  messages := 0
  delivered := []

variable (c : Connection)

def modify (k : Nat) (f : Request → Request) : Connection := { c with requests := c.requests.modify k f }

/-- The entry is taken out of the map, and its sending end dropped. -/
def remove (id : Nat) : Connection :=
  { c with
    pending := Function.update c.pending id none
    requests := match c.pending id with
      | some k => c.requests.modify k Request.close
      | none => c.requests }

/-- All entries are taken out, and the reply sent to each. -/
def drainWith (reply : RpcReply) : Connection :=
  { c with
    pending := fun _ => none
    requests := c.requests.mapIdx fun k r => if c.pending r.id = some k then r.send reply else r }

/-- `dispatch_incoming`. -/
def dispatchIncoming (value : Json) : Connection :=
  let c' := { c with messages := c.messages + 1 }
  match messageId value with
  | none => c'
  | some id =>
    match c.pending id with
    | none => c'
    | some k =>
      { c' with
        pending := Function.update c.pending id none
        requests := c.requests.modify k (Request.send (RpcReply.of value))
        delivered := if (c.requests[k]?.map Request.alive).getD false then c.delivered ++ [⟨c.messages, value, k⟩]
          else c.delivered }

def step : Connection → ConnectionAction → Option Connection
  | c, .request => some
      { c with
        nextRequestId := (c.nextRequestId + 1) % 2 ^ 64
        requests := c.requests ++ [⟨c.nextRequestId, .numbered, .waits⟩] }
  | c, .enter k =>
    match c.requests[k]? with
    | some ⟨id, .numbered, _⟩ =>
      let c := c.remove id
      some { c.modify k (fun r => { r with phase := .writes }) with pending := Function.update c.pending id (some k) }
    | _ => none
  | c, .write k writerGone =>
    match c.requests[k]? with
    | some ⟨_, .writes, _⟩ =>
      if !c.writeTx then some (c.modify k fun r => { r with phase := .failed (.notStarted c.server) })
      else if writerGone then
        some (c.modify k fun r => { r with phase := .failed (.handshake s!"`{c.server}`: writer task gone") })
      else some (c.modify k fun r => { r with phase := .awaits })
    | _ => none
  | c, .rollBack k =>
    match c.requests[k]? with
    | some ⟨id, .failed e, _⟩ => some ((c.remove id).modify k fun r => { r with phase := .returned (.error e) })
    | _ => none
  | c, .receive k =>
    match c.requests[k]? with
    | some ⟨_, .awaits, .holds reply⟩ => some (c.modify k fun r => { r with phase := .returned reply.result })
    | some ⟨_, .awaits, .closed⟩ =>
      some (c.modify k fun r =>
        { r with phase := .returned (.error (.handshake s!"`{c.server}`: response channel closed")) })
    | _ => none
  | c, .timeout k =>
    match c.requests[k]? with
    | some r => if r.alive then some (c.modify k fun r => { r with phase := .dropped }) else none
    | none => none
  | c, .incoming value => if c.reader then some (c.dispatchIncoming value) else none
  | c, .endOfOutput => if c.reader then some { c.drainWith .closedStdout with reader := false } else none
  | c, .closeWriter => some { c with writeTx := false }
  | c, .takeProcess => if c.process && !c.writeTx then some { c with process := false, draining := true } else none
  | c, .drain => if c.draining then some { c.drainWith .shuttingDown with draining := false } else none

/-- All that a step can do. -/
inductive Steps (c : Connection) : ConnectionAction → Connection → Prop
  | request : Steps c .request
      { c with
        nextRequestId := (c.nextRequestId + 1) % 2 ^ 64
        requests := c.requests ++ [⟨c.nextRequestId, .numbered, .waits⟩] }
  | enter {k id : Nat} {slot : Slot} (hr : c.requests[k]? = some ⟨id, .numbered, slot⟩) : Steps c (.enter k)
      { (c.remove id).modify k (fun r => { r with phase := .writes }) with
        pending := Function.update (c.remove id).pending id (some k) }
  | fail {k id : Nat} {slot : Slot} (hr : c.requests[k]? = some ⟨id, .writes, slot⟩) (writerGone : Bool) {e : McpError}
    (he : ∀ reply : RpcReply, reply.result ≠ .error e) :
    Steps c (.write k writerGone) (c.modify k fun r => { r with phase := .failed e })
  | write {k id : Nat} {slot : Slot} (hr : c.requests[k]? = some ⟨id, .writes, slot⟩) (writerGone : Bool) :
    Steps c (.write k writerGone) (c.modify k fun r => { r with phase := .awaits })
  | rollBack {k id : Nat} {e : McpError} {slot : Slot} (hr : c.requests[k]? = some ⟨id, .failed e, slot⟩) :
    Steps c (.rollBack k) ((c.remove id).modify k fun r => { r with phase := .returned (.error e) })
  | receive {k id : Nat} {slot : Slot} (hr : c.requests[k]? = some ⟨id, .awaits, slot⟩) (hslot : slot ≠ .waits)
    {result : Except McpError Json} (hreply : ∀ reply : RpcReply, result = reply.result → slot = .holds reply) :
    Steps c (.receive k) (c.modify k fun r => { r with phase := .returned result })
  | timeout {k : Nat} {r : Request} (hr : c.requests[k]? = some r) (halive : r.alive = true) :
    Steps c (.timeout k) (c.modify k fun r => { r with phase := .dropped })
  | incoming (hreader : c.reader = true) (value : Json) : Steps c (.incoming value) (c.dispatchIncoming value)
  | endOfOutput (hreader : c.reader = true) :
    Steps c .endOfOutput { c.drainWith .closedStdout with reader := false }
  | closeWriter : Steps c .closeWriter { c with writeTx := false }
  | takeProcess (hprocess : (c.process && !c.writeTx) = true) :
    Steps c .takeProcess { c with process := false, draining := true }
  | drain (hdraining : c.draining = true) : Steps c .drain { c.drainWith .shuttingDown with draining := false }

theorem steps_of_step {c c' : Connection} {a : ConnectionAction} (h : c.step a = some c') : Steps c a c' := by
  cases a with
  | request =>
    cases h
    exact .request
  | enter k =>
    rw [step] at h
    split at h
    · next hr =>
      cases h
      exact .enter hr
    · cases h
  | write k writerGone =>
    rw [step] at h
    split at h
    · next hr =>
      split_ifs at h <;> cases h
      · exact .fail hr writerGone fun reply => by cases reply <;> simp [RpcReply.result]
      · exact .fail hr writerGone fun reply => by cases reply <;> simp [RpcReply.result]
      · exact .write hr writerGone
    · cases h
  | rollBack k =>
    rw [step] at h
    split at h
    · next hr =>
      cases h
      exact .rollBack hr
    · cases h
  | receive k =>
    rw [step] at h
    split at h
    · next hr =>
      cases h
      exact .receive hr (by simp) fun reply heq => congrArg _ (RpcReply.result_injective heq)
    · next hr =>
      cases h
      exact .receive hr (by simp) fun reply heq => by cases reply <;> cases heq
    · cases h
  | timeout k =>
    rw [step] at h
    split at h
    · next hr =>
      split_ifs at h with halive
      cases h
      exact .timeout hr halive
    · cases h
  | incoming value =>
    rw [step] at h
    split_ifs at h with hreader
    cases h
    exact .incoming hreader value
  | endOfOutput =>
    rw [step] at h
    split_ifs at h with hreader
    cases h
    exact .endOfOutput hreader
  | closeWriter =>
    cases h
    exact .closeWriter
  | takeProcess =>
    rw [step] at h
    split_ifs at h with hprocess
    cases h
    exact .takeProcess hprocess
  | drain =>
    rw [step] at h
    split_ifs at h with hdraining
    cases h
    exact .drain hdraining

end Connection

/-- Replies come to whom they are for, once, and the entries are those of the requests that wait. -/
structure Matched (c : Connection) : Prop where
  /-- A message comes to one request at most, and to a request one at most. -/
  once : (c.delivered.map Delivery.message).Nodup ∧ (c.delivered.map Delivery.request).Nodup
  own : ∀ d ∈ c.delivered, ∃ r, c.requests[d.request]? = some r ∧ messageId d.value = some r.id
  received : ∀ k r reply, c.requests[k]? = some r → r.phase = .returned reply.result →
    (∃ d ∈ c.delivered, d.request = k ∧ RpcReply.of d.value = reply) ∨ reply = .closedStdout ∨ reply = .shuttingDown
  entries : ∀ id k, c.pending id = some k ↔ ∃ r, c.requests[k]? = some r ∧ r.id = id ∧ r.waits = true

/-! ### What every run keeps -/

/-- How a request stands to the rest. -/
structure Request.Fits (c : Connection) (k : Nat) (r : Request) : Prop where
  waiting : r.waits = true → c.pending r.id = some k
  numbered : r.phase = .numbered → r.slot = .waits
  failed : ∀ e (reply : RpcReply), r.phase = .failed e → reply.result ≠ .error e
  answered : ∀ reply, r.slot = .holds reply →
    (∃ d ∈ c.delivered, d.request = k ∧ RpcReply.of d.value = reply) ∨ reply = .closedStdout ∨ reply = .shuttingDown
  returned : ∀ reply : RpcReply, r.phase = .returned reply.result → r.slot = .holds reply

/-- An entry is of a request that has been entered, has not returned, and has got nothing: but it may be dropped. -/
def Entered (c : Connection) (id k : Nat) : Prop :=
  ∃ r, c.requests[k]? = some r ∧ r.id = id ∧ r.slot = .waits ∧ r.phase ≠ .numbered ∧ ∀ result, r.phase ≠ .returned result

structure Sound (c : Connection) : Prop where
  once : (c.delivered.map Delivery.message).Nodup ∧ (c.delivered.map Delivery.request).Nodup
  earlier : ∀ d ∈ c.delivered, d.message < c.messages
  own : ∀ d ∈ c.delivered, ∃ r, c.requests[d.request]? = some r ∧ messageId d.value = some r.id ∧
    r.slot = .holds (RpcReply.of d.value)
  entered : ∀ id k, c.pending id = some k → Entered c id k
  fits : ∀ k (r : Request), c.requests[k]? = some r → r.Fits c k

theorem getElem?_modify_eq_some {requests : List Request} {k j : Nat} {f : Request → Request} {r' : Request} :
    (requests.modify k f)[j]? = some r' ↔ ∃ r, requests[j]? = some r ∧ r' = if k = j then f r else r := by
  rw [List.getElem?_modify]
  rcases requests[j]? with _ | r
  · simp
  · simp [eq_comm]

theorem update_none_iff {pending : Nat → Option Nat} {id₀ id k : Nat} :
    Function.update pending id₀ none id = some k ↔ pending id = some k ∧ ¬ id = id₀ := by
  by_cases hid : id = id₀
  · subst hid
    simp
  · simp [hid]

namespace Request

@[simp] theorem close_id (r : Request) : r.close.id = r.id := by unfold close; split <;> rfl

@[simp] theorem close_phase (r : Request) : r.close.phase = r.phase := by unfold close; split <;> rfl

@[simp] theorem send_id (reply : RpcReply) (r : Request) : (r.send reply).id = r.id := by unfold send; split_ifs <;> rfl

@[simp] theorem send_phase (reply : RpcReply) (r : Request) : (r.send reply).phase = r.phase := by
  unfold send; split_ifs <;> rfl

theorem waits_iff {r : Request} : r.waits = true ↔ r.alive = true ∧ r.phase ≠ .numbered ∧ r.slot = .waits := by
  obtain ⟨id, phase, slot⟩ := r
  cases phase <;> cases slot <;> simp [waits, alive]

theorem waits_close (r : Request) : r.close.waits = false := by
  obtain ⟨id, phase, slot⟩ := r
  cases phase <;> cases slot <;> rfl

theorem waits_send (reply : RpcReply) (r : Request) : (r.send reply).waits = false := by
  obtain ⟨id, phase, slot⟩ := r
  cases phase <;> rfl

theorem slot_close {r : Request} {reply : RpcReply} (h : r.close.slot = .holds reply) : r.slot = .holds reply := by
  obtain ⟨id, phase, slot⟩ := r
  cases slot
  · cases h
  · exact h
  · cases h

theorem slot_send {r : Request} {reply reply' : RpcReply} (hr : r.slot = .waits) (h : (r.send reply).slot = .holds reply') :
    reply = reply' := by
  unfold send at h
  split_ifs at h
  · exact Slot.holds.inj h
  · rw [hr] at h
    cases h

end Request

namespace Sound

variable {c : Connection} {k : Nat} {r : Request}

theorem started (server : String) (nextRequestId : Nat) : Sound (Connection.started server nextRequestId) where
  once := ⟨List.nodup_nil, List.nodup_nil⟩
  earlier := fun _ h => absurd h List.not_mem_nil
  own := fun _ h => absurd h List.not_mem_nil
  entered := fun _ _ h => by cases h
  fits := fun _ _ h => by cases h

/-- A request goes on, and nothing else changes. -/
theorem advance (h : Sound c) (hr : c.requests[k]? = some r) {phase : RequestPhase} (hnumbered : phase ≠ .numbered)
    (hwaits : Request.waits { r with phase := phase } = true → r.waits = true)
    (hfailed : ∀ e (reply : RpcReply), phase = .failed e → reply.result ≠ .error e)
    (hreturned : ∀ result, phase = .returned result →
      (∀ id, c.pending id ≠ some k) ∧ ∀ reply : RpcReply, result = reply.result → r.slot = .holds reply) :
    Sound (c.modify k fun r => { r with phase := phase }) where
  once := h.once
  earlier := h.earlier
  own := by
    intro d hd
    obtain ⟨r', hr', hid, hslot⟩ := h.own d hd
    refine ⟨_, getElem?_modify_eq_some.mpr ⟨r', hr', rfl⟩, ?_, ?_⟩ <;> split_ifs <;> assumption
  entered := by
    intro id j hj
    obtain ⟨r', hr', hid, hslot, hnot, hover⟩ := h.entered id j hj
    refine ⟨_, getElem?_modify_eq_some.mpr ⟨r', hr', rfl⟩, ?_⟩
    split_ifs with hkj
    · subst hkj
      exact ⟨hid, hslot, hnumbered, fun result hresult => (hreturned result hresult).1 id hj⟩
    · exact ⟨hid, hslot, hnot, hover⟩
  fits := by
    intro j r' hr'
    obtain ⟨r₀, hr₀, rfl⟩ := getElem?_modify_eq_some.mp hr'
    split_ifs with hkj
    · subst hkj
      obtain rfl := Option.some.inj (hr.symm.trans hr₀)
      have hfits := h.fits k r hr
      exact ⟨fun hw => hfits.waiting (hwaits hw), fun hp => absurd hp hnumbered, hfailed, hfits.answered,
        fun reply hp => (hreturned _ hp).2 reply rfl⟩
    · have hfits := h.fits j r₀ hr₀
      exact ⟨hfits.waiting, hfits.numbered, hfits.failed, hfits.answered, hfits.returned⟩

/-- What stands in an entry's way to another request: the entry is under the request's own id. -/
theorem id_of_pending (h : Sound c) {id : Nat} (hpending : c.pending id = some k) (hr : c.requests[k]? = some r) :
    r.id = id ∧ r.slot = .waits ∧ r.phase ≠ .numbered ∧ ∀ result, r.phase ≠ .returned result := by
  obtain ⟨r', hr', hrest⟩ := h.entered id k hpending
  obtain rfl := Option.some.inj (hr.symm.trans hr')
  exact hrest

/-- Some entries are taken out, and their sending ends used or dropped. -/
theorem settle (h : Sound c) {c' : Connection} (out : Nat → Prop) (f : Request → Request)
    (hpending : ∀ id k, c'.pending id = some k ↔ c.pending id = some k ∧ ¬ out id)
    (hrequests : ∀ k r', c'.requests[k]? = some r' ↔ ∃ r, c.requests[k]? = some r ∧
      ((c.pending r.id = some k ∧ out r.id) ∧ r' = f r ∨ ¬(c.pending r.id = some k ∧ out r.id) ∧ r' = r))
    (hid : ∀ r, (f r).id = r.id) (hphase : ∀ r, (f r).phase = r.phase) (hwaits : ∀ r, (f r).waits = false)
    (hslot : ∀ k r reply, c.requests[k]? = some r → c.pending r.id = some k → out r.id → (f r).slot = .holds reply →
      (∃ d ∈ c'.delivered, d.request = k ∧ RpcReply.of d.value = reply) ∨ reply = .closedStdout ∨ reply = .shuttingDown)
    (honce : (c'.delivered.map Delivery.message).Nodup ∧ (c'.delivered.map Delivery.request).Nodup)
    (hearlier : ∀ d ∈ c'.delivered, d.message < c'.messages) (hold : c.delivered ⊆ c'.delivered)
    (hnew : ∀ d ∈ c'.delivered, d ∈ c.delivered ∨ ∃ r, c.requests[d.request]? = some r ∧
      c.pending r.id = some d.request ∧ out r.id ∧ messageId d.value = some r.id ∧
      (f r).slot = .holds (RpcReply.of d.value)) : Sound c' where
  once := honce
  earlier := hearlier
  own := by
    intro d hd
    rcases hnew d hd with hd | ⟨r, hr, hentry, hout, hmessage, hslot⟩
    · obtain ⟨r, hr, hmessage, hslot⟩ := h.own d hd
      refine ⟨r, (hrequests _ _).mpr ⟨r, hr, Or.inr ⟨fun hentry => ?_, rfl⟩⟩, hmessage, hslot⟩
      rw [(h.id_of_pending hentry.1 hr).2.1] at hslot
      cases hslot
    · exact ⟨f r, (hrequests _ _).mpr ⟨r, hr, Or.inl ⟨⟨hentry, hout⟩, rfl⟩⟩, by rw [hid, hmessage], hslot⟩
  entered := by
    intro id k hk
    obtain ⟨hk, hnot⟩ := (hpending id k).mp hk
    obtain ⟨r, hr, rfl, hrest⟩ := h.entered id k hk
    exact ⟨r, (hrequests _ _).mpr ⟨r, hr, Or.inr ⟨fun hentry => hnot hentry.2, rfl⟩⟩, rfl, hrest⟩
  fits := by
    intro k r' hr'
    obtain ⟨r, hr, ⟨⟨hentry, hout⟩, rfl⟩ | ⟨hnot, rfl⟩⟩ := (hrequests _ _).mp hr'
    · obtain ⟨-, -, hnumbered, hreturned⟩ := h.id_of_pending hentry hr
      refine ⟨fun hw => ?_, fun hp => ?_, fun e reply hp => ?_, fun reply hs => hslot k r reply hr hentry hout hs,
        fun reply hp => ?_⟩
      · rw [hwaits] at hw
        cases hw
      · exact absurd (hphase r ▸ hp) hnumbered
      · exact (h.fits k r hr).failed e reply (hphase r ▸ hp)
      · exact absurd (hphase r ▸ hp) (hreturned _)
    · have hfits := h.fits k r' hr
      refine ⟨fun hw => ?_, hfits.numbered, hfits.failed, fun reply hs => ?_, hfits.returned⟩
      · exact (hpending _ _).mpr ⟨hfits.waiting hw, fun hout => hnot ⟨hfits.waiting hw, hout⟩⟩
      · exact (hfits.answered reply hs).imp_left fun ⟨d, hd, hrest⟩ => ⟨d, hold hd, hrest⟩

/-- In which requests an entry's removal shows. -/
theorem modify_entry_iff (h : Sound c) {id₀ k₀ : Nat} (hk₀ : c.pending id₀ = some k₀) (f : Request → Request) (k : Nat)
    (r' : Request) : (c.requests.modify k₀ f)[k]? = some r' ↔ ∃ r, c.requests[k]? = some r ∧
      ((c.pending r.id = some k ∧ r.id = id₀) ∧ r' = f r ∨ ¬(c.pending r.id = some k ∧ r.id = id₀) ∧ r' = r) := by
  rw [getElem?_modify_eq_some]
  refine exists_congr fun r => and_congr_right fun hr => ?_
  have hiff : (c.pending r.id = some k ∧ r.id = id₀) ↔ k₀ = k := by
    constructor
    · rintro ⟨hk, hid⟩
      rw [hid, hk₀] at hk
      exact Option.some.inj hk
    · rintro rfl
      obtain ⟨hid, -⟩ := h.id_of_pending hk₀ hr
      exact ⟨hid ▸ hk₀, hid⟩
  rw [hiff]
  by_cases hk : k₀ = k <;> simp [hk]

theorem remove (h : Sound c) (id : Nat) : Sound (c.remove id) := by
  refine h.settle (fun id' => id' = id) Request.close (fun _ _ => update_none_iff) (fun k r' => ?_) Request.close_id
    Request.close_phase Request.waits_close (fun k r reply hr _ _ hs => ?_) h.once h.earlier (List.Subset.refl _)
    fun d hd => Or.inl hd
  · unfold Connection.remove
    rcases hk₀ : c.pending id with _ | k₀
    · refine ⟨fun hr => ⟨r', hr, Or.inr ⟨?_, rfl⟩⟩, ?_⟩
      · rintro ⟨hk, hid⟩
        rw [hid, hk₀] at hk
        cases hk
      · rintro ⟨r, hr, ⟨⟨hk, hid⟩, -⟩ | ⟨-, rfl⟩⟩
        · rw [hid, hk₀] at hk
          cases hk
        · exact hr
    · exact h.modify_entry_iff hk₀ Request.close k r'
  · exact (h.fits k r hr).answered reply (Request.slot_close hs)

theorem drainWith (h : Sound c) {reply : RpcReply} (hreply : reply = .closedStdout ∨ reply = .shuttingDown) :
    Sound (c.drainWith reply) := by
  refine h.settle (fun _ => True) (Request.send reply) (fun id k => ?_) (fun k r' => ?_) (Request.send_id reply)
    (Request.send_phase reply) (Request.waits_send reply) (fun k r reply' hr hentry _ hs => Or.inr ?_) h.once h.earlier
    (List.Subset.refl _) fun d hd => Or.inl hd
  · simp [Connection.drainWith]
  · unfold Connection.drainWith
    simp only [List.getElem?_mapIdx, Option.map_eq_some_iff, and_true]
    refine exists_congr fun r => and_congr_right fun _ => ?_
    split_ifs with hk
    · simp [hk, eq_comm]
    · simp [hk, eq_comm]
  · rwa [← Request.slot_send (h.id_of_pending hentry hr).2.1 hs]

theorem dispatchIncoming (h : Sound c) (value : Json) : Sound (c.dispatchIncoming value) := by
  have hcounted : Sound { c with messages := c.messages + 1 } :=
    ⟨h.once, fun d hd => (h.earlier d hd).trans (Nat.lt_succ_self _), h.own, h.entered,
      fun k r hr => ⟨(h.fits k r hr).waiting, (h.fits k r hr).numbered, (h.fits k r hr).failed, (h.fits k r hr).answered,
        (h.fits k r hr).returned⟩⟩
  unfold Connection.dispatchIncoming
  dsimp only
  rcases hmessage : messageId value with _ | id
  · exact hcounted
  dsimp only
  rcases hk₀ : c.pending id with _ | k₀
  · exact hcounted
  dsimp only
  obtain ⟨r₀, hr₀, hid, hslot, -⟩ := h.entered id k₀ hk₀
  -- What was delivered before is older, and came to others: this request has got nothing yet.
  have hmessage' : c.messages ∉ c.delivered.map Delivery.message := by
    intro hmem
    obtain ⟨d, hd, heq⟩ := List.mem_map.mp hmem
    exact absurd (h.earlier d hd) (by omega)
  have hrequest' : k₀ ∉ c.delivered.map Delivery.request := by
    intro hmem
    obtain ⟨d, hd, heq⟩ := List.mem_map.mp hmem
    obtain ⟨r, hr, -, hheld⟩ := h.own d hd
    rw [heq, hr₀] at hr
    cases hr
    rw [hslot] at hheld
    cases hheld
  rw [hr₀, Option.map_some, Option.getD_some]
  refine h.settle (fun id' => id' = id) (Request.send (RpcReply.of value)) (fun _ _ => update_none_iff)
    (h.modify_entry_iff hk₀ _) (Request.send_id _) (Request.send_phase _) (Request.waits_send _)
    (fun k r reply hr hk hrid hs => Or.inl ?_) ?_ ?_ ?_ ?_
  · have hkk : k₀ = k := by
      rw [hrid, hk₀] at hk
      exact Option.some.inj hk
    subst hkk
    obtain rfl := Option.some.inj (hr₀.symm.trans hr)
    have hreply := Request.slot_send hslot hs
    have halive : r₀.alive = true := by
      by_contra hdead
      rw [Request.send, if_neg hdead, hslot] at hs
      cases hs
    exact ⟨⟨c.messages, value, k₀⟩, by simp [halive], rfl, hreply⟩
  · dsimp only
    split_ifs
    · rw [← List.concat_eq_append, List.map_concat, List.map_concat]
      exact ⟨h.once.1.concat hmessage', h.once.2.concat hrequest'⟩
    · exact h.once
  · intro d hd
    dsimp only at hd ⊢
    split_ifs at hd
    · rcases List.mem_append.mp hd with hd | hd
      · exact (h.earlier d hd).trans (Nat.lt_succ_self _)
      · rw [List.mem_singleton.mp hd]
        exact Nat.lt_succ_self _
    · exact (h.earlier d hd).trans (Nat.lt_succ_self _)
  · dsimp only
    split_ifs
    · exact List.subset_append_left _ _
    · exact List.Subset.refl _
  · intro d hd
    dsimp only at hd
    split_ifs at hd with halive
    · refine (List.mem_append.mp hd).imp_right fun hd => ?_
      rw [List.mem_singleton.mp hd]
      refine ⟨r₀, hr₀, hid ▸ hk₀, hid, by rw [hmessage, hid], ?_⟩
      rw [Request.send, if_pos halive]
    · exact Or.inl hd

/-- Only the requests, the entries and what has come count. -/
theorem congr (h : Sound c) {c' : Connection} (hpending : c'.pending = c.pending) (hrequests : c'.requests = c.requests)
    (hmessages : c'.messages = c.messages) (hdelivered : c'.delivered = c.delivered) : Sound c' := by
  obtain ⟨server, next, pending, writeTx, process, reader, draining, requests, messages, delivered⟩ := c'
  subst hpending hrequests hmessages hdelivered
  refine ⟨h.once, h.earlier, h.own, h.entered, fun k r hr => ?_⟩
  have hfits := h.fits k r hr
  exact ⟨hfits.waiting, hfits.numbered, hfits.failed, hfits.answered, hfits.returned⟩

theorem request (h : Sound c) (next : Nat) : Sound
    { c with nextRequestId := next, requests := c.requests ++ [⟨c.nextRequestId, .numbered, .waits⟩] } := by
  have hkept {k : Nat} {r : Request} (hr : c.requests[k]? = some r) :
      (c.requests ++ [⟨c.nextRequestId, .numbered, .waits⟩])[k]? = some r := by
    rwa [List.getElem?_append_left (List.getElem?_eq_some_iff.mp hr).1]
  refine ⟨h.once, h.earlier, fun d hd => ?_, fun id k hk => ?_, fun k r hr => ?_⟩
  · obtain ⟨r, hr, hrest⟩ := h.own d hd
    exact ⟨r, hkept hr, hrest⟩
  · obtain ⟨r, hr, hrest⟩ := h.entered id k hk
    exact ⟨r, hkept hr, hrest⟩
  · by_cases hlt : k < c.requests.length
    · have hr : c.requests[k]? = some r := by rwa [List.getElem?_append_left hlt] at hr
      have hfits := h.fits k r hr
      exact ⟨hfits.waiting, hfits.numbered, hfits.failed, hfits.answered, hfits.returned⟩
    · rw [List.getElem?_append_right (not_lt.mp hlt)] at hr
      obtain rfl := List.mem_singleton.mp (List.mem_of_getElem? hr)
      exact ⟨fun hw => (by cases hw), fun _ => rfl, fun _ _ hp => (by cases hp), fun _ hs => (by cases hs),
        fun _ hp => (by cases hp)⟩

theorem enter (h : Sound c) (hr : c.requests[k]? = some r) (hnumbered : r.phase = .numbered) : Sound
    { (c.remove r.id).modify k (fun r => { r with phase := .writes }) with
      pending := Function.update (c.remove r.id).pending r.id (some k) } := by
  have hremoved := h.remove r.id
  have hgone : (c.remove r.id).pending r.id = none := Function.update_self ..
  have hr' : (c.remove r.id).requests[k]? = some r := by
    unfold Connection.remove
    rcases hk₀ : c.pending r.id with _ | k₀
    · exact hr
    · refine getElem?_modify_eq_some.mpr ⟨r, hr, ?_⟩
      rw [if_neg]
      rintro rfl
      exact (h.id_of_pending hk₀ hr).2.2.1 hnumbered
  have hother {id j : Nat} (hid : id ≠ r.id) (hj : (c.remove r.id).pending id = some j) : j ≠ k := by
    rintro rfl
    exact hid (hremoved.id_of_pending hj hr').1.symm
  generalize c.remove r.id = c₁ at hremoved hgone hr' hother
  refine ⟨hremoved.once, hremoved.earlier, fun d hd => ?_, fun id j hj => ?_, fun j r' hj => ?_⟩
  · obtain ⟨r', hr', hid, hslot⟩ := hremoved.own d hd
    refine ⟨_, getElem?_modify_eq_some.mpr ⟨r', hr', rfl⟩, ?_, ?_⟩ <;> split_ifs <;> assumption
  · by_cases hid : id = r.id
    · subst hid
      obtain rfl : k = j := by simpa using hj
      refine ⟨_, getElem?_modify_eq_some.mpr ⟨r, hr', rfl⟩, ?_⟩
      rw [if_pos rfl]
      exact ⟨rfl, (hremoved.fits k r hr').numbered hnumbered, by simp, by simp⟩
    · have hj : c₁.pending id = some j := by simpa [hid] using hj
      obtain ⟨r', hr', hrest⟩ := hremoved.entered id j hj
      refine ⟨_, getElem?_modify_eq_some.mpr ⟨r', hr', rfl⟩, ?_⟩
      rw [if_neg (hother hid hj).symm]
      exact hrest
  · obtain ⟨r₀, hr₀, rfl⟩ := getElem?_modify_eq_some.mp hj
    have hfits := hremoved.fits j r₀ hr₀
    split_ifs with hkj
    · subst hkj
      obtain rfl := Option.some.inj (hr'.symm.trans hr₀)
      exact ⟨fun _ => Function.update_self .., fun hp => (by cases hp), fun _ _ hp => (by cases hp), hfits.answered,
        fun _ hp => (by cases hp)⟩
    · refine ⟨fun hw => ?_, hfits.numbered, hfits.failed, hfits.answered, hfits.returned⟩
      have hpending := hfits.waiting hw
      have hid : r₀.id ≠ r.id := by
        intro hid
        rw [hid, hgone] at hpending
        cases hpending
      exact (Function.update_of_ne hid _ _).trans hpending

theorem rollBack (h : Sound c) (hr : c.requests[k]? = some r) {e : McpError} (hfailed : r.phase = .failed e) :
    Sound ((c.remove r.id).modify k fun r => { r with phase := .returned (.error e) }) := by
  have hremoved := h.remove r.id
  have hgone : (c.remove r.id).pending r.id = none := Function.update_self ..
  obtain ⟨r', hr', hid, hphase⟩ : ∃ r', (c.remove r.id).requests[k]? = some r' ∧ r'.id = r.id ∧ r'.phase = r.phase := by
    unfold Connection.remove
    rcases c.pending r.id with _ | k₀
    · exact ⟨r, hr, rfl, rfl⟩
    · refine ⟨_, getElem?_modify_eq_some.mpr ⟨r, hr, rfl⟩, ?_⟩
      split_ifs
      · exact ⟨Request.close_id r, Request.close_phase r⟩
      · exact ⟨rfl, rfl⟩
  refine hremoved.advance hr' (by simp) (fun hw => ?_) (fun _ _ hp => (by cases hp)) fun result hresult => ⟨fun id hk => ?_, ?_⟩
  · obtain ⟨halive, -⟩ := Request.waits_iff.mp hw
    cases halive
  · have hid' := (hremoved.id_of_pending hk hr').1
    rw [← hid', hid, hgone] at hk
    cases hk
  · rintro reply rfl
    exact absurd (RequestPhase.returned.inj hresult).symm (fun heq => (h.fits k r hr).failed e reply hfailed heq)

/-- **Every step keeps it**, the timeout's as well. -/
theorem step (h : Sound c) {a : ConnectionAction} {c' : Connection} (hstep : c.step a = some c') : Sound c' := by
  cases Connection.steps_of_step hstep with
  | request => exact h.request _
  | enter hr => exact h.enter hr rfl
  | @fail k id slot hr _ e he =>
    exact h.advance hr (by simp) (fun hw => by cases slot <;> simp_all [Request.waits])
      (fun _ reply hp => RequestPhase.failed.inj hp ▸ he reply) fun _ hp => (by cases hp)
  | @write k id slot hr =>
    exact h.advance hr (by simp) (fun hw => by cases slot <;> simp_all [Request.waits]) (fun _ _ hp => (by cases hp))
      fun _ hp => (by cases hp)
  | rollBack hr => exact h.rollBack hr rfl
  | @receive k id slot hr hslot result hreply =>
    refine h.advance hr (by simp) (fun hw => by cases slot <;> simp_all [Request.waits]) (fun _ _ hp => (by cases hp))
      fun result' hresult => ⟨fun id' hk => hslot (h.id_of_pending hk hr).2.1, ?_⟩
    rintro reply rfl
    exact hreply reply (RequestPhase.returned.inj hresult)
  | timeout hr =>
    exact h.advance hr (by simp) (fun hw => by simp [Request.waits] at hw) (fun _ _ hp => (by cases hp))
      fun _ hp => (by cases hp)
  | incoming _ value => exact h.dispatchIncoming value
  | endOfOutput => exact (h.drainWith (Or.inl rfl)).congr rfl rfl rfl rfl
  | closeWriter | takeProcess => exact h.congr rfl rfl rfl rfl
  | drain => exact (h.drainWith (Or.inr rfl)).congr rfl rfl rfl rfl

end Sound

/-! ### Dropped requests -/

/-- No entry's request has been dropped. -/
def NoneLeft (c : Connection) : Prop :=
  ∀ id k r, c.pending id = some k → c.requests[k]? = some r → r.alive = true

/-- A request that the step drops does not wait: it has not been entered, or its reply has come. -/
def DropsNoneWaiting (c : Connection) (a : ConnectionAction) : Prop :=
  ∀ k r, a = .timeout k → c.requests[k]? = some r → r.waits = false

theorem matched_iff_noneLeft {c : Connection} (h : Sound c) : Matched c ↔ NoneLeft c := by
  constructor
  · intro hmatched id k r hk hr
    obtain ⟨r', hr', -, hwaits⟩ := (hmatched.entries id k).mp hk
    obtain rfl := Option.some.inj (hr.symm.trans hr')
    exact (Request.waits_iff.mp hwaits).1
  · intro hnone
    refine ⟨h.once, fun d hd => ?_, fun k r reply hr hp => ?_, fun id k => ⟨fun hk => ?_, ?_⟩⟩
    · obtain ⟨r, hr, hmessage, -⟩ := h.own d hd
      exact ⟨r, hr, hmessage⟩
    · exact (h.fits k r hr).answered reply ((h.fits k r hr).returned reply hp)
    · obtain ⟨r, hr, hid, hslot, hnumbered, -⟩ := h.entered id k hk
      exact ⟨r, hr, hid, Request.waits_iff.mpr ⟨hnone id k r hk hr, hnumbered, hslot⟩⟩
    · rintro ⟨r, hr, rfl, hwaits⟩
      exact (h.fits k r hr).waiting hwaits

/-- Who is dropped was so before, and has no entry that was not there. -/
def DropsNobody (c c' : Connection) : Prop :=
  ∀ k r', c'.requests[k]? = some r' → r'.phase = .dropped →
    (∃ r, c.requests[k]? = some r ∧ r.phase = .dropped) ∧ ∀ id, c'.pending id = some k → c.pending id = some k

namespace DropsNobody

variable {c c' c'' : Connection}

theorem trans (h : DropsNobody c c') (h' : DropsNobody c' c'') : DropsNobody c c'' := by
  intro k r'' hr'' hp
  obtain ⟨⟨r', hr', hp'⟩, hpending'⟩ := h' k r'' hr'' hp
  obtain ⟨hr, hpending⟩ := h k r' hr' hp'
  exact ⟨hr, fun id hk => hpending id (hpending' id hk)⟩

/-- The entries are among those before, and the requests have the phases they had. -/
theorem of_phases (hpending : ∀ id k, c'.pending id = some k → c.pending id = some k)
    (hphases : ∀ (k : Nat) (r' : Request), c'.requests[k]? = some r' →
      ∃ r : Request, c.requests[k]? = some r ∧ r.phase = r'.phase) :
    DropsNobody c c' := by
  intro k r' hr' hp
  obtain ⟨r, hr, hphase⟩ := hphases k r' hr'
  exact ⟨⟨r, hr, hphase.trans hp⟩, fun id hk => hpending id k hk⟩

theorem modify (k : Nat) {phase : RequestPhase} (hphase : phase ≠ .dropped) :
    DropsNobody c (c.modify k fun r => { r with phase := phase }) := by
  intro j r' hr' hp
  obtain ⟨r, hr, rfl⟩ := getElem?_modify_eq_some.mp hr'
  split_ifs at hp with hkj
  · exact absurd hp hphase
  · exact ⟨⟨r, hr, hp⟩, fun _ hk => hk⟩

theorem remove (id : Nat) : DropsNobody c (c.remove id) := by
  refine of_phases (fun id' k hk => (update_none_iff.mp hk).1) fun k r' hr' => ?_
  unfold Connection.remove at hr'
  rcases hk₀ : c.pending id with _ | k₀ <;> simp only [hk₀] at hr'
  · exact ⟨r', hr', rfl⟩
  · obtain ⟨r, hr, rfl⟩ := getElem?_modify_eq_some.mp hr'
    refine ⟨r, hr, ?_⟩
    split_ifs
    · exact (Request.close_phase r).symm
    · rfl

theorem drainWith (reply : RpcReply) : DropsNobody c (c.drainWith reply) := by
  refine of_phases (fun id k hk => by cases hk) fun k r' hr' => ?_
  rw [Connection.drainWith, List.getElem?_mapIdx] at hr'
  obtain ⟨r, hr, rfl⟩ := Option.map_eq_some_iff.mp hr'
  refine ⟨r, hr, ?_⟩
  split_ifs
  · exact (Request.send_phase reply r).symm
  · rfl

theorem dispatchIncoming (value : Json) : DropsNobody c (c.dispatchIncoming value) := by
  unfold Connection.dispatchIncoming
  dsimp only
  rcases messageId value with _ | id
  · exact of_phases (fun _ _ hk => hk) fun k r' hr' => ⟨r', hr', rfl⟩
  dsimp only
  rcases c.pending id with _ | k₀
  · exact of_phases (fun _ _ hk => hk) fun k r' hr' => ⟨r', hr', rfl⟩
  · refine of_phases (fun id' k hk => (update_none_iff.mp hk).1) fun k r' hr' => ?_
    obtain ⟨r, hr, rfl⟩ := getElem?_modify_eq_some.mp hr'
    refine ⟨r, hr, ?_⟩
    split_ifs
    · exact (Request.send_phase _ r).symm
    · rfl

/-- A step that is no timeout drops nobody. -/
theorem step {a : ConnectionAction} (hstep : c.step a = some c') (ha : ∀ k, a ≠ .timeout k) : DropsNobody c c' := by
  cases Connection.steps_of_step hstep with
  | request =>
    intro k r' hr' hp
    by_cases hlt : k < c.requests.length
    · rw [List.getElem?_append_left hlt] at hr'
      exact ⟨⟨r', hr', hp⟩, fun _ hk => hk⟩
    · rw [List.getElem?_append_right (not_lt.mp hlt)] at hr'
      obtain rfl := List.mem_singleton.mp (List.mem_of_getElem? hr')
      cases hp
  | @enter k id slot hr =>
    refine (remove id).trans ((modify (c := c.remove id) k (by simp : RequestPhase.writes ≠ .dropped)).trans ?_)
    intro j r' hr' hp
    refine ⟨⟨r', hr', hp⟩, fun id' hk => ?_⟩
    by_cases hid : id' = id
    · -- The new entry is of a request that writes.
      subst hid
      obtain rfl : k = j := by simpa using hk
      obtain ⟨r, -, rfl⟩ := getElem?_modify_eq_some.mp hr'
      rw [if_pos rfl] at hp
      cases hp
    · exact (Function.update_of_ne hid _ _).symm.trans hk
  | fail | write | receive => exact modify _ (by simp)
  | rollBack => exact (remove _).trans (modify _ (by simp))
  | timeout => exact absurd rfl (ha _)
  | incoming _ value => exact dispatchIncoming value
  | endOfOutput => exact drainWith .closedStdout
  | closeWriter | takeProcess => exact of_phases (fun _ _ hk => hk) fun k r' hr' => ⟨r', hr', rfl⟩
  | drain => exact drainWith .shuttingDown

end DropsNobody

/-- What a timeout does. -/
theorem step_timeout {c c' : Connection} {k : Nat} (hstep : c.step (.timeout k) = some c') :
    ∃ r, c.requests[k]? = some r ∧ r.alive = true ∧ c' = c.modify k fun r => { r with phase := .dropped } := by
  cases Connection.steps_of_step hstep with
  | timeout hr halive => exact ⟨_, hr, halive, rfl⟩

/-- An entry's request that is not alive is a dropped one. -/
theorem noneLeft_iff {c : Connection} (h : Sound c) : NoneLeft c ↔
    ∀ id k r, c.pending id = some k → c.requests[k]? = some r → r.phase ≠ .dropped := by
  refine forall₃_congr fun id k r => forall₂_congr fun hk hr => ?_
  obtain ⟨-, -, -, hover⟩ := h.id_of_pending hk hr
  obtain ⟨_, phase, _⟩ := r
  cases phase <;> simp_all [Request.alive]

theorem noneLeft_step {c c' : Connection} {a : ConnectionAction} (h : Sound c) (hnone : NoneLeft c)
    (hdrops : DropsNoneWaiting c a) (hstep : c.step a = some c') : NoneLeft c' := by
  rw [noneLeft_iff (h.step hstep)]
  rw [noneLeft_iff h] at hnone
  intro id k r hk hr hp
  by_cases ha : ∀ j, a ≠ .timeout j
  · obtain ⟨⟨r₀, hr₀, hp₀⟩, hpending⟩ := DropsNobody.step hstep ha k r hr hp
    exact hnone id k r₀ (hpending id hk) hr₀ hp₀
  · obtain ⟨j, rfl⟩ : ∃ j, a = .timeout j := by simpa using ha
    obtain ⟨r₀, hr₀, halive, rfl⟩ := step_timeout hstep
    obtain ⟨r₁, hr₁, rfl⟩ := getElem?_modify_eq_some.mp hr
    split_ifs at hp with hjk
    · subst hjk
      obtain rfl := Option.some.inj (hr₀.symm.trans hr₁)
      obtain ⟨-, hslot, hnumbered, -⟩ := h.id_of_pending hk hr₀
      have hwaits := Request.waits_iff.mpr ⟨halive, hnumbered, hslot⟩
      rw [hdrops j r₀ rfl hr₀] at hwaits
      cases hwaits
    · exact hnone id k r₁ hk hr₁ hp

theorem not_noneLeft_of_drops {c c' : Connection} {a : ConnectionAction} (h : Sound c) (hdrops : ¬ DropsNoneWaiting c a)
    (hstep : c.step a = some c') : ¬ NoneLeft c' := by
  simp only [DropsNoneWaiting, not_forall] at hdrops
  obtain ⟨k, r, rfl, hr, hwaits⟩ := hdrops
  obtain ⟨_, _, _, rfl⟩ := step_timeout hstep
  intro hnone
  have hpending := (h.fits k r hr).waiting (by simpa using hwaits)
  have halive := hnone r.id k _ hpending (getElem?_modify_eq_some.mpr ⟨r, hr, rfl⟩)
  rw [if_pos rfl] at halive
  cases halive

/-- **Replies and entries match in every state of a run exactly if no request is dropped while it waits.** -/
theorem matched_iff (server : String) (nextRequestId : Nat) (actions : List ConnectionAction) :
    Always Connection.step Matched (Connection.started server nextRequestId) actions ↔
      Meets Connection.step DropsNoneWaiting (Connection.started server nextRequestId) actions := by
  refine always_iff_meets (fun c (h : Sound c ∧ NoneLeft c) => (matched_iff_noneLeft h.1).mpr h.2)
    (fun c a c' h hdrops hstep => ⟨h.1.step hstep, noneLeft_step h.1 h.2 hdrops hstep⟩)
    (fun c a c' h hdrops hstep hmatched => ?_) ⟨Sound.started server nextRequestId, fun _ _ _ hk => by cases hk⟩ actions
  exact not_noneLeft_of_drops h.1 hdrops hstep ((matched_iff_noneLeft (h.1.step hstep)).mp hmatched)

/-- Whatever is dropped, every run keeps replies apart: one comes to no request but its own, and only once. -/
theorem sound_always (server : String) (nextRequestId : Nat) (actions : List ConnectionAction) :
    Always Connection.step Sound (Connection.started server nextRequestId) actions :=
  always_of_meets (C := fun _ _ => True) (fun _ _ _ h _ hstep => h.step hstep) (Sound.started server nextRequestId)
    (meets_of_forall (fun _ _ => trivial) _ _)

/-- **A request that times out leaves its entry**: nobody waits, and the entry is there. -/
theorem timeout_leaves_entry : ∃ c,
    run Connection.step (Connection.started "docs" 1) [.request, .enter 0, .write 0 false, .timeout 0] = some c ∧
      c.pending 1 = some 0 ∧ (c.requests.all fun r => !r.waits) = true ∧ ¬ Matched c := by
  refine ⟨_, rfl, rfl, rfl, fun h => ?_⟩
  obtain ⟨r, hr, -, hwaits⟩ := (h.entries 1 0).mp rfl
  cases hr
  cases hwaits

end Nerve.Mcp
