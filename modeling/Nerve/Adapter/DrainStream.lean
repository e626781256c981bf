import Nerve.Library.Text
import Nerve.Library.Utf8
import Nerve.Run.Types

/-!
# Draining a stream

`drain_stream` reads a child's output in chunks, forwards each complete line and stops where there is more than the
cap. What it returns and what it forwards depends on the octets alone, and not on where the reader cuts them
(`drainStream_eq`): the lines are those of the whole (`linesOf`), because what is forwarded and what waits for
the end of its line are together always the lines of what has been read (`takesChunk_foldl`).
-/

namespace Nerve.Adapter

open Nerve.Run Text Utf8

inductive StreamKind where
  | stdout
  | stderr
  deriving DecidableEq, Repr

inductive AdapterError where
  | read (kind : StreamKind) (agentId : String)
  | outputTooLarge (limitBytes : Nat)
  deriving DecidableEq, Repr

/-- What the reads of a stream give: chunks that fit into the buffer, then its end, or an error. -/
structure Reader where
  chunks : List (List UInt8)
  proper : ∀ chunk ∈ chunks, 0 < chunk.length ∧ chunk.length ≤ 8192
  fails : Bool

/-- The octets, however they are cut. -/
def Reader.octets (reader : Reader) : List UInt8 := reader.chunks.flatten

/-- `b'\n'`. -/
def newline : UInt8 := 0x0A

/-- `b'\r'`. -/
def carriageReturn : UInt8 := 0x0D

/-- One carriage return at the end is left out. -/
def stripReturn (rawLine : List UInt8) : List UInt8 :=
  if rawLine.getLast? = some carriageReturn then rawLine.dropLast else rawLine

/-- `send_stdout` and `send_stderr`. Nobody looks whether the event is received. -/
def sendLine (kind : StreamKind) (agentId : String) (line : List Char) : AgentEvent :=
  match kind with
  | .stdout => .stdout agentId (String.ofList line)
  | .stderr => .stderr agentId (String.ofList line)

/-- `emit_stream_line`. -/
def emitStreamLine (agentId : String) (kind : StreamKind) (rawLine : List UInt8) : AgentEvent :=
  let line := decode (stripReturn rawLine)
  sendLine kind agentId line

/-- What the loop carries, and the events it has sent. -/
structure Drain where
  buffered : List UInt8
  pendingLine : List UInt8
  sent : List AgentEvent

section drain

variable (agentId : String) (maxBytes : Nat) (kind : StreamKind)

def takeByte (s : Drain) (byte : UInt8) : Drain :=
  if byte = newline then { s with pendingLine := [], sent := s.sent ++ [emitStreamLine agentId kind s.pendingLine] }
  else { s with pendingLine := s.pendingLine ++ [byte] }

/-- The loop of `drain_stream`, over the reads. A read of nothing is the end. -/
def drainLoop (fails : Bool) : Drain → List (List UInt8) → Drain × Except AdapterError Unit
  | s, [] => (s, if fails then .error (.read kind agentId) else .ok ())
  | s, chunk :: chunks =>
    if chunk.length = 0 then (s, .ok ())
    else if maxBytes < saturatingAdd s.buffered.length chunk.length then (s, .error (.outputTooLarge maxBytes))
    else drainLoop fails (chunk.foldl (takeByte agentId kind) { s with buffered := s.buffered ++ chunk }) chunks

/-- `drain_stream`: the events it sends, and what it returns. -/
def drainStream (reader : Reader) : List AgentEvent × Except AdapterError (List Char) :=
  match drainLoop agentId maxBytes kind reader.fails ⟨[], [], []⟩ reader.chunks with
  | (s, .error e) => (s.sent, .error e)
  | (s, .ok ()) =>
    let sent := if s.pendingLine.isEmpty then s.sent else s.sent ++ [emitStreamLine agentId kind s.pendingLine]
    (sent, .ok (decode s.buffered))

end drain

/-! ### Lines -/

/-- The lines of the octets: what stands before each newline, and what stands after the last one if there is
anything. -/
def linesOf : List UInt8 → List (List UInt8)
  | [] => []
  | b :: bs =>
    if b = newline then [] :: linesOf bs
    else
      match linesOf bs with
      | [] => [[b]]
      | line :: lines => (b :: line) :: lines

theorem linesOf_append_newline {line : List UInt8} (h : newline ∉ line) (bs : List UInt8) :
    linesOf (line ++ newline :: bs) = line :: linesOf bs := by
  induction line with
  | nil => rw [List.nil_append, linesOf, if_pos rfl]
  | cons b line ih =>
    rw [List.mem_cons, not_or] at h
    rw [List.cons_append, linesOf, if_neg (Ne.symm h.1), ih h.2]

theorem linesOf_unterminated {line : List UInt8} (h : newline ∉ line) :
    linesOf line = if line.isEmpty then [] else [line] := by
  induction line with
  | nil => rfl
  | cons b line ih =>
    rw [List.mem_cons, not_or] at h
    rw [linesOf, if_neg (Ne.symm h.1), ih h.2]
    cases line <;> rfl

/-! ### The loop -/

section run

variable (agentId : String) (kind : StreamKind) {maxBytes : Nat} {fails : Bool} {s : Drain}

/-- The events that are sent in the end, if these octets are still to come. -/
def Drain.linesWith (s : Drain) (rest : List UInt8) : List AgentEvent :=
  s.sent ++ (linesOf (s.pendingLine ++ rest)).map (emitStreamLine agentId kind)

/-- The line that waits for its end has no newline. -/
def Drain.Waits (s : Drain) : Prop := newline ∉ s.pendingLine

theorem Drain.Waits.takeByte (h : s.Waits) (b : UInt8) : (takeByte agentId kind s b).Waits := by
  rw [Adapter.takeByte]
  split_ifs with hb
  · exact List.not_mem_nil
  · intro hmem
    obtain hmem | hmem := List.mem_append.mp hmem
    · exact h hmem
    · exact hb (List.mem_singleton.mp hmem).symm

theorem linesWith_takeByte (h : s.Waits) (b : UInt8) (rest : List UInt8) :
    (takeByte agentId kind s b).linesWith agentId kind rest = s.linesWith agentId kind (b :: rest) := by
  rw [takeByte]
  split_ifs with hb
  · rw [hb, Drain.linesWith, Drain.linesWith, linesOf_append_newline h, List.map_cons, List.append_assoc]
    rfl
  · rw [Drain.linesWith, Drain.linesWith, List.append_assoc]
    rfl

/-- What one chunk does. -/
structure TakesChunk (s : Drain) (chunk : List UInt8) (t : Drain) : Prop where
  buffered : t.buffered = s.buffered
  waits : t.Waits
  lines : ∀ rest, t.linesWith agentId kind rest = s.linesWith agentId kind (chunk ++ rest)

theorem takesChunk_foldl (h : s.Waits) (chunk : List UInt8) :
    TakesChunk agentId kind s chunk (chunk.foldl (takeByte agentId kind) s) := by
  induction chunk generalizing s with
  | nil => exact ⟨rfl, h, fun _ => rfl⟩
  | cons b chunk ih =>
    have hrest := ih (h.takeByte agentId kind b)
    refine ⟨hrest.buffered.trans ?_, hrest.waits, fun rest => ?_⟩
    · rw [takeByte]
      split_ifs <;> rfl
    · rw [List.foldl_cons, hrest.lines, linesWith_takeByte agentId kind h, List.cons_append]

/-- The octets can be counted, or the cap is below the greatest count. -/
def Countable (maxBytes octets : Nat) : Prop := maxBytes < 2 ^ 64 - 1 ∨ octets < 2 ^ 64

theorem Countable.mono {m n : Nat} (h : Countable maxBytes n) (hmn : m ≤ n) : Countable maxBytes m :=
  h.imp_right fun hn => lt_of_le_of_lt hmn hn

section loop

variable {chunk : List UInt8} {chunks : List (List UInt8)}

theorem drainLoop_stop (hchunk : 0 < chunk.length) (hcount : Countable maxBytes (s.buffered.length + chunk.length))
    (h : maxBytes < s.buffered.length + chunk.length) :
    drainLoop agentId maxBytes kind fails s (chunk :: chunks) = (s, .error (.outputTooLarge maxBytes)) := by
  rw [drainLoop, if_neg (by omega), if_pos ((lt_saturatingAdd_iff hcount).mpr h)]

theorem drainLoop_go (hchunk : 0 < chunk.length) (hcount : Countable maxBytes (s.buffered.length + chunk.length))
    (h : s.buffered.length + chunk.length ≤ maxBytes) :
    drainLoop agentId maxBytes kind fails s (chunk :: chunks) =
      drainLoop agentId maxBytes kind fails
        (chunk.foldl (takeByte agentId kind) { s with buffered := s.buffered ++ chunk }) chunks := by
  rw [drainLoop, if_neg (by omega), if_neg fun hlt => absurd ((lt_saturatingAdd_iff hcount).mp hlt) (by omega)]

/-- More than the cap, in whatever chunks. -/
theorem drainLoop_tooLarge (hproper : ∀ chunk ∈ chunks, 0 < chunk.length) (hs : s.Waits)
    (hcount : Countable maxBytes (s.buffered.length + chunks.flatten.length)) (hbelow : s.buffered.length ≤ maxBytes)
    (hlarge : maxBytes < s.buffered.length + chunks.flatten.length) :
    (drainLoop agentId maxBytes kind fails s chunks).2 = .error (.outputTooLarge maxBytes) := by
  induction chunks generalizing s with
  | nil => exact absurd hlarge (Nat.not_lt.mpr hbelow)
  | cons chunk chunks ih =>
    have hchunk := hproper chunk List.mem_cons_self
    rw [List.flatten_cons, List.length_append, ← Nat.add_assoc] at hcount hlarge
    have hfirst := hcount.mono (Nat.le_add_right _ _)
    by_cases h : maxBytes < s.buffered.length + chunk.length
    · rw [drainLoop_stop agentId kind hchunk hfirst h]
    · have hnext : ({ s with buffered := s.buffered ++ chunk } : Drain).Waits := hs
      have htakes := takesChunk_foldl agentId kind hnext chunk
      have hlength := congrArg List.length htakes.buffered
      rw [List.length_append] at hlength
      rw [drainLoop_go agentId kind hchunk hfirst (Nat.not_lt.mp h)]
      refine ih (fun c hc => hproper c (List.mem_cons_of_mem chunk hc)) htakes.waits ?_ ?_ ?_
      all_goals rw [hlength]
      exacts [hcount, Nat.not_lt.mp h, hlarge]

/-- Everything, in whatever chunks. -/
theorem drainLoop_all (hproper : ∀ chunk ∈ chunks, 0 < chunk.length) (hs : s.Waits)
    (hcount : Countable maxBytes (s.buffered.length + chunks.flatten.length))
    (hfits : s.buffered.length + chunks.flatten.length ≤ maxBytes) :
    ∃ t : Drain, drainLoop agentId maxBytes kind false s chunks = (t, .ok ()) ∧
      t.buffered = s.buffered ++ chunks.flatten ∧ t.Waits ∧
      t.linesWith agentId kind [] = s.linesWith agentId kind chunks.flatten := by
  induction chunks generalizing s with
  | nil => exact ⟨s, rfl, (List.append_nil _).symm, hs, rfl⟩
  | cons chunk chunks ih =>
    have hchunk := hproper chunk List.mem_cons_self
    rw [List.flatten_cons, List.length_append, ← Nat.add_assoc] at hcount hfits
    have hnext : ({ s with buffered := s.buffered ++ chunk } : Drain).Waits := hs
    have htakes := takesChunk_foldl agentId kind hnext chunk
    have hlength := congrArg List.length htakes.buffered
    rw [List.length_append] at hlength
    rw [drainLoop_go agentId kind hchunk (hcount.mono (Nat.le_add_right _ _)) (le_trans (Nat.le_add_right _ _) hfits)]
    obtain ⟨t, ht, hbuffered, hwaits, hlines⟩ :=
      ih (fun c hc => hproper c (List.mem_cons_of_mem chunk hc)) htakes.waits (hlength ▸ hcount) (hlength ▸ hfits)
    refine ⟨t, ht, ?_, hwaits, ?_⟩
    · rw [hbuffered, htakes.buffered, List.append_assoc, List.flatten_cons]
    · rw [hlines, htakes.lines, List.flatten_cons]
      rfl

end loop

end run

/-- **Draining a stream, without the chunks.** More octets than the cap are an error; otherwise the octets are read
as a text, and the events are their lines. -/
theorem drainStream_eq (agentId : String) (maxBytes : Nat) (kind : StreamKind) (reader : Reader)
    (hcount : Countable maxBytes reader.octets.length) :
    (maxBytes < reader.octets.length → (drainStream agentId maxBytes kind reader).2 = .error (.outputTooLarge maxBytes)) ∧
    (reader.octets.length ≤ maxBytes → reader.fails = false → drainStream agentId maxBytes kind reader =
      ((linesOf reader.octets).map (emitStreamLine agentId kind), .ok (decode reader.octets))) := by
  have hproper : ∀ chunk ∈ reader.chunks, 0 < chunk.length := fun chunk hchunk => (reader.proper chunk hchunk).1
  have hwaits : (⟨[], [], []⟩ : Drain).Waits := List.not_mem_nil
  have hzero : (⟨[], [], []⟩ : Drain).buffered.length + reader.chunks.flatten.length = reader.octets.length :=
    Nat.zero_add _
  constructor
  · intro hlarge
    have herror : (drainLoop agentId maxBytes kind reader.fails ⟨[], [], []⟩ reader.chunks).2 = _ :=
      drainLoop_tooLarge agentId kind hproper hwaits (by rwa [hzero]) (Nat.zero_le _) (lt_of_lt_of_eq hlarge hzero.symm)
    rw [drainStream]
    split
    · rename_i hloop
      rw [hloop] at herror
      exact congrArg Except.error (Except.error.inj herror)
    · rename_i hloop
      rw [hloop] at herror
      cases herror
  · intro hfits hend
    obtain ⟨t, ht, hbuffered, htwaits, hlines⟩ := drainLoop_all agentId kind hproper hwaits (by rwa [hzero])
      (le_of_eq_of_le hzero hfits)
    rw [Drain.linesWith, List.append_nil, linesOf_unterminated htwaits] at hlines
    simp only [drainStream, hend, ht, hbuffered, List.nil_append, Prod.mk.injEq]
    refine ⟨Eq.trans ?_ hlines, rfl⟩
    split_ifs
    · exact (List.append_nil _).symm
    · rfl

/-- A carriage return and its newline in two chunks. -/
def dividedReader : Reader where
  chunks := [[0x61, 0x0D], [0x0A, 0x62]]
  proper := by decide
  fails := false

theorem drainStream_eq_divided :
    drainStream "lead" 4 .stdout dividedReader =
      ([.stdout "lead" "a", .stdout "lead" "b"], .ok ['a', '\r', '\n', 'b']) :=
  (drainStream_eq "lead" 4 .stdout dividedReader (.inr (by decide))).2 (by decide) rfl

end Nerve.Adapter
