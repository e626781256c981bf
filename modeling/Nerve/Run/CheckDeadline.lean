import Nerve.Run.CheckProgress
import Nerve.Library.Utf8

/-!
# The deadline of a check

What `GoalEvaluator::evaluate` makes of a check, whatever the process does and when: it drains both streams under a
deadline and a cap each, and then waits for the process to exit, without a deadline. Time is counted from when the
evaluator begins to drain.

How much a stream has carried decides whether it exceeds the cap, and not how it is read (`exceeds_iff`). The deadline
is kept where a process whose streams have ended in time has also exited in time, or fails soon after
(`keepsDeadline_iff`).
-/

namespace Nerve.Run.GoalEvaluator

open Text Utf8

/-! ### What a process does -/

/-- Nanoseconds. -/
abbrev Tick := Nat

/-- A read that gives something. -/
structure PipeRead where
  time : Tick
  chunk : List UInt8

/-- What the reads of a stream give, and when: chunks, and perhaps the end or an error some time after. No more is
read of a stream that has passed the cap, so that finitely many reads are enough. -/
structure Pipe where
  reads : List PipeRead
  closes : Option Tick
  proper : ∀ r ∈ reads, 0 < r.chunk.length
  ordered : reads.Pairwise fun r r' => r.time ≤ r'.time
  last : ∀ t ∈ closes, ∀ r ∈ reads, r.time ≤ t
  countable : (reads.map fun r => r.chunk.length).sum < 2 ^ 64

def carried (reads : List PipeRead) : Nat := (reads.map fun r => r.chunk.length).sum

def carriedBy (d : Tick) (reads : List PipeRead) : Nat := carried (reads.filter fun r => r.time ≤ d)

/-- What the check does once it runs: its streams, when it exits and what waiting for it gives, and the time that
it takes to kill and to reap it. -/
structure Behaviour where
  stdout : Pipe
  stderr : Pipe
  exit : Option (Tick × Except String ExitStatus)
  reap : Tick

/-- The check is refused, is not started because of an error, or runs. -/
inductive Launch where
  | refused (reason : String)
  | failed (error : String)
  | started (b : Behaviour)

/-! ### The evaluator -/

structure OutputCapExceeded where
  byteCap : Nat

section evaluator

variable (cap : Nat)

/-- The loop of `read_capped`: when it ends, and with what. -/
def readFrom (closes : Option Tick) :
    List UInt8 → List PipeRead → Option (Tick × Except OutputCapExceeded (List Char))
  | buf, [] => closes.map fun t => (t, .ok (decode buf))
  | buf, r :: reads =>
    if r.chunk.length = 0 then some (r.time, .ok (decode buf))
    else if cap < saturatingAdd buf.length r.chunk.length then some (r.time, .error ⟨cap⟩)
    else readFrom closes (buf ++ r.chunk) reads

def readCapped : Option Pipe → Option (Tick × Except OutputCapExceeded (List Char))
  | none => some (0, .ok [])
  | some reader => readFrom cap reader.closes [] reader.reads

/-- `tokio::join!`. -/
def join {α β : Type} (a : Option (Tick × α)) (b : Option (Tick × β)) : Option (Tick × α × β) := do
  let (t, x) ← a
  let (u, y) ← b
  pure (max t u, x, y)

/-- `tokio::time::timeout`: what is ready by then. -/
def timeout {α : Type} (duration : Tick) (future : Option (Tick × α)) : Option (Tick × α) :=
  future.filter fun ready => ready.1 ≤ duration

/-- `tail_for_reason`: the last 512 bytes at most, from where a character begins. -/
def tailWithin : List Char → List Char
  | [] => []
  | c :: s => if ((c :: s).map Char.utf8Size).sum ≤ 512 then c :: s else tailWithin s

def tailForReason (text : List Char) : List Char :=
  let trimmed := (text.reverse.dropWhile fun c => c == '\n' || c == '\r').reverse
  tailWithin trimmed

/-- What is made of the exit status and of the two streams. -/
def verdict (status : ExitStatus) (stdoutRes stderrRes : Except OutputCapExceeded (List Char)) : CheckResult :=
  match stdoutRes, stderrRes with
  | .error e, _ => .fail s!"stdout exceeded {e.byteCap} bytes" none
  | .ok _, .error e => .fail s!"stderr exceeded {e.byteCap} bytes" none
  | .ok stdoutText, .ok stderrText =>
    if status.success then .pass
    else
      let tail := tailForReason stderrText
      let reason :=
        if tail.isEmpty then s!"check_cmd exited with status {status.toText}"
        else s!"status {status.toText}: {String.ofList tail}"
      let progress := pessimistic (parseProgressIn stdoutText) (parseProgressIn stderrText)
      .fail reason progress

variable (timeoutSecs : Nat)

/-- `Duration::from_secs`. -/
def deadline : Tick := timeoutSecs * 10 ^ 9

variable (ranUnconfined : Bool)

/-- `spawn_and_wait`, with when it returns, if it does. -/
def spawnAndWait : Launch → Option (Tick × Except String CheckOutcome)
  | .refused reason => some (0, .ok ⟨.fail reason none, ranUnconfined⟩)
  | .failed error => some (0, .error error)
  | .started b =>
    let drain := join (readCapped cap (some b.stdout)) (readCapped cap (some b.stderr))
    match timeout (deadline timeoutSecs) drain with
    | none =>
      let reason := s!"timeout after {timeoutSecs}s"
      some (deadline timeoutSecs + b.reap, .ok ⟨.fail reason none, ranUnconfined⟩)
    | some (drainedAt, stdoutRes, stderrRes) =>
      match b.exit with
      | none => none
      | some (exitsAt, .error err) =>
        some (max drainedAt exitsAt, .ok ⟨.fail s!"failed to await check_cmd: {err}" none, ranUnconfined⟩)
      | some (exitsAt, .ok status) =>
        some (max drainedAt exitsAt, .ok ⟨verdict status stdoutRes stderrRes, ranUnconfined⟩)

/-- `evaluate`. A check that did not run did not run unconfined. -/
def evaluate (launch : Launch) : Option (Tick × CheckOutcome) :=
  (spawnAndWait cap timeoutSecs ranUnconfined launch).map fun (t, outcome) =>
    match outcome with
    | .ok outcome => (t, outcome)
    | .error err => (t, ⟨.fail err none, false⟩)

/-! ### What the deadline is to cover -/

/-- The process exited with code 0 in time, and no stream carried more than the cap. -/
structure Passes (b : Behaviour) : Prop where
  exited : ∃ t ≤ deadline timeoutSecs, ∃ status, b.exit = some (t, .ok status) ∧ status.success = true
  stdout : carried b.stdout.reads ≤ cap
  stderr : carried b.stderr.reads ≤ cap

def Launch.reap : Launch → Tick
  | .started b => b.reap
  | _ => 0

/-- The check passes only as it should, otherwise it fails, and the answer is there in time. -/
structure KeepsDeadline (launch : Launch) : Prop where
  returns : ∃ t outcome, evaluate cap timeoutSecs ranUnconfined launch = some (t, outcome) ∧
    t ≤ deadline timeoutSecs + launch.reap ∧
    (outcome.result = .pass ∧ (∃ b, launch = .started b ∧ Passes cap timeoutSecs b) ∨
      ∃ reason progress, outcome.result = .fail reason progress)

/-- The stream is at its end by then, or it has carried more than the cap. -/
def Pipe.EndedBy (d : Tick) (p : Pipe) : Prop := (∃ t ∈ p.closes, t ≤ d) ∨ cap < carriedBy d p.reads

/-- The process fails, by its exit or by what it writes. -/
def Fails (b : Behaviour) (result : Except String ExitStatus) : Prop :=
  (∀ status, result = .ok status → status.success = false) ∨ cap < carried b.stdout.reads ∨ cap < carried b.stderr.reads

/-- A process whose streams have ended by the deadline has exited by then, or exits in the time it would take to kill
it, and fails. -/
def ExitsInTime (launch : Launch) : Prop :=
  ∀ b, launch = .started b → b.stdout.EndedBy cap (deadline timeoutSecs) → b.stderr.EndedBy cap (deadline timeoutSecs) →
    ∃ t result, b.exit = some (t, result) ∧
      (t ≤ deadline timeoutSecs ∨ t ≤ deadline timeoutSecs + b.reap ∧ Fails cap b result)

end evaluator

/-! ### Draining -/

section draining

variable {cap : Nat} {d : Tick} {closes : Option Tick} {buf : List UInt8} {reads : List PipeRead}

theorem carried_cons (r : PipeRead) (reads : List PipeRead) : carried (r :: reads) = r.chunk.length + carried reads := rfl

theorem carriedBy_cons (r : PipeRead) (reads : List PipeRead) :
    carriedBy d (r :: reads) = (if r.time ≤ d then r.chunk.length else 0) + carriedBy d reads := by
  rw [carriedBy, List.filter_cons]
  by_cases h : r.time ≤ d
  · rw [if_pos (decide_eq_true h), if_pos h]
    rfl
  · rw [if_neg (by simpa using h), if_neg h, Nat.zero_add]
    rfl

/-- Nothing is carried by a time before the first read. -/
theorem carriedBy_eq_zero (h : ∀ r ∈ reads, d < r.time) : carriedBy d reads = 0 := by
  have hnone : reads.filter (fun r => r.time ≤ d) = [] :=
    List.filter_eq_nil_iff.mpr fun r hr => by simpa using h r hr
  rw [carriedBy, hnone]
  rfl

theorem readFrom_cons_exceeds {r : PipeRead} (hproper : 0 < r.chunk.length) (hcount : buf.length + r.chunk.length < 2 ^ 64)
    (h : cap < buf.length + r.chunk.length) :
    readFrom cap closes buf (r :: reads) = some (r.time, .error ⟨cap⟩) := by
  rw [readFrom, if_neg (by omega), if_pos ((lt_saturatingAdd_iff (.inr hcount)).mpr h)]

theorem readFrom_cons_fits {r : PipeRead} (hproper : 0 < r.chunk.length) (hcount : buf.length + r.chunk.length < 2 ^ 64)
    (h : buf.length + r.chunk.length ≤ cap) :
    readFrom cap closes buf (r :: reads) = readFrom cap closes (buf ++ r.chunk) reads := by
  rw [readFrom, if_neg (by omega), if_neg fun hlt => absurd ((lt_saturatingAdd_iff (.inr hcount)).mp hlt) (by omega)]

/-- A stream that carries more than the cap. -/
theorem readFrom_exceeds (hproper : ∀ r ∈ reads, 0 < r.chunk.length) (hcount : buf.length + carried reads < 2 ^ 64)
    (hbuf : buf.length ≤ cap) (h : cap < buf.length + carried reads) :
    ∃ t, readFrom cap closes buf reads = some (t, .error ⟨cap⟩) := by
  induction reads generalizing buf with
  | nil => exact absurd h (Nat.not_lt.mpr hbuf)
  | cons r reads ih =>
    have hr := hproper r List.mem_cons_self
    rw [carried_cons, ← Nat.add_assoc] at hcount h
    by_cases hfits : buf.length + r.chunk.length ≤ cap
    · rw [readFrom_cons_fits hr (by omega) hfits]
      refine ih (fun q hq => hproper q (List.mem_cons_of_mem r hq)) ?_ ?_ ?_
      all_goals rwa [List.length_append]
    · exact ⟨r.time, readFrom_cons_exceeds hr (by omega) (Nat.not_le.mp hfits)⟩

/-- A stream that carries no more. -/
theorem readFrom_fits (hproper : ∀ r ∈ reads, 0 < r.chunk.length) (hcount : buf.length + carried reads < 2 ^ 64)
    (h : buf.length + carried reads ≤ cap) :
    ∃ text, readFrom cap closes buf reads = closes.map fun t => (t, .ok text) := by
  induction reads generalizing buf with
  | nil => exact ⟨_, rfl⟩
  | cons r reads ih =>
    rw [carried_cons, ← Nat.add_assoc] at hcount h
    rw [readFrom_cons_fits (hproper r List.mem_cons_self) (by omega) (by omega)]
    refine ih (fun q hq => hproper q (List.mem_cons_of_mem r hq)) ?_ ?_
    all_goals rwa [List.length_append]

/-- When a stream has been read. -/
theorem readFrom_by (hproper : ∀ r ∈ reads, 0 < r.chunk.length) (hordered : reads.Pairwise fun r r' => r.time ≤ r'.time)
    (hlast : ∀ t ∈ closes, ∀ r ∈ reads, r.time ≤ t) (hcount : buf.length + carried reads < 2 ^ 64)
    (hbuf : buf.length ≤ cap) :
    (∃ ready ∈ readFrom cap closes buf reads, ready.1 ≤ d) ↔
      (∃ t ∈ closes, t ≤ d) ∨ cap < buf.length + carriedBy d reads := by
  induction reads generalizing buf with
  | nil =>
    have hnever : ¬cap < buf.length + carriedBy d [] := Nat.not_lt.mpr hbuf
    cases closes with
    | none => simp [readFrom, hnever]
    | some t => simp [readFrom, hnever]
  | cons r reads ih =>
    have hr := hproper r List.mem_cons_self
    obtain ⟨hafter, hordered⟩ := List.pairwise_cons.mp hordered
    have hnone : ¬r.time ≤ d → carriedBy d reads = 0 := fun hlate =>
      carriedBy_eq_zero fun q hq => lt_of_lt_of_le (Nat.not_le.mp hlate) (hafter q hq)
    have hearly : (∃ t ∈ closes, t ≤ d) → r.time ≤ d := fun ⟨t, ht, hle⟩ =>
      le_trans (hlast t ht r List.mem_cons_self) hle
    rw [carried_cons, ← Nat.add_assoc] at hcount
    rw [carriedBy_cons]
    by_cases hfits : buf.length + r.chunk.length ≤ cap
    · rw [readFrom_cons_fits hr (by omega) hfits, ih (fun q hq => hproper q (List.mem_cons_of_mem r hq)) hordered
        (fun t ht q hq => hlast t ht q (List.mem_cons_of_mem r hq)) (by rwa [List.length_append])
        (by rwa [List.length_append]), List.length_append]
      refine or_congr_right ?_
      split_ifs with hlate
      · omega
      · have := hnone hlate
        omega
    · rw [readFrom_cons_exceeds hr (by omega) (Nat.not_le.mp hfits)]
      simp only [Option.mem_some_iff, exists_eq_left']
      constructor
      · intro hle
        rw [if_pos hle]
        exact .inr (by omega)
      · rintro (hclosed | hcarried)
        · exact hearly hclosed
        · by_contra hlate
          rw [if_neg hlate, hnone hlate] at hcarried
          omega

/-- When a stream has been drained. -/
theorem endedBy_iff (p : Pipe) : (∃ ready ∈ readCapped cap (some p), ready.1 ≤ d) ↔ p.EndedBy cap d := by
  have hcount : ([] : List UInt8).length + carried p.reads < 2 ^ 64 := lt_of_eq_of_lt (Nat.zero_add _) p.countable
  have hread : (∃ ready ∈ readFrom cap p.closes [] p.reads, ready.1 ≤ d) ↔ _ :=
    readFrom_by p.proper p.ordered p.last hcount (Nat.zero_le _)
  rw [List.length_nil, Nat.zero_add] at hread
  exact hread

/-- What draining a stream gives, by what the stream has carried. -/
theorem readCapped_cases (p : Pipe) :
    cap < carried p.reads ∧ (∃ t, readCapped cap (some p) = some (t, .error ⟨cap⟩)) ∨
    carried p.reads ≤ cap ∧ ∃ text, readCapped cap (some p) = p.closes.map fun t => (t, .ok text) := by
  have hzero : ([] : List UInt8).length + carried p.reads = carried p.reads := Nat.zero_add _
  have hcount : ([] : List UInt8).length + carried p.reads < 2 ^ 64 := lt_of_eq_of_lt hzero p.countable
  obtain h | h := Nat.lt_or_ge cap (carried p.reads)
  · exact .inl ⟨h, readFrom_exceeds p.proper hcount (Nat.zero_le _) (lt_of_lt_of_eq h hzero.symm)⟩
  · exact .inr ⟨h, readFrom_fits p.proper hcount (le_of_eq_of_le hzero h)⟩

/-- **A stream exceeds the cap by what it carries, however it is read.** -/
theorem exceeds_iff (p : Pipe) : (∃ t e, readCapped cap (some p) = some (t, .error e)) ↔ cap < carried p.reads := by
  obtain ⟨h, t, hread⟩ | ⟨h, text, hread⟩ := readCapped_cases p
  · exact iff_of_true ⟨t, _, hread⟩ h
  · refine iff_of_false ?_ (Nat.not_lt.mpr h)
    rintro ⟨t, e, heq⟩
    rw [hread, Option.map_eq_some_iff] at heq
    obtain ⟨u, -, hu⟩ := heq
    cases hu

theorem carried_of_ok {p : Pipe} {t : Tick} {text : List Char} (h : readCapped cap (some p) = some (t, .ok text)) :
    carried p.reads ≤ cap := by
  obtain ⟨-, u, hread⟩ | ⟨hle, -⟩ := readCapped_cases p
  · rw [hread] at h
    cases h
  · exact hle

theorem carried_of_error {p : Pipe} {t : Tick} {e : OutputCapExceeded}
    (h : readCapped cap (some p) = some (t, .error e)) : cap < carried p.reads :=
  (exceeds_iff p).mp ⟨t, e, h⟩

end draining

/-! ### Waiting -/

section waiting

variable {cap timeoutSecs : Nat} (ranUnconfined : Bool) {b : Behaviour} {d : Tick}

theorem timeout_join_some {α β : Type} {x : Option (Tick × α)} {y : Option (Tick × β)} {t u : Tick} {v : α} {w : β}
    (hx : x = some (t, v)) (hy : y = some (u, w)) (ht : t ≤ d) (hu : u ≤ d) :
    timeout d (join x y) = some (max t u, v, w) := by
  rw [hx, hy]
  exact Option.filter_some_pos (decide_eq_true (max_le ht hu))

theorem timeout_join_none {α β : Type} {x : Option (Tick × α)} {y : Option (Tick × β)}
    (h : ¬((∃ ready ∈ x, ready.1 ≤ d) ∧ ∃ ready ∈ y, ready.1 ≤ d)) : timeout d (join x y) = none := by
  rw [timeout, Option.filter_eq_none_iff]
  intro ready hready hle
  obtain ⟨⟨t, v⟩, hx, hready⟩ := Option.bind_eq_some_iff.mp hready
  obtain ⟨⟨u, w⟩, hy, hready⟩ := Option.bind_eq_some_iff.mp hready
  cases hready
  have hle := of_decide_eq_true hle
  exact h ⟨⟨_, hx, le_trans (le_max_left t u) hle⟩, ⟨_, hy, le_trans (le_max_right t u) hle⟩⟩

/-- A verdict, by the status and by what the streams carried. -/
theorem verdict_cases {status : ExitStatus} {t u : Tick} {x y : Except OutputCapExceeded (List Char)}
    (hx : readCapped cap (some b.stdout) = some (t, x)) (hy : readCapped cap (some b.stderr) = some (u, y)) :
    verdict status x y = .pass ∧ status.success = true ∧ carried b.stdout.reads ≤ cap ∧ carried b.stderr.reads ≤ cap ∨
    (∃ reason progress, verdict status x y = .fail reason progress) ∧ Fails cap b (.ok status) := by
  cases x with
  | error e => exact .inr ⟨⟨_, _, rfl⟩, .inr (.inl (carried_of_error hx))⟩
  | ok stdoutText =>
    cases y with
    | error e => exact .inr ⟨⟨_, _, rfl⟩, .inr (.inr (carried_of_error hy))⟩
    | ok stderrText =>
      rw [verdict]
      by_cases hsuccess : status.success = true
      · exact .inl ⟨if_pos hsuccess, hsuccess, carried_of_ok hx, carried_of_ok hy⟩
      · rw [if_neg hsuccess]
        refine .inr ⟨⟨_, _, rfl⟩, .inl fun other hother => ?_⟩
        rw [← Except.ok.inj hother]
        exact Bool.eq_false_iff.mpr hsuccess

/-- The streams have not ended by the deadline. -/
theorem evaluate_timeout (h : ¬(b.stdout.EndedBy cap (deadline timeoutSecs) ∧ b.stderr.EndedBy cap (deadline timeoutSecs))) :
    ∃ reason, evaluate cap timeoutSecs ranUnconfined (.started b) =
      some (deadline timeoutSecs + b.reap, ⟨.fail reason none, ranUnconfined⟩) := by
  rw [← endedBy_iff, ← endedBy_iff] at h
  refine ⟨s!"timeout after {timeoutSecs}s", ?_⟩
  simp only [evaluate, spawnAndWait, timeout_join_none h]
  rfl

/-- They have, and what is answered then is up to when the process exits. -/
theorem evaluate_drained (hout : b.stdout.EndedBy cap (deadline timeoutSecs))
    (herr : b.stderr.EndedBy cap (deadline timeoutSecs)) :
    ∃ drainedAt ≤ deadline timeoutSecs, ∃ result : Except String ExitStatus → CheckResult,
      evaluate cap timeoutSecs ranUnconfined (.started b) =
        b.exit.map (fun exits => (max drainedAt exits.1, ⟨result exits.2, ranUnconfined⟩)) ∧
      ∀ exits, result exits = .pass ∧ ¬Fails cap b exits ∨
        (∃ reason progress, result exits = .fail reason progress) ∧ Fails cap b exits := by
  obtain ⟨⟨t, x⟩, hx, ht⟩ := (endedBy_iff b.stdout).mpr hout
  obtain ⟨⟨u, y⟩, hy, hu⟩ := (endedBy_iff b.stderr).mpr herr
  refine ⟨max t u, max_le ht hu, fun exits => match exits with
    | .ok status => verdict status x y
    | .error err => .fail s!"failed to await check_cmd: {err}" none, ?_, fun exits => ?_⟩
  · simp only [evaluate, spawnAndWait, timeout_join_some hx hy ht hu]
    rcases b.exit with _ | ⟨exitsAt, err | status⟩ <;> rfl
  · cases exits with
    | error err => exact .inr ⟨⟨_, _, rfl⟩, .inl fun status hstatus => by cases hstatus⟩
    | ok status =>
      refine (verdict_cases hx hy).imp_left fun ⟨hpass, hsuccess, hout, herr⟩ => ⟨hpass, ?_⟩
      rintro (hfails | hmany | hmany)
      · rw [hfails status rfl] at hsuccess
        cases hsuccess
      all_goals omega

theorem passes_of_not_fails {t : Tick} {exits : Except String ExitStatus} (hexit : b.exit = some (t, exits))
    (ht : t ≤ deadline timeoutSecs) (h : ¬Fails cap b exits) : Passes cap timeoutSecs b := by
  rw [Fails, not_or, not_or, not_lt, not_lt] at h
  obtain ⟨hstatus, hout, herr⟩ := h
  push Not at hstatus
  obtain ⟨status, rfl, hsuccess⟩ := hstatus
  exact ⟨⟨t, ht, status, hexit, by simpa using hsuccess⟩, hout, herr⟩

/-- Where the streams have ended, the deadline is kept if the process exits in time, or fails soon after. -/
theorem keepsDeadline_drained (hout : b.stdout.EndedBy cap (deadline timeoutSecs))
    (herr : b.stderr.EndedBy cap (deadline timeoutSecs)) :
    KeepsDeadline cap timeoutSecs ranUnconfined (.started b) ↔ ∃ t exits, b.exit = some (t, exits) ∧
      (t ≤ deadline timeoutSecs ∨ t ≤ deadline timeoutSecs + b.reap ∧ Fails cap b exits) := by
  obtain ⟨drainedAt, hdrained, result, heval, hresult⟩ := evaluate_drained ranUnconfined hout herr
  constructor
  · rintro ⟨t, outcome, hreturns, hintime, hanswer⟩
    rw [heval] at hreturns
    obtain ⟨⟨exitsAt, exits⟩, hexit, hreturns⟩ := Option.map_eq_some_iff.mp hreturns
    cases hreturns
    refine ⟨exitsAt, exits, hexit, ?_⟩
    obtain ⟨hpass, b', hb, hpasses⟩ | ⟨reason, progress, hfail⟩ := hanswer
    · cases hb
      obtain ⟨u, hu, status, hstatus, -⟩ := hpasses.exited
      rw [hexit] at hstatus
      cases hstatus
      exact .inl hu
    · obtain ⟨hpass, -⟩ | ⟨-, hfails⟩ := hresult exits
      · cases hpass.symm.trans hfail
      · exact .inr ⟨le_trans (le_max_right _ _) hintime, hfails⟩
  · rintro ⟨exitsAt, exits, hexit, hintime⟩
    rw [hexit, Option.map_some] at heval
    refine ⟨_, _, heval, max_le (le_trans hdrained (Nat.le_add_right _ _)) ?_, ?_⟩
    · obtain hle | ⟨hle, -⟩ := hintime
      · exact le_trans hle (Nat.le_add_right _ _)
      · exact hle
    · obtain ⟨hpass, hsucceeds⟩ | ⟨hfail, -⟩ := hresult exits
      · refine .inl ⟨hpass, b, rfl, ?_⟩
        obtain hle | ⟨-, hfails⟩ := hintime
        · exact passes_of_not_fails hexit hle hsucceeds
        · exact absurd hfails hsucceeds
      · exact .inr hfail

end waiting

/-- **The deadline is kept exactly if a process whose streams end in time exits in time, or fails soon after;** and
whether a stream exceeds the cap is a matter of what it carries. -/
theorem keepsDeadline_iff (cap timeoutSecs : Nat) (ranUnconfined : Bool) (launch : Launch) :
    (KeepsDeadline cap timeoutSecs ranUnconfined launch ↔ ExitsInTime cap timeoutSecs launch) ∧
    ∀ p : Pipe, (∃ t e, readCapped cap (some p) = some (t, .error e)) ↔ cap < carried p.reads := by
  refine ⟨?_, exceeds_iff⟩
  cases launch with
  | refused reason =>
    exact iff_of_true ⟨_, _, rfl, Nat.zero_le _, .inr ⟨_, _, rfl⟩⟩ fun b hb => by cases hb
  | failed error =>
    exact iff_of_true ⟨_, _, rfl, Nat.zero_le _, .inr ⟨_, _, rfl⟩⟩ fun b hb => by cases hb
  | started b =>
    by_cases hended : b.stdout.EndedBy cap (deadline timeoutSecs) ∧ b.stderr.EndedBy cap (deadline timeoutSecs)
    · rw [keepsDeadline_drained ranUnconfined hended.1 hended.2]
      refine ⟨fun h b' hb _ _ => ?_, fun h => h b rfl hended.1 hended.2⟩
      cases hb
      exact h
    · obtain ⟨reason, heval⟩ := evaluate_timeout ranUnconfined hended
      refine iff_of_true ⟨_, _, heval, le_rfl, .inr ⟨_, _, rfl⟩⟩ fun b' hb hout herr => ?_
      cases hb
      exact absurd ⟨hout, herr⟩ hended

/-- A stream that is closed at once. -/
def closedAtOnce : Pipe where
  reads := []
  closes := some 0
  proper := List.forall_mem_nil _
  ordered := .nil
  last := fun _ _ => List.forall_mem_nil _
  countable := by decide

/-- Closes its output, sleeps for two seconds and exits with code 0. -/
def sleeper : Behaviour := ⟨closedAtOnce, closedAtOnce, some (2 * 10 ^ 9, .ok (.exited 0)), 0⟩

/-- A deadline of one second does not stop it. -/
theorem sleeper_passes_late :
    ¬ ∀ (cap timeoutSecs : Nat) (ranUnconfined : Bool) (launch : Launch), 0 < cap → 0 < timeoutSecs →
      KeepsDeadline cap timeoutSecs ranUnconfined launch := by
  intro h
  obtain ⟨t, outcome, hreturns, -, hanswer⟩ := (h 1 1 false (.started sleeper) (by decide) (by decide)).returns
  have heval : evaluate 1 1 false (.started sleeper) = some (2 * 10 ^ 9, ⟨.pass, false⟩) := rfl
  rw [heval] at hreturns
  cases hreturns
  obtain ⟨-, b, hb, hpasses⟩ | ⟨reason, progress, hfail⟩ := hanswer
  · cases hb
    obtain ⟨u, hu, status, hstatus, -⟩ := hpasses.exited
    cases hstatus
    exact absurd hu (by decide)
  · cases hfail

end Nerve.Run.GoalEvaluator
