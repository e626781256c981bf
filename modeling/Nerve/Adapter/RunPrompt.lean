import Mathlib.Algebra.BigOperators.Fin
import Mathlib.Algebra.Order.BigOperators.Group.Finset
import Nerve.Adapter.DrainStream

/-!
# A prompt and its process

`run_prompt` starts the command of an adapter, again after a while if the system cannot start it just now, drains both of
its streams under a deadline and a cap each, and waits for it to exit. `answered_iff` says exactly when this gives an
answer, and which, whatever the process does and when. `prompt_waits_iff` says exactly when it never returns, which only a
process can cause that closes its streams and stays, since the deadline covers the streams but not the exit;
and `returned_gone` that otherwise the process is gone, and when. Whoever receives the events is taken to keep taking
them, as all callers do: a channel that is full would hold up the streams, and the answer behind its last event.
-/

namespace Nerve.Adapter

open Nerve.Run Text Utf8

/-! ### Starting the command -/

/-- Nanoseconds. -/
abbrev Nanos := Nat

/-- `std::io::ErrorKind`, as far as the kinds are told apart. -/
inductive ErrorKind where
  | wouldBlock
  | outOfMemory
  | executableFileBusy
  | resourceBusy
  | interrupted
  | other (name : String)

def isTransientSpawnError : ErrorKind → Bool
  | .wouldBlock | .outOfMemory | .executableFileBusy | .resourceBusy | .interrupted => true
  | .other _ => false

/-- `MAX_SPAWN_RETRIES` -/
def maxSpawnRetries : Nat := 10

/-- `SPAWN_RETRY_BACKOFF_BASE` and `SPAWN_RETRY_BACKOFF_MAX` -/
def spawnRetryBackoffBase : Nanos := 50 * 10 ^ 6

def spawnRetryBackoffMax : Nanos := 2 * 10 ^ 9

/-- `SPAWN_RETRY_SHIFT_CAP` -/
def spawnRetryShiftCap : Nat := 16

def spawnRetryBackoff (attempt : Nat) (base : Nanos) : Nanos :=
  if base = 0 then 0
  else
    let shift := min attempt spawnRetryShiftCap
    min (base * 2 ^ shift) spawnRetryBackoffMax

/-- `spawn_with_retry`, with so many retries left: what it gives, and how long it sleeps in between. -/
def spawnWithRetry {β : Type} (spawn : Nat → Except ErrorKind β) (base : Nanos) :
    Nat → Nat → Except ErrorKind β × List Nanos
  | 0, attempt => (spawn attempt, [])
  | left + 1, attempt =>
    match spawn attempt with
    | .ok value => (.ok value, [])
    | .error err =>
      if isTransientSpawnError err then
        let (result, slept) := spawnWithRetry spawn base left (attempt + 1)
        (result, spawnRetryBackoff attempt base :: slept)
      else (.error err, [])

/-- `str::replace`, of a pattern that is not empty. -/
def replace (pattern replacement : List Char) : List Char → List Char
  | [] => []
  | c :: s =>
    if pattern.isPrefixOf (c :: s) then replacement ++ replace pattern replacement (s.drop (pattern.length - 1))
    else c :: replace pattern replacement s
termination_by s => s.length
decreasing_by
  · simp only [List.length_drop, List.length_cons]
    omega
  · simp

def placeholder : List Char := "{prompt}".toList

structure Command where
  program : String
  args : List (List Char)

structure SubprocessAdapter where
  id : String
  command : String
  args : List (List Char)
  timeoutSecs : Nat
  maxOutputBytes : Nat
  spawnRetries : Nat
  clamped : spawnRetries ≤ maxSpawnRetries

namespace SubprocessAdapter

def new (id command : String) (args : List (List Char)) : SubprocessAdapter :=
  ⟨id, command, args, 300, 16 * 1024 * 1024, 2, by decide⟩

def withSpawnRetries (a : SubprocessAdapter) (retries : Nat) : SubprocessAdapter :=
  { a with spawnRetries := min retries maxSpawnRetries, clamped := Nat.min_le_right .. }

def claudeCode : SubprocessAdapter :=
  new "claude-code" "claude"
    ["-p".toList, "{prompt}".toList, "--output-format".toList, "stream-json".toList, "--verbose".toList]

def codex : SubprocessAdapter :=
  new "codex" "codex" ["exec".toList, "--skip-git-repo-check".toList, "--json".toList, "{prompt}".toList]

def argv (a : SubprocessAdapter) (prompt : List Char) : Command := ⟨a.command, a.args.map (replace placeholder prompt)⟩

end SubprocessAdapter

/-! ### The process -/

structure TimedRead where
  time : Nanos
  chunk : List UInt8

/-- What the reads of a stream give and when, counted from the start: chunks, and perhaps the end or an error. -/
structure TimedReader where
  reads : List TimedRead
  ends : Option (Nanos × Bool)
  proper : ∀ r ∈ reads, 0 < r.chunk.length ∧ r.chunk.length ≤ 8192
  countable : (reads.map TimedRead.chunk).flatten.length < 2 ^ 64

/-- The octets, however they are cut. -/
def TimedReader.octets (reader : TimedReader) : List UInt8 := (reader.reads.map TimedRead.chunk).flatten

/-- What a process does once it runs: its streams, when it exits and what waiting for it gives, and the time it takes to
kill and to reap it. -/
structure Process where
  stdout : TimedReader
  stderr : TimedReader
  exit : Option (Nanos × Except String ExitStatus)
  reap : Nanos

/-- `tokio::try_join!`: the first error, or both values. -/
def tryJoin {ε α β : Type} : Option (Nanos × Except ε α) → Option (Nanos × Except ε β) → Option (Nanos × Except ε (α × β))
  | some (t, .error e), some (u, .error e') => if t ≤ u then some (t, .error e) else some (u, .error e')
  | some (t, .error e), _ => some (t, .error e)
  | _, some (u, .error e) => some (u, .error e)
  | some (t, .ok x), some (u, .ok y) => some (max t u, .ok (x, y))
  | _, _ => none

/-- `tokio::time::timeout`: what is ready by then. -/
def timeout {α : Type} (duration : Nanos) (future : Option (Nanos × α)) : Option (Nanos × α) :=
  future.filter fun ready => ready.1 ≤ duration

inductive PromptError where
  | spawn (kind : ErrorKind) (context : String)
  | drain (e : AdapterError)
  | timeout (secs : Nat)
  | await (error context : String)
  | status (message : String)

/-- What becomes of a process: it has exited, or it is killed. -/
inductive Fate where
  | exited
  | killed
  deriving DecidableEq

inductive Ending where
  | notStarted (e : PromptError)
  | returned (t : Nanos) (result : Except PromptError (List Char)) (fate : Fate)
  /-- It waits for the process to exit, and this never happens. -/
  | waits

structure Prompted where
  slept : List Nanos
  ending : Ending

section prompting

variable (a : SubprocessAdapter)

/-- The loop of `drain_stream` over the reads, and when it ends. -/
def drainTimed (kind : StreamKind) (ends : Option (Nanos × Bool)) :
    Drain → List TimedRead → Option (Nanos × Drain × Except AdapterError Unit)
  | s, [] => ends.map fun (t, fails) => (t, s, if fails then .error (.read kind a.id) else .ok ())
  | s, r :: reads =>
    if r.chunk.length = 0 then some (r.time, s, .ok ())
    else if a.maxOutputBytes < saturatingAdd s.buffered.length r.chunk.length then
      some (r.time, s, .error (.outputTooLarge a.maxOutputBytes))
    else drainTimed kind ends (r.chunk.foldl (takeByte a.id kind) { s with buffered := s.buffered ++ r.chunk }) reads

def drain (kind : StreamKind) (reader : TimedReader) : Option (Nanos × Except AdapterError (List Char)) :=
  (drainTimed a kind reader.ends ⟨[], [], []⟩ reader.reads).map fun (t, s, result) =>
    (t, result.map fun () => decode s.buffered)

/-- `Duration::from_secs(self.timeout_secs)` -/
def SubprocessAdapter.deadline : Nanos := a.timeoutSecs * 10 ^ 9

/-- The rest of `run_prompt`, once the process runs. Whoever drops a process kills it. -/
def runProcess (p : Process) : Ending :=
  match timeout a.deadline (tryJoin (drain a .stdout p.stdout) (drain a .stderr p.stderr)) with
  | some (drainedAt, .ok (stdout, stderr)) =>
    match p.exit with
    | none => .waits
    | some (exitsAt, .error err) =>
      .returned (max drainedAt exitsAt) (.error (.await err s!"failed to await `{a.id}` adapter exit status")) .killed
    | some (exitsAt, .ok status) =>
      let result : Except PromptError (List Char) :=
        if !status.success then
          .error (.status s!"adapter `{a.id}` exited with status {status.toText}: {String.ofList (trim stderr)}")
        else .ok stdout
      .returned (max drainedAt exitsAt) result .exited
  | some (drainedAt, .error e) => .returned (drainedAt + p.reap) (.error (.drain e)) .killed
  | none => .returned (a.deadline + p.reap) (.error (.timeout a.timeoutSecs)) .killed

def runPrompt (prompt : List Char) (spawn : Command → Nat → Except ErrorKind Process) : Prompted :=
  let (result, slept) := spawnWithRetry (spawn (a.argv prompt)) spawnRetryBackoffBase a.spawnRetries 0
  let ending :=
    match result with
    | .error kind => .notStarted (.spawn kind s!"failed to spawn `{a.id}` adapter after {a.spawnRetries + 1} attempt(s)")
    | .ok p => runProcess a p
  ⟨slept, ending⟩

end prompting

/-! ### The command line -/

section replacing

variable {pattern replacement s : List Char}

/-- Where the pattern is nowhere, nothing changes. -/
theorem replace_of_not_infix (h : ¬pattern <:+: s) : replace pattern replacement s = s := by
  induction s with
  | nil => rw [replace]
  | cons c s ih =>
    have hprefix : ¬pattern <+: c :: s := fun hp => h hp.isInfix
    rw [replace, if_neg (by simpa using hprefix), ih fun hs => h (hs.trans (List.suffix_cons c s).isInfix)]

/-- Where the pattern is all, the replacement is all. -/
theorem replace_self (hpattern : pattern ≠ []) : replace pattern replacement pattern = replacement := by
  obtain ⟨c, s, rfl⟩ := List.exists_cons_of_ne_nil hpattern
  rw [replace, if_pos (by simp), List.length_cons, Nat.add_sub_cancel, List.drop_length, replace, List.append_nil]

end replacing

/-- **The prompt is one argument**, as it is, whatever is in it. -/
theorem argv_eq {a : SubprocessAdapter} (h : ∀ arg ∈ a.args, arg = placeholder ∨ before placeholder arg = none)
    (prompt : List Char) : a.argv prompt = ⟨a.command, a.args.map fun arg => if arg = placeholder then prompt else arg⟩ := by
  refine congrArg (Command.mk a.command) (List.map_congr_left fun arg harg => ?_)
  obtain rfl | hnone := h arg harg
  · rw [if_pos rfl]
    exact replace_self (by decide)
  · have hinfix : ¬placeholder <:+: arg := fun hinfix => by
      have hsome := before_isSome_iff.mpr hinfix
      simp [hnone] at hsome
    have hne : arg ≠ placeholder := by
      rintro rfl
      exact hinfix (List.infix_refl _)
    rw [if_neg hne, replace_of_not_infix hinfix]

example (prompt : List Char) : (SubprocessAdapter.claudeCode.argv prompt).args =
    ["-p".toList, prompt, "--output-format".toList, "stream-json".toList, "--verbose".toList] :=
  congrArg Command.args (argv_eq (by decide) prompt)

example (prompt : List Char) : (SubprocessAdapter.codex.argv prompt).args =
    ["exec".toList, "--skip-git-repo-check".toList, "--json".toList, prompt] :=
  congrArg Command.args (argv_eq (by decide) prompt)

/-! ### Retries -/

section retrying

variable {β : Type} {spawn : Nat → Except ErrorKind β} {base : Nanos} {left attempt : Nat}

/-- All attempts from the one to the other fail, and for now only. -/
def Transient (spawn : Nat → Except ErrorKind β) (first last : Nat) : Prop :=
  ∀ m, first ≤ m → m < last → ∃ e, spawn m = .error e ∧ isTransientSpawnError e = true

/-- **What is started is what the first attempt starts that does not fail for now**, if it is not too late. -/
theorem spawnWithRetry_ok_iff {value : β} : (spawnWithRetry spawn base left attempt).1 = .ok value ↔
    ∃ n, attempt ≤ n ∧ n ≤ attempt + left ∧ Transient spawn attempt n ∧ spawn n = .ok value := by
  induction left generalizing attempt with
  | zero =>
    constructor
    · exact fun h => ⟨attempt, le_rfl, le_rfl, fun m hm hlt => absurd hm (by omega), h⟩
    · rintro ⟨n, hle, hge, -, h⟩
      obtain rfl : n = attempt := by omega
      exact h
  | succ left ih =>
    rw [spawnWithRetry]
    cases hspawn : spawn attempt with
    | ok value' =>
      constructor
      · intro h
        exact ⟨attempt, le_rfl, by omega, fun m hm hlt => absurd hm (by omega), hspawn.trans h⟩
      · rintro ⟨n, hle, -, htransient, h⟩
        obtain rfl | hlt := Nat.eq_or_lt_of_le hle
        · exact hspawn.symm.trans h
        · obtain ⟨e, he, -⟩ := htransient attempt le_rfl hlt
          rw [hspawn] at he
          cases he
    | error e =>
      dsimp only
      split_ifs with he
      · refine ih.trans ⟨?_, ?_⟩
        · rintro ⟨n, hle, hge, htransient, h⟩
          refine ⟨n, by omega, by omega, fun m hm hlt => ?_, h⟩
          obtain rfl | hnext := Nat.eq_or_lt_of_le hm
          · exact ⟨e, hspawn, he⟩
          · exact htransient m hnext hlt
        · rintro ⟨n, hle, hge, htransient, h⟩
          obtain rfl | hlt := Nat.eq_or_lt_of_le hle
          · rw [hspawn] at h
            cases h
          · exact ⟨n, hlt, by omega, fun m hm => htransient m (by omega), h⟩
      · constructor
        · intro h
          cases h
        · rintro ⟨n, hle, -, htransient, h⟩
          obtain rfl | hlt := Nat.eq_or_lt_of_le hle
          · rw [hspawn] at h
            cases h
          · obtain ⟨e', he', htrue⟩ := htransient attempt le_rfl hlt
            rw [hspawn] at he'
            cases he'
            exact absurd htrue he

/-- It sleeps no longer than the backoffs of the attempts. -/
theorem sum_slept_le : (spawnWithRetry spawn base left attempt).2.sum ≤
    ∑ m ∈ Finset.range left, spawnRetryBackoff (attempt + m) base := by
  induction left generalizing attempt with
  | zero => exact le_rfl
  | succ left ih =>
    rw [Finset.sum_range_succ', Nat.add_zero, spawnWithRetry]
    cases spawn attempt with
    | ok value => exact Nat.zero_le _
    | error e =>
      dsimp only
      split_ifs
      · rw [List.sum_cons, Nat.add_comm]
        refine Nat.add_le_add_right (ih.trans (le_of_eq (Finset.sum_congr rfl fun m _ => ?_))) _
        rw [Nat.add_assoc, Nat.add_comm 1 m]
      · exact Nat.zero_le _

end retrying

/-- **Starting the command takes no longer than the retries allow**, which is some eleven seconds. -/
theorem sum_slept_runPrompt_le (a : SubprocessAdapter) (prompt : List Char)
    (spawn : Command → Nat → Except ErrorKind Process) : (runPrompt a prompt spawn).slept.sum ≤ 11150 * 10 ^ 6 := by
  refine sum_slept_le.trans ?_
  refine (Finset.sum_le_sum_of_subset (Finset.range_subset_range.mpr a.clamped)).trans ?_
  decide

/-! ### Draining in time -/

section draining

variable {a : SubprocessAdapter} {kind : StreamKind} {ends : Option (Nanos × Bool)} {s : Drain} {reads : List TimedRead}

def chunksOf (reads : List TimedRead) : List UInt8 := (reads.map TimedRead.chunk).flatten

theorem chunksOf_cons (r : TimedRead) (reads : List TimedRead) : chunksOf (r :: reads) = r.chunk ++ chunksOf reads := rfl

/-- The times aside, it is the loop of `drain_stream`. -/
theorem drainTimed_drainLoop {t : Nanos} {fails : Bool} : (drainTimed a kind (some (t, fails)) s reads).map Prod.snd =
    some (drainLoop a.id a.maxOutputBytes kind fails s (reads.map TimedRead.chunk)) := by
  induction reads generalizing s with
  | nil => rfl
  | cons r reads ih =>
    rw [drainTimed, List.map_cons, drainLoop]
    split_ifs
    · rfl
    · rfl
    · exact ih

/-- A stream that carries more than the cap is an error; one that does not is read to its end. -/
theorem drainTimed_cases (hproper : ∀ r ∈ reads, 0 < r.chunk.length ∧ r.chunk.length ≤ 8192) (hs : s.Waits)
    (hcount : s.buffered.length + (chunksOf reads).length < 2 ^ 64) (hbelow : s.buffered.length ≤ a.maxOutputBytes) :
    a.maxOutputBytes < s.buffered.length + (chunksOf reads).length ∧
        (∃ t s' e, drainTimed a kind ends s reads = some (t, s', .error e)) ∨
      s.buffered.length + (chunksOf reads).length ≤ a.maxOutputBytes ∧
        ∃ s' : Drain, s'.buffered = s.buffered ++ chunksOf reads ∧ drainTimed a kind ends s reads =
          ends.map fun (t, fails) => (t, s', if fails then .error (.read kind a.id) else .ok ()) := by
  induction reads generalizing s with
  | nil => exact .inr ⟨hbelow, s, (List.append_nil _).symm, rfl⟩
  | cons r reads ih =>
    obtain ⟨⟨hr, -⟩, hproper⟩ := List.forall_mem_cons.mp hproper
    rw [chunksOf_cons, List.length_append, ← Nat.add_assoc] at hcount ⊢
    have hlt : a.maxOutputBytes < saturatingAdd s.buffered.length r.chunk.length ↔
        a.maxOutputBytes < s.buffered.length + r.chunk.length := lt_saturatingAdd_iff (.inr (by omega))
    rw [drainTimed, if_neg (by omega)]
    by_cases hlarge : a.maxOutputBytes < s.buffered.length + r.chunk.length
    · rw [if_pos (hlt.mpr hlarge)]
      exact .inl ⟨by omega, _, _, _, rfl⟩
    · have htakes := takesChunk_foldl a.id kind (s := { s with buffered := s.buffered ++ r.chunk }) hs r.chunk
      have hlength : (r.chunk.foldl (takeByte a.id kind) { s with buffered := s.buffered ++ r.chunk }).buffered.length =
          s.buffered.length + r.chunk.length := by rw [htakes.buffered, List.length_append]
      rw [if_neg fun h => hlarge (hlt.mp h)]
      have hrest := ih hproper htakes.waits (by rwa [hlength]) (by rw [hlength]; exact Nat.not_lt.mp hlarge)
      rwa [hlength, htakes.buffered, List.append_assoc] at hrest

/-- **A stream is drained** at its end, if it has an end and carries no more than the cap. -/
theorem drain_ok_iff {reader : TimedReader} {t : Nanos} {text : List Char} : drain a kind reader = some (t, .ok text) ↔
    reader.ends = some (t, false) ∧ reader.octets.length ≤ a.maxOutputBytes ∧ text = decode reader.octets := by
  have hzero : ([] : List UInt8).length + (chunksOf reader.reads).length = reader.octets.length := Nat.zero_add _
  have hcount : ([] : List UInt8).length + (chunksOf reader.reads).length < 2 ^ 64 := lt_of_eq_of_lt hzero reader.countable
  have hcases := @drainTimed_cases a kind reader.ends ⟨[], [], []⟩ reader.reads reader.proper List.not_mem_nil hcount
    (Nat.zero_le _)
  unfold drain
  obtain ⟨hlarge, u, s', e, heq⟩ | ⟨hfits, s', hbuffered, heq⟩ := hcases
  · rw [heq]
    constructor
    · intro h
      cases h
    · rintro ⟨-, hle, -⟩
      exact absurd (lt_of_lt_of_eq hlarge hzero) (Nat.not_lt.mpr hle)
  · rw [heq]
    rcases hends : reader.ends with _ | ⟨u, fails⟩
    · simp
    · have hoctets : s'.buffered = reader.octets := hbuffered
      have hle : reader.octets.length ≤ a.maxOutputBytes := le_of_eq_of_le hzero.symm hfits
      cases fails
      case true => simp [Except.map]
      case false =>
        constructor
        · intro h
          cases h
          exact ⟨rfl, hle, congrArg decode hoctets⟩
        · rintro ⟨h, -, rfl⟩
          cases h
          show some (t, Except.ok (decode s'.buffered)) = _
          rw [hoctets]

/-- The stream has its end by the deadline, and carries no more than the cap. -/
def TimedReader.EndsBy (reader : TimedReader) (a : SubprocessAdapter) : Prop :=
  ∃ t ≤ a.deadline, reader.ends = some (t, false) ∧ reader.octets.length ≤ a.maxOutputBytes

theorem tryJoin_ok_iff {ε α β : Type} {x : Option (Nanos × Except ε α)} {y : Option (Nanos × Except ε β)} {t : Nanos} {v : α}
    {w : β} : tryJoin x y = some (t, .ok (v, w)) ↔ ∃ u u', x = some (u, .ok v) ∧ y = some (u', .ok w) ∧ t = max u u' := by
  rcases x with _ | ⟨u, _ | v'⟩ <;> rcases y with _ | ⟨u', _ | w'⟩
  case some.error.some.error =>
    simp only [tryJoin]
    split_ifs <;> simp
  case some.ok.some.ok =>
    simp [tryJoin, eq_comm, and_comm, and_left_comm]
    tauto
  all_goals simp [tryJoin]

theorem timeout_eq_some {α : Type} {d t : Nanos} {future : Option (Nanos × α)} {v : α} :
    timeout d future = some (t, v) ↔ future = some (t, v) ∧ t ≤ d := by
  rw [timeout, Option.filter_eq_some_iff, decide_eq_true_eq]

/-- Both streams. -/
theorem drainedBoth_iff {p : Process} {t : Nanos} {stdout stderr : List Char} :
    timeout a.deadline (tryJoin (drain a .stdout p.stdout) (drain a .stderr p.stderr)) = some (t, .ok (stdout, stderr)) ↔
      p.stdout.EndsBy a ∧ p.stderr.EndsBy a ∧ stdout = decode p.stdout.octets ∧ stderr = decode p.stderr.octets ∧
        ∃ u u', p.stdout.ends = some (u, false) ∧ p.stderr.ends = some (u', false) ∧ t = max u u' := by
  rw [timeout_eq_some, tryJoin_ok_iff]
  constructor
  · rintro ⟨⟨u, u', hout, herr, rfl⟩, hle⟩
    obtain ⟨hends, hcap, htext⟩ := drain_ok_iff.mp hout
    obtain ⟨hends', hcap', htext'⟩ := drain_ok_iff.mp herr
    exact ⟨⟨u, (le_max_left ..).trans hle, hends, hcap⟩, ⟨u', (le_max_right ..).trans hle, hends', hcap'⟩, htext, htext',
      u, u', hends, hends', rfl⟩
  · rintro ⟨⟨u, hle, hends, hcap⟩, ⟨u', hle', hends', hcap'⟩, htext, htext', v, v', hv, hv', rfl⟩
    rw [hends] at hv
    rw [hends'] at hv'
    cases hv
    cases hv'
    exact ⟨⟨u, u', drain_ok_iff.mpr ⟨hends, hcap, htext⟩, drain_ok_iff.mpr ⟨hends', hcap', htext'⟩, rfl⟩, max_le hle hle'⟩

end draining

/-! ### What comes of a prompt -/

section prompted

variable {a : SubprocessAdapter} {prompt : List Char} {spawn : Command → Nat → Except ErrorKind Process}

/-- The process is started at the first attempt that does not fail for now. -/
def Starts (a : SubprocessAdapter) (prompt : List Char) (spawn : Command → Nat → Except ErrorKind Process) (p : Process) :
    Prop :=
  ∃ n ≤ a.spawnRetries, Transient (spawn (a.argv prompt)) 0 n ∧ spawn (a.argv prompt) n = .ok p

theorem starts_iff {p : Process} : Starts a prompt spawn p ↔
    (spawnWithRetry (spawn (a.argv prompt)) spawnRetryBackoffBase a.spawnRetries 0).1 = .ok p := by
  rw [spawnWithRetry_ok_iff]
  simp only [Starts, Nat.zero_le, true_and, Nat.zero_add]

theorem ending_of_starts {p : Process} (h : Starts a prompt spawn p) :
    (runPrompt a prompt spawn).ending = runProcess a p := by
  have hspawn := starts_iff.mp h
  simp only [runPrompt, hspawn]

theorem ending_cases (a : SubprocessAdapter) (prompt : List Char) (spawn : Command → Nat → Except ErrorKind Process) :
    (∃ e, (runPrompt a prompt spawn).ending = .notStarted e) ∨
    ∃ p, Starts a prompt spawn p ∧ (runPrompt a prompt spawn).ending = runProcess a p := by
  cases hspawn : (spawnWithRetry (spawn (a.argv prompt)) spawnRetryBackoffBase a.spawnRetries 0).1 with
  | error kind =>
    have hending : (runPrompt a prompt spawn).ending =
        .notStarted (.spawn kind s!"failed to spawn `{a.id}` adapter after {a.spawnRetries + 1} attempt(s)") := by
      simp only [runPrompt, hspawn]
    exact .inl ⟨_, hending⟩
  | ok p =>
    have hstarts := starts_iff.mpr hspawn
    exact .inr ⟨p, hstarts, ending_of_starts hstarts⟩

/-- What comes of a process whose streams are drained in time is for its exit to say. -/
theorem runProcess_of_endsBy {p : Process} (hout : p.stdout.EndsBy a) (herr : p.stderr.EndsBy a) :
    ∃ t ≤ a.deadline, runProcess a p =
      match p.exit with
      | none => .waits
      | some (exitsAt, .error err) =>
        .returned (max t exitsAt) (.error (.await err s!"failed to await `{a.id}` adapter exit status")) .killed
      | some (exitsAt, .ok status) =>
        .returned (max t exitsAt) (if !status.success then .error (.status
          s!"adapter `{a.id}` exited with status {status.toText}: {String.ofList (trim (decode p.stderr.octets))}")
          else .ok (decode p.stdout.octets)) .exited := by
  have ⟨u, hu, hends, _⟩ := hout
  have ⟨u', hu', hends', _⟩ := herr
  have hdrained := drainedBoth_iff.mpr ⟨hout, herr, rfl, rfl, u, u', hends, hends', rfl⟩
  refine ⟨max u u', max_le hu hu', ?_⟩
  rw [runProcess, hdrained]

/-- A process whose streams are not drained in time is killed. -/
theorem runProcess_of_not_endsBy {p : Process} (h : ¬(p.stdout.EndsBy a ∧ p.stderr.EndsBy a)) :
    ∃ t ≤ a.deadline + p.reap, ∃ e, runProcess a p = .returned t (.error e) .killed := by
  rw [runProcess]
  match hdrained : timeout a.deadline (tryJoin (drain a .stdout p.stdout) (drain a .stderr p.stderr)) with
  | none => exact ⟨_, le_rfl, _, rfl⟩
  | some (t, .error e) => exact ⟨_, Nat.add_le_add_right (timeout_eq_some.mp hdrained).2 _, _, rfl⟩
  | some (t, .ok (stdout, stderr)) =>
    obtain ⟨hout, herr, -⟩ := drainedBoth_iff.mp hdrained
    exact absurd ⟨hout, herr⟩ h

/-- **A prompt is answered** exactly if its process starts before the attempts run out, both of its streams end by the
deadline with no more than the cap, and it exits with success; the answer is all of its output. -/
theorem answered_iff {text : List Char} : (∃ t fate, (runPrompt a prompt spawn).ending = .returned t (.ok text) fate) ↔
    ∃ p, Starts a prompt spawn p ∧ p.stdout.EndsBy a ∧ p.stderr.EndsBy a ∧
      (∃ exitsAt status, p.exit = some (exitsAt, .ok status) ∧ status.success = true) ∧ text = decode p.stdout.octets := by
  constructor
  · rintro ⟨t, fate, h⟩
    obtain ⟨e, hending⟩ | ⟨p, hstarts, hending⟩ := ending_cases a prompt spawn
    · rw [hending] at h
      cases h
    · rw [hending] at h
      by_cases hends : p.stdout.EndsBy a ∧ p.stderr.EndsBy a
      · obtain ⟨u, -, heq⟩ := runProcess_of_endsBy hends.1 hends.2
        rw [heq] at h
        match hexit : p.exit with
        | none => simp [hexit] at h
        | some (exitsAt, .error err) => simp [hexit] at h
        | some (exitsAt, .ok status) =>
          cases hsuccess : status.success with
          | false => simp [hexit, hsuccess] at h
          | true =>
            simp [hexit, hsuccess] at h
            exact ⟨p, hstarts, hends.1, hends.2, ⟨exitsAt, status, hexit, hsuccess⟩, h.2.1.symm⟩
      · obtain ⟨u, -, e, heq⟩ := runProcess_of_not_endsBy hends
        rw [heq] at h
        cases h
  · rintro ⟨p, hstarts, hout, herr, ⟨exitsAt, status, hexit, hsuccess⟩, rfl⟩
    obtain ⟨u, -, heq⟩ := runProcess_of_endsBy hout herr
    refine ⟨max u exitsAt, .exited, ?_⟩
    rw [ending_of_starts hstarts, heq, hexit]
    simp [hsuccess]

/-- **A prompt waits for ever** exactly if its process closes its streams in time and stays: nothing bounds the wait for
the exit. -/
theorem prompt_waits_iff : (runPrompt a prompt spawn).ending = .waits ↔
    ∃ p, Starts a prompt spawn p ∧ p.stdout.EndsBy a ∧ p.stderr.EndsBy a ∧ p.exit = none := by
  constructor
  · intro h
    obtain ⟨e, hending⟩ | ⟨p, hstarts, hending⟩ := ending_cases a prompt spawn
    · rw [hending] at h
      cases h
    · rw [hending] at h
      by_cases hends : p.stdout.EndsBy a ∧ p.stderr.EndsBy a
      · obtain ⟨u, -, heq⟩ := runProcess_of_endsBy hends.1 hends.2
        rw [heq] at h
        refine ⟨p, hstarts, hends.1, hends.2, ?_⟩
        match hexit : p.exit with
        | none => rfl
        | some (exitsAt, .error err) => simp [hexit] at h
        | some (exitsAt, .ok status) => simp [hexit] at h
      · obtain ⟨u, -, e, heq⟩ := runProcess_of_not_endsBy hends
        rw [heq] at h
        cases h
  · rintro ⟨p, hstarts, hout, herr, hexit⟩
    obtain ⟨u, -, heq⟩ := runProcess_of_endsBy hout herr
    rw [ending_of_starts hstarts, heq, hexit]

/-- **Otherwise the process is gone**, at the deadline or at its own exit. -/
theorem returned_gone {t : Nanos} {result : Except PromptError (List Char)} {fate : Fate}
    (h : (runPrompt a prompt spawn).ending = .returned t result fate) : ∃ p, Starts a prompt spawn p ∧
      (fate = .killed ∧ t ≤ a.deadline + p.reap ∨
        ∃ exitsAt answer, p.exit = some (exitsAt, answer) ∧ t ≤ max a.deadline exitsAt ∧
          (fate = .exited ↔ ∃ status, answer = .ok status)) := by
  obtain ⟨e, hending⟩ | ⟨p, hstarts, hending⟩ := ending_cases a prompt spawn
  · rw [hending] at h
    cases h
  · rw [hending] at h
    refine ⟨p, hstarts, ?_⟩
    by_cases hends : p.stdout.EndsBy a ∧ p.stderr.EndsBy a
    · obtain ⟨u, hu, heq⟩ := runProcess_of_endsBy hends.1 hends.2
      rw [heq] at h
      match hexit : p.exit with
      | none => simp [hexit] at h
      | some (exitsAt, .error err) =>
        simp [hexit] at h
        obtain ⟨rfl, -, rfl⟩ := h
        exact .inr ⟨exitsAt, .error err, rfl, max_le_max_right _ hu, by simp⟩
      | some (exitsAt, .ok status) =>
        simp [hexit] at h
        obtain ⟨rfl, -, rfl⟩ := h
        exact .inr ⟨exitsAt, .ok status, rfl, max_le_max_right _ hu, by simp⟩
    · obtain ⟨u, hu, e, heq⟩ := runProcess_of_not_endsBy hends
      rw [heq] at h
      cases h
      exact .inl ⟨rfl, hu⟩

end prompted

/-- A process that says nothing and exits in time. -/
def quiet : Process where
  stdout := ⟨[], some (3, false), by decide, by decide⟩
  stderr := ⟨[], some (2, false), by decide, by decide⟩
  exit := some (5, .ok (.exited 0))
  reap := 1

theorem returned_gone_quiet : (runPrompt .codex [] fun _ _ => .ok quiet).ending = .returned 5 (.ok []) .exited ∧
    ∃ p, Starts .codex [] (fun _ _ => .ok quiet) p ∧
      (Fate.exited = .killed ∧ 5 ≤ SubprocessAdapter.codex.deadline + p.reap ∨
        ∃ exitsAt answer, p.exit = some (exitsAt, answer) ∧ 5 ≤ max SubprocessAdapter.codex.deadline exitsAt ∧
          (Fate.exited = .exited ↔ ∃ status, answer = .ok status)) :=
  have h : (runPrompt .codex [] fun _ _ => .ok quiet).ending = .returned 5 (.ok []) .exited := by rfl
  ⟨h, returned_gone h⟩

end Nerve.Adapter
