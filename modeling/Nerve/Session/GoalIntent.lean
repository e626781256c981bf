import Nerve.Library.Braces
import Mathlib.Data.List.Induction

/-!
# The object in an answer

A goal is proposed by a model, and its answer is text with a JSON object somewhere in it. `extract_json_object` looks
into the first fenced block, where there is one, and counts braces up to the one that closes the first object. It does
not parse what stands before: quotes and closing braces of the prose are counted with those of the object.

The count is an `i32`. With overflow checks (`checks`) a sum out of range is a panic, without them it is taken round.
Bytes beyond ASCII are no matter to the counter, and a text is cut at braces only, so characters stand for bytes.

What the counter does is said of the texts it reads: it is at rest behind those that pass (`passes_iff`), and returns
an object just if one stands behind such a text (`objectIn_eq_iff`). The two forms of an answer come to that, with what
the fences cut off (`extract_around`, `extract_fenced`).
-/

namespace Nerve.Session.GoalIntent

open Json Text Braces

/-! ### The code -/

/-- What is in the range of an `i32`. -/
def Fits (n : Int) : Prop := -2 ^ 31 ≤ n ∧ n < 2 ^ 31

instance (n : Int) : Decidable (Fits n) := inferInstanceAs (Decidable (_ ∧ _))

/-- A number taken round to an `i32`. -/
def wrap (n : Int) : Int := (n + 2 ^ 31) % 2 ^ 32 - 2 ^ 31

/-- `a + b`, in `i32`. -/
def addI32 (checks : Bool) (a b : Int) : Option Int :=
  if checks = true ∧ ¬ Fits (a + b) then none else some (wrap (a + b))

/-- The variables of the loop. -/
structure Scanner where
  start : Option Nat := none
  depth : Int := 0
  inString : Bool := false
  escaped : Bool := false
  deriving DecidableEq

/-- Where the loop is after some characters. -/
inductive Scan where
  | running (s : Scanner)
  | found (start idx : Nat)
  | panicked
  deriving DecidableEq

/-- One character of `extract_json_object`. -/
def Scanner.next (checks : Bool) (s : Scanner) (idx : Nat) (ch : Char) : Scan :=
  if s.inString then
    if s.escaped then .running { s with escaped := false }
    else if ch = '\\' then .running { s with escaped := true }
    else if ch = '"' then .running { s with inString := false }
    else .running s
  else if ch = '"' then .running { s with inString := true }
  else if ch = '\x7b' then
    let start := if s.depth = 0 then some idx else s.start
    match addI32 checks s.depth 1 with
    | none => .panicked
    | some depth => .running { s with start := start, depth := depth }
  else if ch = '\x7d' then
    match addI32 checks s.depth (-1) with
    | none => .panicked
    | some depth =>
      match s.start with
      | some start => if depth = 0 then .found start idx else .running { s with depth := depth }
      | none => .running { s with depth := depth }
  else .running s

/-- The loop, from the character with the number `idx` on. -/
def scanFrom (checks : Bool) : Scanner → Nat → List Char → Scan
  | s, _, [] => .running s
  | s, idx, ch :: t =>
    match s.next checks idx ch with
    | .running s => scanFrom checks s (idx + 1) t
    | scan => scan

/-- `str::trim_start_matches`. -/
def trimStartMatches (p : List Char) : (fuel : Nat) → List Char → List Char
  | 0, s => s
  | fuel + 1, s =>
    match stripPrefix p s with
    | some rest => trimStartMatches p fuel rest
    | none => s

/-- `strip_fenced_block`, of a text that is trimmed. -/
def fencedBlock (trimmed : List Char) : Option (List Char) := do
  let lower := trimmed.map Char.toLower
  let front ← before "```json".toList lower <|> before "```".toList lower
  let afterFence := trimmed.drop (front.length + 3)
  let afterFence := trimStart (trimStartMatches "json".toList afterFence.length afterFence)
  before "```".toList afterFence

def stripFencedBlock (raw : List Char) : Option (List Char) := fencedBlock (trim raw)

/-- The loop of `extract_json_object`. There is nothing where the code panics. -/
def objectIn (checks : Bool) (candidate : List Char) : Option (Option (List Char)) :=
  match scanFrom checks {} 0 candidate with
  | .found start idx => some (some ((candidate.drop start).take (idx + 1 - start)))
  | .running _ => some none
  | .panicked => none

def extractJsonObject (checks : Bool) (raw : List Char) : Option (Option (List Char)) :=
  objectIn checks ((stripFencedBlock raw).getD raw)

/-! ### The loop -/

/-- So many braces can be open at once, before the count overflows or is taken round to zero. -/
def limit (checks : Bool) : Nat := if checks then 2 ^ 31 - 1 else 2 ^ 32

/-- No string is open. -/
structure Scanner.Outside (s : Scanner) : Prop where
  inString : s.inString = false
  escaped : s.escaped = false

theorem Scanner.Outside.closed {s : Scanner} (hs : s.Outside) : Scanner.mk s.start s.depth false false = s := by
  obtain ⟨start, depth, inString, escaped⟩ := s
  obtain ⟨hstring, hescaped⟩ := hs
  cases hstring
  cases hescaped
  rfl

section Loop

variable {checks : Bool} {s s' : Scanner} {idx : Nat} {t : List Char}

theorem addI32_of_fits {a b : Int} (h : checks = true → Fits (a + b)) : addI32 checks a b = some (wrap (a + b)) :=
  if_neg fun hoverflow => hoverflow.2 (h hoverflow.1)

theorem wrap_of_fits {n : Int} (h : Fits n) : wrap n = n := by
  unfold Fits at h
  unfold wrap
  omega

theorem wrap_wrap_add (a b : Int) : wrap (wrap a + b) = wrap (a + b) := by
  unfold wrap
  omega

/-- A sum with what was taken round before. -/
theorem addI32_wrap {a b : Int} (ha : checks = true → Fits a) (h : checks = true → Fits (a + b)) :
    addI32 checks (wrap a) b = some (wrap (a + b)) := by
  rw [addI32_of_fits, wrap_wrap_add]
  intro hchecks
  rw [wrap_of_fits (ha hchecks)]
  exact h hchecks

theorem next_other (hs : s.inString = false) {c : Char} (hc : IsInert c) : s.next checks idx c = .running s := by
  rw [Scanner.next, hs, if_neg Bool.false_ne_true, if_neg hc.1, if_neg hc.2.1, if_neg hc.2.2]

theorem next_quote (hs : s.inString = false) : s.next checks idx '"' = .running { s with inString := true } := by
  rw [Scanner.next, hs, if_neg Bool.false_ne_true, if_pos rfl]

theorem next_open (hs : s.inString = false) :
    s.next checks idx '\x7b' =
      match addI32 checks s.depth 1 with
      | none => .panicked
      | some depth => .running { s with start := if s.depth = 0 then some idx else s.start, depth := depth } := by
  rw [Scanner.next, hs, if_neg Bool.false_ne_true, if_neg (by decide), if_pos rfl]

theorem next_close (hs : s.inString = false) :
    s.next checks idx '\x7d' =
      match addI32 checks s.depth (-1) with
      | none => .panicked
      | some depth =>
        match s.start with
        | some start => if depth = 0 then .found start idx else .running { s with depth := depth }
        | none => .running { s with depth := depth } := by
  rw [Scanner.next, hs, if_neg Bool.false_ne_true, if_neg (by decide), if_neg (by decide), if_pos rfl]

/-- All that one character can do. -/
inductive Moves (checks : Bool) (s : Scanner) (idx : Nat) (c : Char) : Scan → Prop
  | inside (hs : s.inString = true) {inString escaped : Bool} (h : inString = false → escaped = false) :
    Moves checks s idx c (.running { s with inString := inString, escaped := escaped })
  | quote (hs : s.inString = false) : Moves checks s idx c (.running { s with inString := true })
  | other (hs : s.inString = false) : Moves checks s idx c (.running s)
  | opens (hs : s.inString = false) (hc : c = '\x7b') (depth : Int) :
    Moves checks s idx c (.running { s with start := if s.depth = 0 then some idx else s.start, depth := depth })
  | closes (hs : s.inString = false) (depth : Int) : Moves checks s idx c (.running { s with depth := depth })
  | ends (hc : c = '\x7d') {b : Nat} (hstart : s.start = some b) : Moves checks s idx c (.found b idx)
  | panics : Moves checks s idx c .panicked

theorem next_moves (checks : Bool) (s : Scanner) (idx : Nat) (c : Char) :
    Moves checks s idx c (s.next checks idx c) := by
  by_cases hs : s.inString = true
  · rw [Scanner.next, if_pos hs]
    split_ifs with hescaped
    · exact .inside hs fun _ => rfl
    · exact .inside hs fun h => absurd (hs.symm.trans h) Bool.true_eq_false.mp
    · exact .inside hs fun _ => Bool.eq_false_iff.mpr hescaped
    · exact .inside hs fun _ => Bool.eq_false_iff.mpr hescaped
  rw [Bool.not_eq_true] at hs
  by_cases hquote : c = '"'
  · rw [hquote, next_quote hs]
    exact .quote hs
  by_cases hopen : c = '\x7b'
  · rw [hopen, next_open hs]
    split
    · exact .panics
    · exact .opens hs rfl _
  by_cases hclose : c = '\x7d'
  · rw [hclose, next_close hs]
    split
    · exact .panics
    · split
      · rename_i hstart
        split_ifs
        · exact .ends rfl hstart
        · exact .closes hs _
      · exact .closes hs _
  · rw [next_other hs ⟨hquote, hopen, hclose⟩]
    exact .other hs

theorem scanFrom_cons_running {c : Char} (h : s.next checks idx c = .running s') :
    scanFrom checks s idx (c :: t) = scanFrom checks s' (idx + 1) t := by
  rw [scanFrom, h]

theorem scanFrom_singleton {c : Char} : scanFrom checks s idx [c] = s.next checks idx c := by
  rw [scanFrom]
  split
  · rename_i heq
    rw [heq, scanFrom]
  · rfl

/-- The characters of two texts, one after the other. -/
theorem scanFrom_append (h : scanFrom checks s idx t = .running s') (t' : List Char) :
    scanFrom checks s idx (t ++ t') = scanFrom checks s' (idx + t.length) t' := by
  induction t generalizing s idx with
  | nil =>
    cases h
    rfl
  | cons c t ih =>
    rw [scanFrom] at h
    split at h
    · rename_i hnext
      rw [List.cons_append, scanFrom_cons_running hnext, ih h, List.length_cons, Nat.add_assoc, Nat.add_comm 1]
    · rename_i hnext
      exact absurd h (hnext s')

theorem scanFrom_append_of_stopped (h : ∀ s', scanFrom checks s idx t ≠ .running s') (t' : List Char) :
    scanFrom checks s idx (t ++ t') = scanFrom checks s idx t := by
  induction t generalizing s idx with
  | nil => exact absurd rfl (h s)
  | cons c t ih =>
    rw [List.cons_append, scanFrom, scanFrom]
    rw [scanFrom] at h
    split
    · rename_i hnext
      simp only [hnext] at h
      exact ih h
    · rfl

/-! ### Strings -/

/-- What is quoted goes by, and its quote closes the string. -/
theorem scanFrom_quoted {raw : List Char} (hraw : Quoted raw) (hs : s.inString = true) (hescaped : s.escaped = false) :
    scanFrom checks s idx (raw ++ '"' :: t) =
      scanFrom checks { s with inString := false } (idx + raw.length + 1) t := by
  obtain ⟨start, depth, inString, escaped⟩ := s
  cases hs
  cases hescaped
  induction hraw generalizing idx with
  | nil => rfl
  | escape c _ ih =>
    have hnext (rest : List Char) : scanFrom checks ⟨start, depth, true, false⟩ idx ('\\' :: c :: rest) =
      scanFrom checks ⟨start, depth, true, false⟩ (idx + 2) rest := rfl
    rw [List.cons_append, List.cons_append, hnext, ih, List.length_cons, List.length_cons]
    congr 1
    omega
  | @char c hquote hslash _ _ ih =>
    have hnext : Scanner.next checks ⟨start, depth, true, false⟩ idx c = .running ⟨start, depth, true, false⟩ := by
      rw [Scanner.next, if_pos rfl, if_neg Bool.false_ne_true, if_neg hslash, if_neg hquote]
    rw [List.cons_append, scanFrom_cons_running hnext, ih, List.length_cons]
    congr 1
    omega

theorem scanFrom_string (hs : s.Outside) {raw : List Char} (hraw : Quoted raw) :
    scanFrom checks s idx ('"' :: (raw ++ '"' :: t)) = scanFrom checks s (idx + raw.length + 2) t := by
  rw [scanFrom_cons_running (next_quote hs.inString),
    scanFrom_quoted (s := { s with inString := true }) hraw rfl hs.escaped]
  simp only [hs.escaped, hs.closed]
  congr 1
  omega

/-- A string that is open is closed somewhere, when none is open in the end. -/
theorem exists_quoted (hs : s.inString = true) (h : scanFrom checks s idx t = .running s') (hs' : s'.Outside) :
    ∃ raw rest, t = raw ++ '"' :: rest ∧ Quoted (if s.escaped then '\\' :: raw else raw) ∧
      scanFrom checks { s with inString := false, escaped := false } (idx + raw.length + 1) rest = .running s' := by
  induction t generalizing s idx with
  | nil =>
    cases h
    rw [hs'.inString] at hs
    cases hs
  | cons c t ih =>
    obtain ⟨start, depth, inString, escaped⟩ := s
    cases hs
    have hlength (raw : List Char) : idx + 1 + raw.length + 1 = idx + (c :: raw).length + 1 := by
      rw [List.length_cons]
      omega
    cases escaped with
    | true =>
      obtain ⟨raw, rest, rfl, hraw, hrest⟩ := ih (s := ⟨start, depth, true, false⟩) rfl h
      exact ⟨c :: raw, rest, rfl, .escape c hraw, hlength raw ▸ hrest⟩
    | false =>
      by_cases hslash : c = '\\'
      · obtain rfl := hslash
        obtain ⟨raw, rest, rfl, hraw, hrest⟩ := ih (s := ⟨start, depth, true, true⟩) rfl h
        exact ⟨_ :: raw, rest, rfl, hraw, hlength raw ▸ hrest⟩
      by_cases hquote : c = '"'
      · obtain rfl := hquote
        exact ⟨[], t, rfl, .nil, h⟩
      have hnext : Scanner.next checks ⟨start, depth, true, false⟩ idx c = .running ⟨start, depth, true, false⟩ := by
        rw [Scanner.next, if_pos rfl, if_neg Bool.false_ne_true, if_neg hslash, if_neg hquote]
      rw [scanFrom_cons_running hnext] at h
      obtain ⟨raw, rest, rfl, hraw, hrest⟩ := ih (s := ⟨start, depth, true, false⟩) rfl h
      exact ⟨c :: raw, rest, rfl, .char hquote hslash hraw, hlength raw ▸ hrest⟩

/-! ### Texts without an object -/

/-- The count is zero, taken round. -/
def Level (n : Int) : Prop := wrap n = 0

/-- A brace opens an object. -/
def Begun (w : List Char) : Prop := ∃ v, v ++ ['\x7b'] <+: w ∧ Level (height v)

/-- Outside of strings, these characters neither end an object nor carry the count out of range. -/
structure Objectless (checks : Bool) (w : List Char) : Prop where
  fits : checks = true → ∀ v, v <+: w → Fits (height v)
  noObject : ∀ v, v ++ ['\x7d'] <+: w → Begun v → ¬ Level (height (v ++ ['\x7d']))

/-- An object behind this text is the first: no string is open, no object has ended, and the count is zero. -/
def Passes (checks : Bool) (t : List Char) : Prop :=
  ∃ w, Unquoted t w ∧ Objectless checks w ∧ Level (height w)

theorem not_begun_nil : ¬ Begun [] := by
  rintro ⟨v, hv, -⟩
  exact List.append_ne_nil_of_right_ne_nil v (List.cons_ne_nil _ _) (List.prefix_nil.mp hv)

theorem begun_concat {w : List Char} {c : Char} : Begun (w ++ [c]) ↔ Begun w ∨ c = '\x7b' ∧ Level (height w) := by
  constructor
  · rintro ⟨v, hv, hlevel⟩
    rcases List.prefix_concat_iff.mp hv with heq | hv
    · obtain ⟨rfl, hc⟩ := List.append_inj' heq rfl
      exact Or.inr ⟨(List.cons.inj hc).1.symm, hlevel⟩
    · exact Or.inl ⟨v, hv, hlevel⟩
  · rintro (⟨v, hv, hlevel⟩ | ⟨rfl, hlevel⟩)
    · exact ⟨v, hv.trans (List.prefix_append _ _), hlevel⟩
    · exact ⟨w, List.prefix_refl _, hlevel⟩

theorem fits_zero : Fits 0 := by decide

theorem objectless_nil (checks : Bool) : Objectless checks [] := by
  refine ⟨fun _ v hv => ?_, fun v hv => ?_⟩
  · rw [List.prefix_nil.mp hv]
    exact fits_zero
  · exact absurd (List.prefix_nil.mp hv) (List.append_ne_nil_of_right_ne_nil v (List.cons_ne_nil _ _))

theorem objectless_concat {w : List Char} {c : Char} :
    Objectless checks (w ++ [c]) ↔ Objectless checks w ∧ (checks = true → Fits (height (w ++ [c]))) ∧
      (c = '\x7d' → Begun w → ¬ Level (height (w ++ [c]))) := by
  constructor
  · rintro ⟨hfits, hobject⟩
    refine ⟨⟨fun hchecks v hv => hfits hchecks v (hv.trans (List.prefix_append _ _)),
      fun v hv => hobject v (hv.trans (List.prefix_append _ _))⟩,
      fun hchecks => hfits hchecks _ (List.prefix_refl _), ?_⟩
    rintro rfl
    exact hobject w (List.prefix_refl _)
  · rintro ⟨⟨hfits, hobject⟩, hfit, hlast⟩
    refine ⟨fun hchecks v hv => ?_, fun v hv => ?_⟩
    · rcases List.prefix_concat_iff.mp hv with rfl | hv
      · exact hfit hchecks
      · exact hfits hchecks v hv
    · rcases List.prefix_concat_iff.mp hv with heq | hv
      · obtain ⟨rfl, hc⟩ := List.append_inj' heq rfl
        obtain rfl := (List.cons.inj hc).1
        exact hlast rfl
      · exact hobject v hv

theorem Objectless.of_append {v w : List Char} (h : Objectless checks (v ++ w)) : Objectless checks v :=
  ⟨fun hchecks u hu => h.fits hchecks u (hu.trans (List.prefix_append _ _)),
    fun u hu => h.noObject u (hu.trans (List.prefix_append _ _))⟩

/-- Where the loop is behind a text that leaves these characters outside of strings. -/
structure Reads (w : List Char) (s : Scanner) : Prop extends s.Outside where
  depth : s.depth = wrap (height w)
  begun : s.start.isSome = true ↔ Begun w

namespace Reads

variable {w : List Char}

/-- The count goes on, if it fits. -/
theorem addI32_eq_some (hs : Reads w s) (hw : Objectless checks w) {c : Char} {n : Int} :
    addI32 checks s.depth (height [c]) = some n ↔
      (checks = true → Fits (height (w ++ [c]))) ∧ n = wrap (height (w ++ [c])) := by
  have hfits : checks = true → wrap (height w) = height w := fun hchecks =>
    wrap_of_fits (hw.fits hchecks w (List.prefix_refl w))
  rw [hs.depth, addI32, height_append, wrap_wrap_add]
  split_ifs with hoverflow
  · rw [hfits hoverflow.1] at hoverflow
    simp only [false_iff, not_and]
    exact fun h => absurd (h hoverflow.1) hoverflow.2
  · rw [Option.some_inj, eq_comm, iff_and_self]
    intro _ hchecks
    rw [not_and, not_not] at hoverflow
    have := hoverflow hchecks
    rwa [hfits hchecks] at this

/-- The character goes by, and the loop has it read; or it does not, and with it the text is not objectless. -/
def Step (checks : Bool) (w : List Char) (c : Char) (scan : Scan) : Prop :=
  (∃ s, scan = .running s ∧ Reads (w ++ [c]) s ∧ Objectless checks (w ++ [c])) ∨
    (∀ s, scan ≠ .running s) ∧ ¬ Objectless checks (w ++ [c])

theorem step_open (hs : Reads w s) (hw : Objectless checks w) : Step checks w '\x7b' (s.next checks idx '\x7b') := by
  have hsum {n : Int} := hs.addI32_eq_some hw (c := '\x7b') (n := n)
  rw [height_open] at hsum
  rw [next_open hs.inString]
  rcases hdepth : addI32 checks s.depth 1 with _ | depth
  · refine Or.inr ⟨fun s' => nofun, fun h => ?_⟩
    rw [hsum.mpr ⟨(objectless_concat.mp h).2.1, rfl⟩] at hdepth
    cases hdepth
  · obtain ⟨hfits, rfl⟩ := hsum.mp hdepth
    refine Or.inl ⟨_, rfl, ⟨⟨hs.inString, hs.escaped⟩, rfl, ?_⟩, ?_⟩
    · rw [begun_concat, ← hs.begun, Level, ← hs.depth]
      by_cases hzero : s.depth = 0
      · simp [hzero]
      · simp [hzero]
    · exact objectless_concat.mpr ⟨hw, hfits, by simp⟩

theorem step_close (hs : Reads w s) (hw : Objectless checks w) : Step checks w '\x7d' (s.next checks idx '\x7d') := by
  have hsum {n : Int} := hs.addI32_eq_some hw (c := '\x7d') (n := n)
  have hbegun : Begun (w ++ ['\x7d']) ↔ Begun w := by
    simp [begun_concat]
  rw [height_close] at hsum
  rw [next_close hs.inString]
  rcases hdepth : addI32 checks s.depth (-1) with _ | depth
  · refine Or.inr ⟨fun s' => nofun, fun h => ?_⟩
    rw [hsum.mpr ⟨(objectless_concat.mp h).2.1, rfl⟩] at hdepth
    cases hdepth
  · obtain ⟨hfits, rfl⟩ := hsum.mp hdepth
    rcases hstart : s.start with _ | start
    · refine Or.inl ⟨_, rfl, ⟨⟨hs.inString, hs.escaped⟩, rfl, ?_⟩, ?_⟩
      · rw [hbegun, ← hs.begun, hstart]
      · refine objectless_concat.mpr ⟨hw, hfits, fun _ hw => ?_⟩
        rw [← hs.begun, hstart] at hw
        cases hw
    · have hw' : Begun w := by
        rw [← hs.begun, hstart]
        rfl
      simp only
      split_ifs with hzero
      · exact Or.inr ⟨fun s' => nofun, fun h => (objectless_concat.mp h).2.2 rfl hw' hzero⟩
      · refine Or.inl ⟨_, rfl, ⟨⟨hs.inString, hs.escaped⟩, rfl, ?_⟩, ?_⟩
        · rw [hbegun, ← hs.begun, hstart]
        · exact objectless_concat.mpr ⟨hw, hfits, fun _ _ => hzero⟩

theorem step_other (hs : Reads w s) (hw : Objectless checks w) {c : Char} (hc : IsInert c) :
    Step checks w c (s.next checks idx c) := by
  have hheight : height (w ++ [c]) = height w := by
    rw [height_append, height_other hc.2.1 hc.2.2, Int.add_zero]
  refine Or.inl ⟨s, next_other hs.inString hc, ⟨hs.toOutside, hheight ▸ hs.depth, ?_⟩, ?_⟩
  · rw [begun_concat, hs.begun]
    simp [hc.2.1]
  · refine objectless_concat.mpr ⟨hw, fun hchecks => ?_, fun h => absurd h hc.2.2⟩
    rw [hheight]
    exact hw.fits hchecks w (List.prefix_refl w)

/-- **A character goes by just if no object ends with it**, and the count fits. -/
theorem step (hs : Reads w s) (hw : Objectless checks w) {c : Char} (hc : c ≠ '"') :
    Step checks w c (s.next checks idx c) := by
  by_cases hopen : c = '\x7b'
  · obtain rfl := hopen
    exact hs.step_open hw
  by_cases hclose : c = '\x7d'
  · obtain rfl := hclose
    exact hs.step_close hw
  · exact hs.step_other hw ⟨hc, hopen, hclose⟩

/-- What has no object is read to its end. -/
theorem scan {u v : List Char} (hu : Unquoted u v) (hs : Reads w s) (h : Objectless checks (w ++ v)) :
    ∃ s', scanFrom checks s idx u = .running s' ∧ Reads (w ++ v) s' := by
  induction hu generalizing w s idx with
  | nil => exact ⟨s, rfl, by rwa [List.append_nil]⟩
  | @char c hc u v _ ih =>
    rw [List.append_cons] at h ⊢
    rcases hs.step h.of_append.of_append hc with ⟨s', hnext, hs', -⟩ | ⟨-, hnot⟩
    · rw [scanFrom_cons_running hnext]
      exact ih hs' h
    · exact absurd h.of_append hnot
  | string hraw _ ih =>
    rw [scanFrom_string hs.toOutside hraw]
    exact ih hs h

/-- What is read to its end, with no string open, has no object. -/
theorem exists_unquoted {u : List Char} (hs : Reads w s) (hw : Objectless checks w)
    (h : scanFrom checks s idx u = .running s') (hs' : s'.Outside) :
    ∃ v, Unquoted u v ∧ Objectless checks (w ++ v) ∧ Reads (w ++ v) s' := by
  induction hn : u.length using Nat.strong_induction_on generalizing w s idx u with
  | _ n ih =>
    obtain rfl := hn
    rcases u with _ | ⟨c, u⟩
    · cases h
      exact ⟨[], .nil, by rwa [List.append_nil], by rwa [List.append_nil]⟩
    by_cases hc : c = '"'
    · obtain rfl := hc
      rw [scanFrom_cons_running (next_quote hs.inString)] at h
      obtain ⟨raw, rest, rfl, hraw, hrest⟩ := exists_quoted rfl h hs'
      simp only [hs.escaped, Bool.false_eq_true, if_false] at hraw
      simp only [hs.closed] at hrest
      have hshort : rest.length < ('"' :: (raw ++ '"' :: rest)).length := by
        simp only [List.length_cons, List.length_append]
        omega
      obtain ⟨v, hv, hobject, hreads⟩ := ih rest.length hshort hs hw hrest rfl
      exact ⟨v, .string hraw hv, hobject, hreads⟩
    · rcases hs.step hw hc with ⟨s₁, hnext, hs₁, hw₁⟩ | ⟨hnot, -⟩
      · rw [scanFrom_cons_running hnext] at h
        obtain ⟨v, hv, hobject, hreads⟩ := ih u.length (Nat.lt_succ_self _) hs₁ hw₁ h rfl
        rw [← List.append_cons] at hobject hreads
        exact ⟨c :: v, .char hc hv, hobject, hreads⟩
      · rw [scanFrom] at h
        split at h
        · rename_i hnext
          exact absurd hnext (hnot _)
        · exact absurd h (hnot _)

theorem start : Reads [] {} := ⟨⟨rfl, rfl⟩, rfl, by simp [not_begun_nil]⟩

end Reads

/-- **A text passes just if the loop is at rest behind it.** -/
theorem passes_iff {u : List Char} :
    Passes checks u ↔ ∃ s, scanFrom checks {} 0 u = .running s ∧ s.Outside ∧ s.depth = 0 := by
  constructor
  · rintro ⟨w, hu, hw, hlevel⟩
    obtain ⟨s, hscan, hs⟩ := Reads.start.scan hu hw
    exact ⟨s, hscan, hs.toOutside, hs.depth.trans hlevel⟩
  · rintro ⟨s, hscan, hs, hdepth⟩
    obtain ⟨w, hu, hw, hreads⟩ := Reads.start.exists_unquoted (objectless_nil checks) hscan hs
    exact ⟨w, hu, hw, hreads.depth.symm.trans hdepth⟩

/-! ### An object -/

/-- No object that begins at `b` will be found any more: a later one is begun, or found, or the code has panicked. -/
def Late (b : Nat) : Scan → Prop
  | .running s => ∃ start, s.start = some start ∧ b < start
  | .found start _ => b < start
  | .panicked => True

theorem late_next {b : Nat} (hs : Late b (.running s)) (hidx : b < idx) (c : Char) : Late b (s.next checks idx c) := by
  obtain ⟨start, hstart, hlate⟩ := hs
  have hmoves := next_moves checks s idx c
  generalize s.next checks idx c = scan at hmoves ⊢
  cases hmoves with
  | inside | quote | other | closes => exact ⟨start, hstart, hlate⟩
  | opens =>
    by_cases hdepth : s.depth = 0
    · exact ⟨idx, if_pos hdepth, hidx⟩
    · exact ⟨start, (if_neg hdepth).trans hstart, hlate⟩
  | ends _ hstart' =>
    rw [hstart, Option.some_inj] at hstart'
    exact hstart' ▸ hlate
  | panics => trivial

theorem late_scanFrom {b : Nat} (hs : Late b (.running s)) (hidx : b < idx) : Late b (scanFrom checks s idx t) := by
  induction t generalizing s idx with
  | nil => exact hs
  | cons c t ih =>
    have hnext : Late b (s.next checks idx c) := late_next hs hidx c
    rw [scanFrom]
    split
    · rename_i heq
      rw [heq] at hnext
      exact ih hnext (Nat.lt_succ_of_lt hidx)
    · exact hnext

theorem late_append {b : Nat} (h : Late b (scanFrom checks s idx t)) (hidx : b < idx) (t' : List Char) :
    Late b (scanFrom checks s idx (t ++ t')) := by
  by_cases hrunning : ∃ s', scanFrom checks s idx t = .running s'
  · obtain ⟨s', hs'⟩ := hrunning
    rw [hs'] at h
    rw [scanFrom_append hs']
    exact late_scanFrom h (Nat.lt_add_right _ hidx)
  · rw [scanFrom_append_of_stopped fun s' hs' => hrunning ⟨s', hs'⟩]
    exact h

theorem fits_of_limit {k : Nat} (h : k ≤ limit checks) (hchecks : checks = true) : Fits k := by
  rw [limit, if_pos hchecks] at h
  unfold Fits
  omega

theorem wrap_ne_zero {k : Nat} (hk : 1 ≤ k) (h : k < limit checks) : wrap k ≠ 0 := by
  unfold limit at h
  unfold wrap
  split_ifs at h <;> omega

/-- The loop is `k` braces deep in the object that begins at `b`. -/
structure At (b k : Nat) (s : Scanner) : Prop extends s.Outside where
  start : s.start = some b
  depth : s.depth = wrap k

namespace At

variable {b k : Nat}

theorem open_inner (hs : At b k s) (hk : 1 ≤ k) (hlimit : k < limit checks) :
    s.next checks idx '\x7b' = .running { s with depth := wrap (k + 1 : Nat) } := by
  have hsum : addI32 checks (wrap k) 1 = some (wrap (k + 1 : Nat)) :=
    addI32_wrap (fits_of_limit (Nat.le_of_lt hlimit)) (fits_of_limit hlimit)
  rw [next_open hs.inString, hs.depth, hsum]
  simp only [if_neg (wrap_ne_zero hk hlimit)]

/-- One brace too many. -/
theorem late_open (hs : At b k s) (hlimit : k = limit checks) (hidx : b < idx) : Late b (s.next checks idx '\x7b') := by
  rw [next_open hs.inString, hs.depth]
  subst hlimit
  cases checks with
  | true => trivial
  | false => exact ⟨idx, rfl, hidx⟩

theorem close_inner (hs : At b (k + 1) s) (hk : 1 ≤ k) (hlimit : k < limit checks) :
    s.next checks idx '\x7d' = .running { s with depth := wrap k } := by
  have hback : ((k + 1 : Nat) : Int) + -1 = k := Int.add_neg_cancel_right k 1
  have hsum : addI32 checks (wrap (k + 1 : Nat)) (-1) = some (wrap k) := by
    rw [addI32_wrap (fits_of_limit hlimit), hback]
    rw [hback]
    exact fits_of_limit (Nat.le_of_lt hlimit)
  rw [next_close hs.inString, hs.depth, hsum, hs.start]
  simp only [if_neg (wrap_ne_zero hk hlimit)]

theorem close_outer (hs : At b 1 s) : s.next checks idx '\x7d' = .found b idx := by
  have hsum : addI32 checks (wrap (1 : Nat)) (-1) = some 0 := by
    cases checks <;> rfl
  rw [next_close hs.inString, hs.depth, hsum, hs.start]
  rfl

/-- A brace more, and then one less. -/
theorem deeper (hs : At b k s) : At b (k + 1) { s with depth := wrap (k + 1 : Nat) } :=
  ⟨⟨hs.inString, hs.escaped⟩, hs.start, rfl⟩

theorem back (hs : At b k s) : Scanner.mk s.start (wrap k) s.inString s.escaped = s := by
  rw [← hs.depth]

/-- **Balanced text in an object goes by**, up to the limit. -/
theorem scan_balanced {n : Nat} (ht : Balanced n t) (hs : At b k s) (hk : 1 ≤ k) (hlimit : k + n ≤ limit checks) :
    scanFrom checks s idx t = .running s := by
  induction ht generalizing k s idx with
  | nil => rfl
  | char hc _ ih =>
    rw [scanFrom_cons_running (next_other hs.inString hc)]
    exact ih hs hk hlimit
  | string hraw _ ih =>
    rw [scanFrom_string hs.toOutside hraw]
    exact ih hs hk hlimit
  | @braces m n inner t hinner ht ihinner ih =>
    rw [scanFrom_cons_running (hs.open_inner hk (by omega)),
      scanFrom_append (ihinner hs.deeper (Nat.le_add_left 1 k) (by omega)),
      scanFrom_cons_running (hs.deeper.close_inner hk (by omega))]
    simp only [hs.back]
    exact ih hs hk (by omega)

/-- Beyond it, the object is lost. -/
theorem late_balanced {n : Nat} (ht : Balanced n t) (hs : At b k s) (hk : 1 ≤ k) (hle : k ≤ limit checks)
    (hlimit : limit checks < k + n) (hidx : b < idx) : Late b (scanFrom checks s idx t) := by
  induction ht generalizing k s idx with
  | nil => omega
  | char hc _ ih =>
    rw [scanFrom_cons_running (next_other hs.inString hc)]
    exact ih hs hk hle hlimit (by omega)
  | string hraw _ ih =>
    rw [scanFrom_string hs.toOutside hraw]
    exact ih hs hk hle hlimit (by omega)
  | @braces m n inner t hinner ht ihinner ih =>
    by_cases hfull : k = limit checks
    · have hlate : Late b (scanFrom checks s idx ['\x7b']) := by
        rw [scanFrom_singleton]
        exact hs.late_open hfull hidx
      exact late_append hlate hidx (inner ++ '\x7d' :: t)
    rw [scanFrom_cons_running (hs.open_inner hk (by omega))]
    by_cases hdeep : limit checks < k + (m + 1)
    · exact late_append (ihinner hs.deeper (Nat.le_add_left 1 k) (by omega) (by omega) (by omega)) (by omega) _
    · rw [scanFrom_append (scan_balanced hinner hs.deeper (Nat.le_add_left 1 k) (by omega)),
        scanFrom_cons_running (hs.deeper.close_inner hk (by omega))]
      simp only [hs.back]
      exact ih hs hk hle (by omega) (by omega)

end At

/-- An object that begins at rest is found, up to the limit. -/
theorem scan_braced {n : Nat} {o : List Char} (ho : Braced n o) (hs : s.Outside) (hdepth : s.depth = 0) :
    (n ≤ limit checks → scanFrom checks s idx (o ++ t) = .found idx (idx + o.length - 1)) ∧
      (limit checks < n → Late idx (scanFrom checks s idx (o ++ t))) := by
  obtain ⟨hinner⟩ := ho
  rename_i n inner
  have hopen : s.next checks idx '\x7b' = .running { s with start := some idx, depth := wrap (1 : Nat) } := by
    rw [next_open hs.inString, hdepth]
    cases checks <;> rfl
  have hat : At idx 1 { s with start := some idx, depth := wrap (1 : Nat) } := ⟨⟨hs.inString, hs.escaped⟩, rfl, rfl⟩
  rw [List.cons_append, List.append_assoc, scanFrom_cons_running hopen]
  constructor
  · intro hlimit
    rw [scanFrom_append (hat.scan_balanced hinner (Nat.le_refl 1) (by omega)), List.singleton_append, scanFrom,
      hat.close_outer]
    simp only [List.length_cons, List.length_append, List.length_nil, Scan.found.injEq, true_and]
    omega
  · intro hlimit
    have hle : 1 ≤ limit checks := by cases checks <;> decide
    exact late_append (hat.late_balanced hinner (Nat.le_refl 1) hle (by omega) (Nat.lt_succ_self idx))
      (Nat.lt_succ_self idx) _

/-! ### What is found -/

theorem next_found {c : Char} {b e : Nat} (h : s.next checks idx c = .found b e) :
    c = '\x7d' ∧ s.start = some b ∧ e = idx := by
  have hmoves := next_moves checks s idx c
  rw [h] at hmoves
  cases hmoves with
  | ends hc hstart => exact ⟨hc, hstart, rfl⟩

/-- Only a brace that opens an object changes where it begins, and only a string has something escaped. -/
theorem next_running {c : Char} (h : s.next checks idx c = .running s') :
    (s'.start = s.start ∨ c = '\x7b' ∧ s.inString = false ∧ s.depth = 0 ∧ s'.start = some idx) ∧
      ((s.inString = false → s.escaped = false) → s'.inString = false → s'.escaped = false) := by
  have hmoves := next_moves checks s idx c
  rw [h] at hmoves
  cases hmoves with
  | inside _ hcalm => exact ⟨Or.inl rfl, fun _ => hcalm⟩
  | quote hs | other hs | closes hs => exact ⟨Or.inl rfl, fun hcalm _ => hcalm hs⟩
  | opens hs hc =>
    refine ⟨?_, fun hcalm _ => hcalm hs⟩
    by_cases hdepth : s.depth = 0
    · exact Or.inr ⟨hc, hs, hdepth, if_pos hdepth⟩
    · exact Or.inl (if_neg hdepth)

theorem exists_of_scan_concat {c : Char} (h : scanFrom checks s idx (t ++ [c]) = .running s') :
    ∃ s₁, scanFrom checks s idx t = .running s₁ ∧ s₁.next checks (idx + t.length) c = .running s' := by
  by_cases hrunning : ∃ s₁, scanFrom checks s idx t = .running s₁
  · obtain ⟨s₁, hs₁⟩ := hrunning
    rw [scanFrom_append hs₁, scanFrom_singleton] at h
    exact ⟨s₁, hs₁, h⟩
  · rw [scanFrom_append_of_stopped fun s₁ hs₁ => hrunning ⟨s₁, hs₁⟩] at h
    exact absurd ⟨s', h⟩ hrunning

theorem escaped_of_scan (h : scanFrom checks {} 0 t = .running s) : s.inString = false → s.escaped = false := by
  induction t using List.reverseRecOn generalizing s with
  | nil =>
    cases h
    exact fun _ => rfl
  | append_singleton t c ih =>
    obtain ⟨s₁, hs₁, hnext⟩ := exists_of_scan_concat h
    exact (next_running hnext).2 (ih hs₁)

/-- Where an object has begun, the text before it passes. -/
theorem passes_of_start {b : Nat} (h : scanFrom checks {} 0 t = .running s) (hb : s.start = some b) :
    ∃ u rest, t = u ++ '\x7b' :: rest ∧ u.length = b ∧ Passes checks u := by
  induction t using List.reverseRecOn generalizing s with
  | nil =>
    cases h
    cases hb
  | append_singleton t c ih =>
    obtain ⟨s₁, hs₁, hnext⟩ := exists_of_scan_concat h
    rcases (next_running hnext).1 with hstart | ⟨rfl, hstring, hdepth, hstart⟩
    · obtain ⟨u, rest, rfl, hlength, hpasses⟩ := ih hs₁ (hstart ▸ hb)
      exact ⟨u, rest ++ [c], by simp, hlength, hpasses⟩
    · rw [hb, Option.some_inj, Nat.zero_add] at hstart
      exact ⟨t, [], rfl, hstart.symm, passes_iff.mpr ⟨s₁, hs₁, ⟨hstring, escaped_of_scan hs₁ hstring⟩, hdepth⟩⟩

/-- The brace that ends an object. -/
theorem exists_close {b e : Nat} (h : scanFrom checks s idx t = .found b e) :
    ∃ front rest s', t = front ++ '\x7d' :: rest ∧ e = idx + front.length ∧
      scanFrom checks s idx front = .running s' ∧ s'.start = some b := by
  induction t generalizing s idx with
  | nil => cases h
  | cons c t ih =>
    rw [scanFrom] at h
    split at h
    · rename_i s₁ hnext
      obtain ⟨front, rest, s', rfl, rfl, hscan, hstart⟩ := ih h
      refine ⟨c :: front, rest, s', rfl, ?_, (scanFrom_cons_running hnext).trans hscan, hstart⟩
      rw [List.length_cons]
      omega
    · obtain ⟨rfl, hstart, rfl⟩ := next_found h
      exact ⟨[], t, s, rfl, rfl, rfl, hstart⟩

/-- `&s[start..=idx]`. -/
theorem slice_middle {u o v : List Char} {e : Nat} (he : e + 1 = u.length + o.length) :
    ((u ++ (o ++ v)).drop u.length).take (e + 1 - u.length) = o := by
  rw [List.drop_left, he, Nat.add_sub_cancel_left, List.take_left]

/-- **The first object.** An object is returned just if it nests no deeper than the limit, and is somewhere in the
text where what is before it passes. -/
theorem objectIn_eq_iff {n : Nat} {o : List Char} (ho : Braced n o) :
    objectIn checks t = some (some o) ↔ n ≤ limit checks ∧ ∃ u v, t = u ++ (o ++ v) ∧ Passes checks u := by
  have hbraced {u v : List Char} (hu : Passes checks u) :
      (n ≤ limit checks → scanFrom checks {} 0 (u ++ (o ++ v)) = .found u.length (u.length + o.length - 1)) ∧
        (limit checks < n → Late u.length (scanFrom checks {} 0 (u ++ (o ++ v)))) := by
    obtain ⟨s, hscan, hs, hdepth⟩ := passes_iff.mp hu
    rw [scanFrom_append hscan, Nat.zero_add]
    exact scan_braced ho hs hdepth
  have hne : 0 < o.length := by
    obtain ⟨inner, rfl⟩ := ho.ends
    exact Nat.succ_pos _
  constructor
  · intro h
    unfold objectIn at h
    split at h
    · rename_i b e hfound
      obtain ⟨front, rest, s', rfl, rfl, hscan, hstart⟩ := exists_close hfound
      obtain ⟨u, inner, rfl, rfl, hu⟩ := passes_of_start hscan hstart
      have hsplit : u ++ '\x7b' :: inner ++ '\x7d' :: rest = u ++ ('\x7b' :: (inner ++ ['\x7d']) ++ rest) := by simp
      rw [hsplit, slice_middle (by simp only [List.length_cons, List.length_append, List.length_nil]; omega)] at h
      obtain rfl : _ = o := Option.some_inj.mp (Option.some_inj.mp h)
      refine ⟨?_, u, rest, hsplit, hu⟩
      by_contra hlimit
      have hlate := (hbraced hu (v := rest)).2 (by omega)
      rw [← hsplit, hfound] at hlate
      exact Nat.lt_irrefl _ hlate
    · cases h
    · cases h
  · rintro ⟨hlimit, u, v, rfl, hu⟩
    unfold objectIn
    rw [(hbraced hu).1 hlimit]
    simp only [slice_middle (show u.length + o.length - 1 + 1 = u.length + o.length by omega)]

end Loop

/-! ### Fences -/

/-- A code fence is in the text. -/
def HasFence (t : List Char) : Prop := "```".toList <:+: t

theorem not_hasFence {t : List Char} (h : '\x60' ∉ t) : ¬ HasFence t := fun hfence => h (hfence.subset (by decide))

theorem fence_prefix_jsonFence : "```".toList <+: "```json".toList := ⟨"json".toList, rfl⟩

theorem hasFence_of_suffix {a b : List Char} (h : HasFence b) (hb : b <:+ a) : HasFence a := h.trans hb.isInfix

/-- A fence begins in the first part, and goes on in the second. -/
theorem exists_of_fence_begins {a b : List Char} (hne : a ≠ []) (ha : ¬ HasFence a) (h : "```".toList <+: a ++ b) :
    a.getLast? = some '\x60' ∧ b.head? = some '\x60' ∧ (a = ['\x60'] ∨ a = ['\x60', '\x60']) := by
  obtain ⟨rest, hrest⟩ := h
  have hfence : "```".toList = ['\x60', '\x60', '\x60'] := rfl
  rw [hfence] at hrest
  match a with
  | [] => exact absurd rfl hne
  | [x] =>
    simp only [List.cons_append, List.nil_append, List.cons.injEq] at hrest
    obtain ⟨rfl, rfl⟩ := hrest
    exact ⟨rfl, rfl, Or.inl rfl⟩
  | [x, y] =>
    simp only [List.cons_append, List.nil_append, List.cons.injEq] at hrest
    obtain ⟨rfl, rfl, rfl⟩ := hrest
    exact ⟨rfl, rfl, Or.inr rfl⟩
  | x :: y :: z :: a =>
    simp only [List.cons_append, List.nil_append, List.cons.injEq] at hrest
    obtain ⟨rfl, rfl, rfl, -⟩ := hrest
    exact absurd (show HasFence _ from (List.prefix_append "```".toList a).isInfix) ha

/-- No fence begins in the first part: it has none, and does not end with the first half of one. -/
theorem not_fence_begins {a b : List Char} (ha : ¬ HasFence a)
    (hends : a.getLast? ≠ some '\x60' ∨ b.head? ≠ some '\x60') (a₁ a₂ : List Char) (hsplit : a = a₁ ++ a₂)
    (hne : a₂ ≠ []) : ¬ "```".toList <+: a₂ ++ b := by
  subst hsplit
  intro hbegins
  obtain ⟨hlast, hhead, -⟩ := exists_of_fence_begins hne (fun h => ha (hasFence_of_suffix h (List.suffix_append _ _)))
    hbegins
  rcases hends with hends | hends
  · exact hends (by rw [List.getLast?_append_of_ne_nil _ hne, hlast])
  · exact hends hhead

/-- Whatever is in front of it, the fence of a JSON block begins where it does. -/
theorem not_jsonFence_begins {a rest : List Char} (ha : ¬ HasFence a) (a₁ a₂ : List Char) (hsplit : a = a₁ ++ a₂)
    (hne : a₂ ≠ []) : ¬ "```json".toList <+: a₂ ++ ("```json".toList ++ rest) := by
  subst hsplit
  intro hbegins
  obtain ⟨-, -, rfl | rfl⟩ := exists_of_fence_begins hne
    (fun h => ha (hasFence_of_suffix h (List.suffix_append _ _))) (fence_prefix_jsonFence.trans hbegins)
  · obtain ⟨rest', hrest⟩ := hbegins
    exact absurd (congrArg (fun s => s[3]?) hrest) (by simp)
  · obtain ⟨rest', hrest⟩ := hbegins
    exact absurd (congrArg (fun s => s[3]?) hrest) (by simp)

/-- The fences of a text in lower case are those of the text. -/
theorem hasFence_of_lower {a : List Char} (h : HasFence (a.map Char.toLower)) : HasFence a := by
  obtain ⟨front, back, hsplit⟩ := h
  obtain ⟨first, last, rfl, hfirst, -⟩ := List.map_eq_append_iff.mp hsplit.symm
  obtain ⟨front, fence, rfl, -, hfence⟩ := List.map_eq_append_iff.mp hfirst
  obtain rfl := (map_toLower_eq_iff rfl).mp hfence
  exact ⟨front, last, rfl⟩

/-! ### The block that is looked into -/

/-- A text without a fence in front is no matter to the fences. -/
theorem fencedBlock_append {a b : List Char} (ha : ¬ HasFence a)
    (hends : a.getLast? ≠ some '\x60' ∨ b.head? ≠ some '\x60') : fencedBlock (a ++ b) = fencedBlock b := by
  have hlower : (a.map Char.toLower).getLast? ≠ some '\x60' ∨ (b.map Char.toLower).head? ≠ some '\x60' := by
    rw [List.getLast?_map, List.head?_map]
    refine hends.imp (fun hlast h => hlast ?_) fun hhead h => hhead ?_
    all_goals
      obtain ⟨c, hc, hlower⟩ := Option.map_eq_some_iff.mp h
      rw [hc, (toLower_eq_iff (by decide)).mp hlower]
  have hnone := not_fence_begins (fun h => ha (hasFence_of_lower h)) hlower
  have hjson (a₁ a₂ : List Char) (hsplit : a.map Char.toLower = a₁ ++ a₂) (hne : a₂ ≠ []) :
      ¬ "```json".toList <+: a₂ ++ b.map Char.toLower :=
    fun h => hnone a₁ a₂ hsplit hne (fence_prefix_jsonFence.trans h)
  have hfront : (before "```json".toList ((a ++ b).map Char.toLower) <|>
      before "```".toList ((a ++ b).map Char.toLower)) =
        (before "```json".toList (b.map Char.toLower) <|> before "```".toList (b.map Char.toLower)).map
          (a.map Char.toLower ++ ·) := by
    rw [List.map_append, before_append hnone, before_append hjson]
    cases before "```json".toList (b.map Char.toLower) <;> rfl
  unfold fencedBlock
  simp only [hfront]
  rcases (before "```json".toList (b.map Char.toLower) <|> before "```".toList (b.map Char.toLower)) with _ | front
  · rfl
  · have hdrop : (a ++ b).drop ((a.map Char.toLower ++ front).length + 3) = b.drop (front.length + 3) := by
      rw [List.length_append, List.length_map, Nat.add_assoc, List.drop_append]
      simp
    simp only [Option.map_some, Option.bind_eq_bind, Option.bind_some, hdrop]

/-- `json` is taken off once. -/
theorem trimStartMatches_json {fuel : Nat} (hfuel : 2 ≤ fuel) (rest : List Char) :
    trimStartMatches "json".toList fuel ("json".toList ++ '\n' :: rest) = '\n' :: rest := by
  obtain ⟨fuel, rfl⟩ := Nat.exists_eq_add_of_le' hfuel
  rw [trimStartMatches, stripPrefix_append]
  simp only
  rw [trimStartMatches, stripPrefix_eq_none (by decide) (by simp)]

/-- The text of a JSON block, behind a text without a fence. -/
theorem fencedBlock_json {a o rest : List Char} (ha : ¬ HasFence a) (hne : o ≠ [])
    (ho : ∀ c ∈ o.head?, isWhitespace c = false) :
    fencedBlock (a ++ ("```json\n".toList ++ (o ++ rest))) = before "```".toList (o ++ rest) := by
  have hlower : (a ++ ("```json\n".toList ++ (o ++ rest))).map Char.toLower =
      a.map Char.toLower ++ ("```json".toList ++ '\n' :: (o ++ rest).map Char.toLower) := by
    rw [List.map_append, List.map_append]
    rfl
  have hfront : before "```json".toList ((a ++ ("```json\n".toList ++ (o ++ rest))).map Char.toLower) =
      some (a.map Char.toLower) := by
    rw [hlower, before_append (not_jsonFence_begins fun h => ha (hasFence_of_lower h)), before_self, Option.map_some,
      List.append_nil]
  have hdrop : (a ++ ("```json\n".toList ++ (o ++ rest))).drop ((a.map Char.toLower).length + 3) =
      "json".toList ++ '\n' :: (o ++ rest) := by
    rw [List.length_map, List.drop_append]
    simp
  have hspace : trimStart ('\n' :: (o ++ rest)) = o ++ rest := by
    have hhead : ∀ c ∈ (o ++ rest).head?, isWhitespace c = false := by
      rwa [List.head?_append_of_ne_nil o hne]
    exact trimStart_append_of_head (List.append_ne_nil_of_left_ne_nil hne rest) hhead ['\n']
  have hfuel : 2 ≤ ("json".toList ++ '\n' :: (o ++ rest)).length := by
    rw [List.length_append]
    exact Nat.le_add_right_of_le (by decide)
  have hchoice (lower : Option (List Char)) : (some (a.map Char.toLower) <|> lower) = some (a.map Char.toLower) := rfl
  unfold fencedBlock
  simp only [hfront, hchoice, Option.bind_eq_bind, Option.bind_some, hdrop, trimStartMatches_json hfuel, hspace]

/-! ### The answer -/

theorem Braced.isTrimmed {n : Nat} {o : List Char} (ho : Braced n o) : IsTrimmed o ∧ o ≠ [] := by
  obtain ⟨inner, rfl⟩ := ho.ends
  refine ⟨⟨?_, ?_⟩, List.cons_ne_nil _ _⟩
  · rintro c ⟨⟩
    decide
  · rw [← List.cons_append, List.getLast?_append_of_ne_nil _ (List.cons_ne_nil _ _)]
    rintro c ⟨⟩
    decide

/-- Blank text in front is no matter either. -/
theorem fencedBlock_trimEnd (s : List Char) : fencedBlock (trimEnd s) = stripFencedBlock s := by
  obtain ⟨w, hw, hsplit⟩ := exists_trimEnd_eq s
  have htick : '\x60' ∉ w := fun h => absurd (hw _ h) (by decide)
  rw [hsplit, fencedBlock_append, stripFencedBlock]
  · exact not_hasFence htick
  · exact Or.inl fun hlast => htick (List.mem_of_getLast? hlast)

/-- In an answer without a block, the block is that of what comes behind the object. -/
theorem stripFencedBlock_around {n : Nat} {p o : List Char} (ho : Braced n o) (hp : ¬ HasFence p)
    (hfence : ¬ HasFence o) (s : List Char) : stripFencedBlock (p ++ (o ++ s)) = stripFencedBlock s := by
  obtain ⟨htrimmed, hne⟩ := Braced.isTrimmed ho
  obtain ⟨inner, rfl⟩ := ho.ends
  have hp' : ¬ HasFence (trimStart p) := fun h => hp (hasFence_of_suffix h (List.dropWhile_suffix _))
  rw [stripFencedBlock, htrimmed.trim_append hne, fencedBlock_append hp' (Or.inr (by simp)),
    fencedBlock_append hfence (Or.inl (by simp [List.getLast?_cons])), fencedBlock_trimEnd]

theorem stripFencedBlock_fenced {n : Nat} {p o : List Char} (ho : Braced n o) (hp : ¬ HasFence p) (s : List Char) :
    stripFencedBlock (p ++ ("```json\n".toList ++ (o ++ ("\n```".toList ++ s)))) =
      before "```".toList (o ++ ("\n```".toList ++ trimEnd s)) := by
  obtain ⟨htrimmed, hne⟩ := Braced.isTrimmed ho
  have hp' : ¬ HasFence (trimStart p) := fun h => hp (hasFence_of_suffix h (List.dropWhile_suffix _))
  have hmiddle : IsTrimmed ("```json\n".toList ++ (o ++ "\n```".toList)) := by
    refine ⟨?_, ?_⟩
    · rintro c ⟨⟩
      decide
    · rw [← List.append_assoc, List.getLast?_append_of_ne_nil _ (by decide)]
      rintro c ⟨⟩
      decide
  have hassoc (s : List Char) : "```json\n".toList ++ (o ++ ("\n```".toList ++ s)) =
      "```json\n".toList ++ (o ++ "\n```".toList) ++ s := by
    simp only [List.append_assoc]
  rw [stripFencedBlock, hassoc, hmiddle.trim_append (List.append_ne_nil_of_left_ne_nil (by decide) _), ← hassoc,
    fencedBlock_json hp' hne htrimmed.head]

theorem getLast_of_braced {n : Nat} {o : List Char} (ho : Braced n o) : o.getLast? ≠ some '\x60' := by
  obtain ⟨inner, rfl⟩ := ho.ends
  simp [List.getLast?_cons]

theorem passes_nil (checks : Bool) : Passes checks [] := ⟨[], .nil, objectless_nil checks, rfl⟩

/-- **In a block, the object is returned just if no fence is in it**, up to the limit. -/
theorem extract_fenced {checks : Bool} {n : Nat} {p o : List Char} (ho : Braced n o) (hp : ¬ HasFence p)
    (s : List Char) :
    extractJsonObject checks (p ++ ("```json\n".toList ++ (o ++ ("\n```".toList ++ s)))) = some (some o) ↔
      n ≤ limit checks ∧ ¬ HasFence o := by
  rw [extractJsonObject, stripFencedBlock_fenced ho hp]
  by_cases hfence : HasFence o
  · -- the block ends in the object, and is shorter
    obtain ⟨front, hfront, hshort⟩ := exists_before hfence ("\n```".toList ++ trimEnd s)
    rw [hfront, Option.getD_some, objectIn_eq_iff ho]
    constructor
    · rintro ⟨-, u, v, rfl, -⟩
      have hlength : "```".toList.length = 3 := rfl
      simp only [List.length_append] at hshort
      omega
    · rintro ⟨-, hnot⟩
      exact absurd hfence hnot
  · have hblock : before "```".toList (o ++ ("\n```".toList ++ trimEnd s)) = some (o ++ ['\n']) := by
      have hline : before "```".toList ("\n```".toList ++ trimEnd s) = some ['\n'] := by
        have hself := before_self "```".toList (trimEnd s)
        have hnewline := before_append_of_not_mem (c := '\x60') (s := ['\n']) (by decide) ['\x60', '\x60']
          ("```".toList ++ trimEnd s)
        exact hnewline.trans (congrArg (Option.map _) hself)
      rw [before_append (not_fence_begins hfence (Or.inl (getLast_of_braced ho))), hline, Option.map_some]
    rw [hblock, Option.getD_some, objectIn_eq_iff ho]
    constructor
    · rintro ⟨hlimit, -⟩
      exact ⟨hlimit, hfence⟩
    · rintro ⟨hlimit, -⟩
      exact ⟨hlimit, [], ['\n'], rfl, passes_nil checks⟩

/-- Prose that leaves the counter at rest: its strings are closed, and outside of them is no closing brace. A count
that is taken round can not tell 2^32 of them from none. -/
def Quiet (checks : Bool) (p : List Char) : Prop :=
  ∃ w, Unquoted p w ∧ (w.count '\x7d' = 0 ∨ checks = false ∧ 2 ^ 32 ∣ w.count '\x7d')

/-- Without an opening brace, text passes just if it is quiet. -/
theorem passes_iff_quiet {checks : Bool} {p : List Char} (hp : '\x7b' ∉ p) : Passes checks p ↔ Quiet checks p := by
  refine exists_congr fun w => and_congr_right fun hw => ?_
  have hopen : '\x7b' ∉ w := fun h => hp (hw.subset h)
  have hheight {v : List Char} (hv : v <+: w) : height v = -v.count '\x7d' := by
    rw [height, List.count_eq_zero.mpr fun h => hopen (hv.subset h)]
    omega
  have hlevel : Level (height w) ↔ 2 ^ 32 ∣ w.count '\x7d' := by
    rw [hheight (List.prefix_refl w), Level, wrap]
    omega
  have hobject : Objectless checks w ↔ (checks = true → Fits (height w)) := by
    refine ⟨fun h hchecks => h.fits hchecks w (List.prefix_refl w), fun h =>
      ⟨fun hchecks v hv => ?_, fun v hv hbegun => ?_⟩⟩
    · have hfits := h hchecks
      have hcount : v.count '\x7d' ≤ w.count '\x7d' := hv.sublist.count_le _
      rw [hheight (List.prefix_refl w)] at hfits
      rw [hheight hv]
      unfold Fits at *
      omega
    · obtain ⟨u, hu, -⟩ := hbegun
      have hmem : '\x7b' ∈ u ++ ['\x7b'] := List.mem_append_right u List.mem_cons_self
      exact absurd (hv.subset (List.mem_append_left _ (hu.subset hmem))) hopen
  rw [hobject, hlevel, hheight (List.prefix_refl w)]
  unfold Fits
  cases checks with
  | true =>
    simp only [true_implies, Bool.true_eq_false, false_and, or_false]
    omega
  | false =>
    simp only [Bool.false_eq_true, false_implies, true_and]
    omega

/-- Prose without a brace has no place for the object in it. -/
theorem exists_behind {checks : Bool} {n : Nat} {p o s : List Char} (ho : Braced n o) (hp : '\x7b' ∉ p) :
    (∃ u v, p ++ (o ++ s) = u ++ (o ++ v) ∧ Passes checks u) ↔
      Quiet checks p ∨ ∃ u v, u ≠ [] ∧ o ++ s = u ++ (o ++ v) ∧ Passes checks (p ++ u) := by
  constructor
  · rintro ⟨u, v, hsplit, hu⟩
    rcases List.append_eq_append_iff.mp hsplit with ⟨u', rfl, hrest⟩ | ⟨u', rfl, hrest⟩
    · by_cases hne : u' = []
      · rw [hne, List.append_nil, passes_iff_quiet hp] at hu
        exact Or.inl hu
      · exact Or.inr ⟨u', v, hne, hrest, hu⟩
    · -- the brace of the object would be in the prose
      obtain ⟨inner, rfl⟩ := ho.ends
      rcases u' with _ | ⟨c, u'⟩
      · rw [List.append_nil] at hp
        exact Or.inl ((List.append_nil u).symm ▸ (passes_iff_quiet hp).mp hu)
      · obtain ⟨rfl, -⟩ := List.cons.inj hrest
        exact absurd (List.mem_append_right u List.mem_cons_self) hp
  · rintro (hquiet | ⟨u, v, -, hsplit, hu⟩)
    · exact ⟨p, s, rfl, (passes_iff_quiet hp).mpr hquiet⟩
    · exact ⟨p ++ u, v, by rw [hsplit, List.append_assoc], hu⟩

/-- **Behind prose**, an object without a fence is returned just if it is where the counter looks. -/
theorem extract_around {checks : Bool} {n : Nat} {p o s : List Char} (ho : Braced n o) (hp : '\x7b' ∉ p)
    (hfence : ¬ HasFence p) (hfence' : ¬ HasFence o) :
    extractJsonObject checks (p ++ (o ++ s)) = some (some o) ↔
      n ≤ limit checks ∧
        match stripFencedBlock s with
        | none => Quiet checks p ∨ ∃ u v, u ≠ [] ∧ o ++ s = u ++ (o ++ v) ∧ Passes checks (p ++ u)
        | some block => ∃ u v, block = u ++ (o ++ v) ∧ Passes checks u := by
  rw [extractJsonObject, stripFencedBlock_around ho hfence hfence', objectIn_eq_iff ho]
  rcases stripFencedBlock s with _ | block
  · rw [Option.getD_none, exists_behind ho hp]
  · rfl

/-- **The text of a JSON object**, shorter than 2^32 characters and without a fence, is returned from both forms of an
answer, if the prose before it is quiet and no block comes after it. -/
theorem extract_of_json {checks : Bool} {members : List (String × Json)} {p o s : List Char}
    (ho : Denotes (.value (.object members)) o) (hlength : o.length < 2 ^ 32) (hfence' : ¬ HasFence o)
    (hp : '\x7b' ∉ p) (hfence : ¬ HasFence p) (hquiet : Quiet checks p) (hs : stripFencedBlock s = none) :
    extractJsonObject checks (p ++ (o ++ s)) = some (some o) ∧
      extractJsonObject checks (p ++ ("```json\n".toList ++ (o ++ ("\n```".toList ++ s)))) = some (some o) := by
  obtain ⟨n, ho⟩ := exists_braced ho
  have hlimit : n ≤ limit checks := by
    have hnesting := ho.length
    unfold limit
    split_ifs <;> omega
  refine ⟨(extract_around ho hp hfence hfence').mpr ⟨hlimit, ?_⟩, (extract_fenced ho hfence s).mpr ⟨hlimit, hfence'⟩⟩
  rw [hs]
  exact Or.inl hquiet

/-- **What is returned.** Whatever is braced, behind prose without a brace and a fence, is returned from both forms of
an answer just if it has no fence, nests no deeper than the limit, and is where the counter looks: behind prose that is
quiet, or a second time at a place that passes; and if a block comes after it, in that block. -/
theorem extractJsonObject_iff {checks : Bool} {n : Nat} {p o s : List Char} (ho : Braced n o) (hp : '\x7b' ∉ p)
    (hfence : ¬ HasFence p) :
    (extractJsonObject checks (p ++ o ++ s) = some (some o) ∧
      extractJsonObject checks (p ++ "```json\n".toList ++ o ++ "\n```".toList ++ s) = some (some o)) ↔
      n ≤ limit checks ∧ ¬ HasFence o ∧
        match stripFencedBlock s with
        | none => Quiet checks p ∨ ∃ u v, u ≠ [] ∧ o ++ s = u ++ (o ++ v) ∧ Passes checks (p ++ u)
        | some block => ∃ u v, block = u ++ (o ++ v) ∧ Passes checks u := by
  simp only [List.append_assoc]
  rw [extract_fenced ho hfence]
  by_cases hfence' : HasFence o
  · exact ⟨fun h => absurd hfence' h.2.2, fun h => absurd hfence' h.2.1⟩
  rw [extract_around ho hp hfence hfence']
  constructor
  · rintro ⟨⟨hlimit, hplace⟩, -, -⟩
    exact ⟨hlimit, hfence', hplace⟩
  · rintro ⟨hlimit, -, hplace⟩
    exact ⟨⟨hlimit, hplace⟩, hlimit, hfence'⟩

/-- A brace in a string, and prose around the object. -/
theorem extractJsonObject_behind_colon :
    extractJsonObject false ("Use: ".toList ++ "\x7b\"\x7d\":0\x7d".toList ++ " Done.".toList) =
        some (some "\x7b\"\x7d\":0\x7d".toList) ∧
      extractJsonObject false ("Use: ".toList ++ "```json\n".toList ++ "\x7b\"\x7d\":0\x7d".toList ++ "\n```".toList ++
        " Done.".toList) = some (some "\x7b\"\x7d\":0\x7d".toList) := by
  have hinert : IsInert ':' ∧ IsInert '0' := ⟨⟨by decide, by decide, by decide⟩, ⟨by decide, by decide, by decide⟩⟩
  have ho : Braced 1 "\x7b\"\x7d\":0\x7d".toList :=
    .intro (.string (.char (by decide) (by decide) .nil) (.char hinert.1 (.char hinert.2 .nil)))
  have hquiet : Quiet false "Use: ".toList :=
    ⟨_, unquoted_of_not_mem (by decide), Or.inl rfl⟩
  have hprose : '\x7b' ∉ "Use: ".toList := by decide
  have hnone : stripFencedBlock " Done.".toList = none := by decide
  have hlimit : 1 ≤ limit false := by decide
  refine (extractJsonObject_iff ho hprose (not_hasFence (by decide))).mpr ⟨hlimit, not_hasFence (by decide), ?_⟩
  rw [hnone]
  exact Or.inl hquiet

/-- An inch mark opens a string that is never closed, and the object is in it. -/
theorem object_behind_inch_mark :
    Denotes (.value (.object [])) "\x7b\x7d".toList ∧
      '\x7b' ∉ "A 5\" rule: ".toList ∧ ¬ HasFence "A 5\" rule: ".toList ∧
      extractJsonObject true ("A 5\" rule: ".toList ++ "\x7b\x7d".toList ++ []) = some none ∧
      extractJsonObject false ("A 5\" rule: ".toList ++ "\x7b\x7d".toList ++ []) = some none :=
  ⟨.emptyObject space_nil, by decide, not_hasFence (by decide), by decide, by decide⟩

end Nerve.Session.GoalIntent
