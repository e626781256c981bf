import Nerve.Review.Verdict

/-!
# The progress a check shows

When a check fails, the share of the tests that passed is read off its two streams, in thousandths: from the
last line with counts before the words `passed` and `failed`, and from the markers of `go test`. The
least of these is the progress of the round.

The counts are whatever the lead's program prints. Their sum may not fit in 64 bits, and then the line is passed
over; the product with 1000 may not, and then it is cut. `parseProgress_exact_iff` says for which counts
the result is the least of the true shares all the same.
-/

namespace Nerve.Run

open Text

/-! ### The recognisers -/

/-- What is found of the tests that passed and of those that failed. -/
structure TestCounts where
  passed : Nat
  failed : Nat
  deriving DecidableEq, Repr

def TestCounts.total (c : TestCounts) : Nat := c.passed + c.failed

/-- `passed / (passed + failed)` in thousandths. -/
def ratioPermille (passed failed : Nat) : Option Nat :=
  let total := passed + failed
  -- `checked_add`
  if total ≥ 2 ^ 64 then none
  else if total = 0 then none
  else some (min (min (passed * 1000) (2 ^ 64 - 1) / total) 1000)

/-- A token ends at white space, and at these. -/
def endsToken (c : Char) : Bool := isWhitespace c || c == ';' || c == ',' || c == ':'

/-- `str::trim_end_matches('.')`. -/
def trimEndDots (token : List Char) : List Char := (token.reverse.dropWhile (· == '.')).reverse

/-- The number right before a word, where there are several before the last. -/
def countBeforeWord (line : List Char) (word : String) : Option Nat :=
  let tokens := (line.splitOnP endsToken).filter fun token => !token.isEmpty
  (tokens.zip tokens.tail).foldl (fun found pair =>
    if trimEndDots pair.2 = word.toList then (parseUsize pair.1).or found else found) none

/-- The counts of a line, one that is absent being zero. -/
def lineCounts (line : List Char) : Option TestCounts :=
  match countBeforeWord line "passed", countBeforeWord line "failed" with
  | none, none => none
  | passed, failed => some ⟨passed.getD 0, failed.getD 0⟩

def progressFromLine (line : List Char) : Option Nat :=
  (lineCounts line).bind fun counts => ratioPermille counts.passed counts.failed

def isPassMarker (line : List Char) : Bool := "--- PASS:".toList.isPrefixOf (trimStart line)

def isFailMarker (line : List Char) : Bool := "--- FAIL:".toList.isPrefixOf (trimStart line)

/-- One more line, as far as it is a marker of `go test`. -/
def countMarker (counts : TestCounts) (line : List Char) : TestCounts :=
  if isPassMarker line then { counts with passed := counts.passed + 1 }
  else if isFailMarker line then { counts with failed := counts.failed + 1 }
  else counts

def markerCounts (text : List Char) : TestCounts := (Review.lines text).foldl countMarker ⟨0, 0⟩

def goTestProgress (text : List Char) : Option Nat :=
  ratioPermille (markerCounts text).passed (markerCounts text).failed

/-- The lesser of the two, as far as there are two. -/
def pessimistic : Option Nat → Option Nat → Option Nat
  | some a, some b => some (min a b)
  | some a, none => some a
  | none, b => b

def parseProgressIn (text : List Char) : Option Nat :=
  pessimistic ((Review.lines text).filterMap progressFromLine).getLast? (goTestProgress text)

/-- What a check wrote to a stream. No string is longer than this. -/
structure CheckOutput where
  text : List Char
  fits : text.length < 2 ^ 63

def parseProgress (stdout stderr : CheckOutput) : Option Nat :=
  pessimistic (parseProgressIn stdout.text) (parseProgressIn stderr.text)

/-! ### What is to be found -/

/-- The true share, rounded down. -/
def TestCounts.permille (c : TestCounts) : Nat := 1000 * c.passed / c.total

/-- The counts of a line, if they come to anything. -/
def counted (line : List Char) : Option TestCounts := (lineCounts line).filter fun c => c.total ≠ 0

/-- The last line with such counts, and the markers if there are any. -/
def countsIn (count : List Char → Option TestCounts) (text : List Char) : List TestCounts :=
  ((Review.lines text).filterMap count).getLast?.toList ++
    if (markerCounts text).total = 0 then [] else [markerCounts text]

def recognised (stdout stderr : CheckOutput) : List TestCounts :=
  countsIn counted stdout.text ++ countsIn counted stderr.text

/-- A marker of a failed test, with no counts beside it. -/
def BareFailMarker (line : List Char) : Prop := isFailMarker line = true ∧ lineCounts line = none

/-- The second text has one line more. -/
def InsertsLine (line text text' : List Char) : Prop :=
  ∃ above below, Review.lines text = above ++ below ∧ Review.lines text' = above ++ line :: below

/-- There is progress in the second text, and no more than in the first, where none at all counts as zero. -/
def NotRaised (before after : Option Nat) : Prop := ∃ r, after = some r ∧ r ≤ before.getD 0

/-- The progress is the least of the true shares. -/
structure ExactProgress (stdout stderr : CheckOutput) : Prop where
  exact : parseProgress stdout stderr = ((recognised stdout stderr).map TestCounts.permille).min?
  unknown : parseProgress stdout stderr = none ↔ recognised stdout stderr = []
  bounded : ∀ r ∈ parseProgress stdout stderr, r ≤ 1000
  full : parseProgress stdout stderr = some 1000 → ∀ c ∈ recognised stdout stderr, c.failed = 0
  stdoutFailure : ∀ line stdout', BareFailMarker line → InsertsLine line stdout.text stdout'.text →
    NotRaised (parseProgress stdout stderr) (parseProgress stdout' stderr)
  stderrFailure : ∀ line stderr', BareFailMarker line → InsertsLine line stderr.text stderr'.text →
    NotRaised (parseProgress stdout stderr) (parseProgress stdout stderr')

/-! ### What is taken of it -/

def TestCounts.fits (c : TestCounts) : Bool := c.total < 2 ^ 64

/-- The counts of a line, if they can be added up. -/
def addable (line : List Char) : Option TestCounts := (counted line).filter TestCounts.fits

def taken (stdout stderr : CheckOutput) : List TestCounts :=
  countsIn addable stdout.text ++ countsIn addable stderr.text

/-- Neither the lines passed over nor the products that are cut make a difference to the least share. -/
structure Undistorted (stdout stderr : CheckOutput) : Prop where
  reached : ∀ c ∈ recognised stdout stderr, ∃ d ∈ taken stdout stderr,
    d.permille ≤ c.permille ∨ 2 ^ 64 ≤ (c.permille + 1) * d.total
  kept : ∀ d ∈ taken stdout stderr, ∃ c ∈ recognised stdout stderr,
    c.permille ≤ d.permille ∧ c.permille * d.total < 2 ^ 64

/-! ### The least of several numbers -/

theorem pessimistic_min? (l l' : List Nat) : pessimistic l.min? l'.min? = (l ++ l').min? := by
  induction l with
  | nil =>
    rw [List.nil_append, List.min?_nil]
    cases l'.min? <;> rfl
  | cons a l ih =>
    rw [List.cons_append, List.min?_cons, List.min?_cons, ← ih]
    cases l.min? <;> cases l'.min? <;> simp [pessimistic, Nat.min_assoc]

theorem min?_eq_min?_iff {l l' : List Nat} :
    l.min? = l'.min? ↔ (∀ a ∈ l', ∃ b ∈ l, b ≤ a) ∧ ∀ b ∈ l, ∃ a ∈ l', a ≤ b := by
  refine ⟨fun h => ?_, fun ⟨hreached, hkept⟩ => ?_⟩
  · rcases hmin : l.min? with _ | m
    · rw [hmin, eq_comm, List.min?_eq_none_iff] at h
      rw [List.min?_eq_none_iff] at hmin
      simp [h, hmin]
    · rw [hmin, eq_comm] at h
      obtain ⟨hmem, hle⟩ := List.min?_eq_some_iff.mp hmin
      obtain ⟨hmem', hle'⟩ := List.min?_eq_some_iff.mp h
      exact ⟨fun a ha => ⟨m, hmem, hle' a ha⟩, fun b hb => ⟨m, hmem', hle b hb⟩⟩
  · rcases hmin : l.min? with _ | m
    · rw [List.min?_eq_none_iff] at hmin
      subst hmin
      rcases l' with _ | ⟨a, l'⟩
      · rfl
      · obtain ⟨b, hb, -⟩ := hreached a List.mem_cons_self
        cases hb
    · obtain ⟨hmem, hle⟩ := List.min?_eq_some_iff.mp hmin
      have hbelow : ∀ a ∈ l', m ≤ a := by
        intro a ha
        obtain ⟨b, hb, hba⟩ := hreached a ha
        exact (hle b hb).trans hba
      obtain ⟨a, ha, ham⟩ := hkept m hmem
      obtain rfl := Nat.le_antisymm ham (hbelow a ha)
      exact (List.min?_eq_some_iff.mpr ⟨ha, hbelow⟩).symm

/-! ### The ratio of one pair of counts -/

/-- The share with the product cut. -/
def TestCounts.cut (c : TestCounts) : Nat := min (c.passed * 1000) (2 ^ 64 - 1) / c.total

section Counts

variable {c : TestCounts} {r : Nat}

theorem TestCounts.permille_le (c : TestCounts) : c.permille ≤ 1000 := by
  refine Nat.div_le_of_le_mul ?_
  rw [Nat.mul_comm]
  exact Nat.mul_le_mul_right _ (Nat.le_add_right _ _)

theorem TestCounts.cut_le_permille (c : TestCounts) : c.cut ≤ c.permille := by
  refine Nat.div_le_div_right ((Nat.min_le_left _ _).trans_eq (Nat.mul_comm _ _))

theorem TestCounts.cut_le_iff (hc : 0 < c.total) : c.cut ≤ r ↔ c.permille ≤ r ∨ 2 ^ 64 ≤ (r + 1) * c.total := by
  rw [← Nat.lt_succ_iff, ← Nat.lt_succ_iff, cut, permille, Nat.div_lt_iff_lt_mul hc, Nat.div_lt_iff_lt_mul hc,
    Nat.succ_eq_add_one, Nat.mul_comm c.passed]
  omega

theorem TestCounts.le_cut_iff (hc : 0 < c.total) : r ≤ c.cut ↔ r ≤ c.permille ∧ r * c.total < 2 ^ 64 := by
  rw [cut, permille, Nat.le_div_iff_mul_le hc, Nat.le_div_iff_mul_le hc, Nat.mul_comm c.passed]
  omega

/-- Only where no test failed all did pass. -/
theorem TestCounts.failed_of_permille (hc : 0 < c.total) (h : c.permille = 1000) : c.failed = 0 := by
  have hle : 1000 * c.total ≤ 1000 * c.passed := (Nat.le_div_iff_mul_le hc).mp h.ge
  rw [total] at hle
  omega

theorem ratioPermille_eq (c : TestCounts) :
    ratioPermille c.passed c.failed = if 0 < c.total ∧ c.total < 2 ^ 64 then some c.cut else none := by
  have htotal : c.passed + c.failed = c.total := rfl
  have hcut : min (min (c.passed * 1000) (2 ^ 64 - 1) / c.total) 1000 = c.cut :=
    Nat.min_eq_left (c.cut_le_permille.trans c.permille_le)
  simp only [ratioPermille, htotal, hcut]
  split_ifs <;> first | rfl | omega

end Counts

/-! ### What the recognisers find -/

theorem total_pos_of_counted {line : List Char} {c : TestCounts} (h : counted line = some c) : 0 < c.total := by
  have := (Option.filter_eq_some_iff.mp h).2
  simpa [Nat.pos_iff_ne_zero] using this

theorem total_pos_of_addable {line : List Char} {c : TestCounts} (h : addable line = some c) : 0 < c.total :=
  total_pos_of_counted (Option.filter_eq_some_iff.mp h).1

theorem progressFromLine_eq (line : List Char) : progressFromLine line = (addable line).map TestCounts.cut := by
  rw [progressFromLine, addable, counted]
  rcases lineCounts line with _ | c
  · rfl
  · rw [Option.bind_some, ratioPermille_eq]
    by_cases hzero : c.total = 0
    · simp [Option.filter_some, hzero]
    · by_cases hfits : c.total < 2 ^ 64
      · have haddable : c.fits = true := decide_eq_true hfits
        rw [if_pos ⟨Nat.pos_of_ne_zero hzero, hfits⟩]
        simp [Option.filter_some, hzero, haddable]
      · have hbeyond : c.fits = false := decide_eq_false hfits
        rw [if_neg fun h => hfits h.2]
        simp [Option.filter_some, hzero, hbeyond]

theorem foldl_countMarker (lines : List (List Char)) (c : TestCounts) :
    lines.foldl countMarker c = ⟨c.passed + lines.countP isPassMarker,
      c.failed + lines.countP fun line => !isPassMarker line && isFailMarker line⟩ := by
  induction lines generalizing c with
  | nil => rfl
  | cons line lines ih =>
    rw [List.foldl_cons, ih, List.countP_cons, List.countP_cons, countMarker]
    cases isPassMarker line <;> cases isFailMarker line <;> simp <;> omega

theorem markerCounts_eq (text : List Char) :
    markerCounts text = ⟨(Review.lines text).countP isPassMarker,
      (Review.lines text).countP fun line => !isPassMarker line && isFailMarker line⟩ := by
  rw [markerCounts, foldl_countMarker, Nat.zero_add, Nat.zero_add]

/-- There are no more markers than characters. -/
theorem total_markerCounts_le (text : List Char) : (markerCounts text).total ≤ text.length := by
  have hfail : (Review.lines text).countP (fun line => !isPassMarker line && isFailMarker line) ≤
      (Review.lines text).countP fun line => ¬isPassMarker line := by
    refine List.countP_mono_left fun line _ h => ?_
    simp only [Bool.and_eq_true, Bool.not_eq_true'] at h
    simp [h.1]
  have hlines : (Review.lines text).length ≤ text.length := by
    rw [Review.lines, List.length_map]
    exact length_splitInclusive_le _ _
  rw [markerCounts_eq, TestCounts.total]
  refine le_trans (Nat.add_le_add_left hfail _) ?_
  rwa [← List.length_eq_countP_add_countP]

theorem goTestProgress_eq (o : CheckOutput) : goTestProgress o.text =
    if (markerCounts o.text).total = 0 then none else some (markerCounts o.text).cut := by
  have hfits := o.fits
  have hle := total_markerCounts_le o.text
  rw [goTestProgress, ratioPermille_eq]
  split_ifs <;> first | rfl | omega

/-- A stream's progress is the least of the cut shares taken. -/
theorem parseProgressIn_eq (o : CheckOutput) :
    parseProgressIn o.text = ((countsIn addable o.text).map TestCounts.cut).min? := by
  have hsummary : ((Review.lines o.text).filterMap progressFromLine).getLast? =
      (((Review.lines o.text).filterMap addable).getLast?.toList.map TestCounts.cut).min? := by
    rw [funext progressFromLine_eq, ← List.map_filterMap, List.getLast?_map]
    cases List.getLast? _ <;> rfl
  have hmarkers : goTestProgress o.text =
      ((if (markerCounts o.text).total = 0 then [] else [markerCounts o.text]).map TestCounts.cut).min? := by
    rw [goTestProgress_eq]
    split_ifs <;> rfl
  rw [parseProgressIn, hsummary, hmarkers, pessimistic_min?, countsIn, List.map_append]

theorem parseProgress_eq (stdout stderr : CheckOutput) :
    parseProgress stdout stderr = ((taken stdout stderr).map TestCounts.cut).min? := by
  rw [parseProgress, parseProgressIn_eq, parseProgressIn_eq, pessimistic_min?, taken, List.map_append]

theorem total_pos_of_countsIn {count : List Char → Option TestCounts} {text : List Char} {c : TestCounts}
    (hcount : ∀ line c, count line = some c → 0 < c.total) (h : c ∈ countsIn count text) : 0 < c.total := by
  rcases List.mem_append.mp h with h | h
  · obtain ⟨line, -, hline⟩ := List.mem_filterMap.mp (List.mem_of_getLast? (Option.mem_toList.mp h))
    exact hcount line c hline
  · split_ifs at h with hzero
    · cases h
    · rw [List.mem_singleton.mp h]
      exact Nat.pos_of_ne_zero hzero

theorem total_pos_of_taken {stdout stderr : CheckOutput} {c : TestCounts} (h : c ∈ taken stdout stderr) : 0 < c.total :=
  (List.mem_append.mp h).elim (total_pos_of_countsIn fun _ _ => total_pos_of_addable)
    (total_pos_of_countsIn fun _ _ => total_pos_of_addable)

theorem total_pos_of_recognised {stdout stderr : CheckOutput} {c : TestCounts} (h : c ∈ recognised stdout stderr) :
    0 < c.total :=
  (List.mem_append.mp h).elim (total_pos_of_countsIn fun _ _ => total_pos_of_counted)
    (total_pos_of_countsIn fun _ _ => total_pos_of_counted)

/-- Where the counts that are found fit, these are the counts that are taken. -/
theorem countsIn_addable {text : List Char} (h : ∀ c ∈ countsIn counted text, c.fits = true) :
    countsIn addable text = countsIn counted text := by
  have hfilter : (Review.lines text).filterMap addable = ((Review.lines text).filterMap counted).filter TestCounts.fits := by
    rw [List.filter_filterMap]
    rfl
  rw [countsIn, countsIn, hfilter]
  rw [countsIn] at h
  rcases List.eq_nil_or_concat' ((Review.lines text).filterMap counted) with hnil | ⟨l, c, hl⟩
  · rw [hnil, List.filter_nil]
  · rw [hl] at h ⊢
    have hc : c.fits = true := h c (List.mem_append_left _ (by simp))
    rw [List.filter_append, List.filter_cons_of_pos hc, List.filter_nil, List.getLast?_concat, List.getLast?_concat]

/-- Only counts of more than eighteen quadrillions make a difference. -/
theorem undistorted_of_small {stdout stderr : CheckOutput}
    (h : ∀ c ∈ recognised stdout stderr, 1000 * c.total < 2 ^ 64) : Undistorted stdout stderr := by
  have hfits : ∀ c ∈ recognised stdout stderr, c.fits = true := fun c hc => by
    have := h c hc
    simp only [TestCounts.fits, decide_eq_true_eq]
    omega
  have htaken : taken stdout stderr = recognised stdout stderr := by
    rw [taken, countsIn_addable fun c hc => hfits c (List.mem_append_left _ hc),
      countsIn_addable fun c hc => hfits c (List.mem_append_right _ hc), recognised]
  refine ⟨fun c hc => ⟨c, htaken ▸ hc, Or.inl le_rfl⟩, fun d hd => ?_⟩
  rw [htaken] at hd
  exact ⟨d, hd, le_rfl, (Nat.mul_le_mul_right _ d.permille_le).trans_lt (h d hd)⟩

/-! ### One more failed test -/

section Inserted

variable {a a' b : Option Nat} {line : List Char}

theorem pessimistic_comm (a b : Option Nat) : pessimistic a b = pessimistic b a := by
  cases a <;> cases b <;> simp [pessimistic, Nat.min_comm]

theorem NotRaised.pessimistic (h : NotRaised a a') (b : Option Nat) :
    NotRaised (Run.pessimistic a b) (Run.pessimistic a' b) := by
  obtain ⟨r, rfl, hr⟩ := h
  rcases b with _ | s
  · cases a <;> exact ⟨r, rfl, hr⟩
  · refine ⟨min r s, rfl, ?_⟩
    cases a with
    | none => exact (Nat.min_le_left _ _).trans (hr.trans (Nat.zero_le _))
    | some r' => exact Nat.le_min.mpr ⟨(Nat.min_le_left _ _).trans hr, Nat.min_le_right _ _⟩

theorem NotRaised.pessimistic_right (h : NotRaised a a') (b : Option Nat) :
    NotRaised (Run.pessimistic b a) (Run.pessimistic b a') := by
  rw [pessimistic_comm b, pessimistic_comm b]
  exact h.pessimistic b

/-- A marker of a failed test is none of a passed one. -/
theorem not_isPassMarker (h : isFailMarker line = true) : isPassMarker line = false := by
  rw [isPassMarker, Bool.eq_false_iff]
  intro hpass
  have hboth := List.prefix_of_prefix_length_le (List.isPrefixOf_iff_prefix.mp hpass)
    (List.isPrefixOf_iff_prefix.mp h) (by decide)
  exact absurd hboth (by decide)

theorem markerCounts_inserted {text text' : List Char} (hline : isFailMarker line = true)
    (h : InsertsLine line text text') :
    markerCounts text' = ⟨(markerCounts text).passed, (markerCounts text).failed + 1⟩ := by
  obtain ⟨above, below, habove, hbelow⟩ := h
  rw [markerCounts_eq, markerCounts_eq, habove, hbelow]
  simp [not_isPassMarker hline, hline, Nat.add_assoc]

theorem parseProgressIn_inserted {o o' : CheckOutput} (hline : BareFailMarker line)
    (h : InsertsLine line o.text o'.text) : NotRaised (parseProgressIn o.text) (parseProgressIn o'.text) := by
  have hcounts := markerCounts_inserted hline.1 h
  have hsummary : (Review.lines o'.text).filterMap progressFromLine = (Review.lines o.text).filterMap progressFromLine := by
    obtain ⟨above, below, habove, hbelow⟩ := h
    have hnone : progressFromLine line = none := by rw [progressFromLine, hline.2, Option.bind_none]
    rw [habove, hbelow, List.filterMap_append, List.filterMap_append, List.filterMap_cons_none hnone]
  have hafter : goTestProgress o'.text = some (markerCounts o'.text).cut := by
    rw [goTestProgress_eq, if_neg]
    rw [hcounts, TestCounts.total, ← Nat.add_assoc]
    exact Nat.succ_ne_zero _
  rw [parseProgressIn, parseProgressIn, hsummary]
  refine NotRaised.pessimistic_right ⟨_, hafter, ?_⟩ _
  rw [goTestProgress_eq, hcounts]
  split_ifs with hzero
  · rw [TestCounts.total, Nat.add_eq_zero_iff] at hzero
    rw [TestCounts.cut, hzero.1, Nat.zero_mul, Nat.zero_min, Nat.zero_div]
    exact Nat.zero_le _
  · exact Nat.div_le_div_left (Nat.le_succ _) (Nat.pos_of_ne_zero hzero)

end Inserted

/-! ### The least true share -/

/-- **The progress is what it is to be** exactly if nothing that is passed over or cut makes a difference. -/
theorem exactProgress_iff (stdout stderr : CheckOutput) :
    ExactProgress stdout stderr ↔ Undistorted stdout stderr := by
  have hexact : parseProgress stdout stderr = ((recognised stdout stderr).map TestCounts.permille).min? ↔
      Undistorted stdout stderr := by
    rw [parseProgress_eq, min?_eq_min?_iff]
    simp only [List.mem_map, exists_exists_and_eq_and, forall_exists_index, and_imp, forall_apply_eq_imp_iff₂]
    refine ⟨fun ⟨hreached, hkept⟩ => ⟨fun c hc => ?_, fun d hd => ?_⟩, fun ⟨hreached, hkept⟩ =>
      ⟨fun c hc => ?_, fun d hd => ?_⟩⟩
    · obtain ⟨d, hd, hle⟩ := hreached c hc
      exact ⟨d, hd, (TestCounts.cut_le_iff (total_pos_of_taken hd)).mp hle⟩
    · obtain ⟨c, hc, hle⟩ := hkept d hd
      exact ⟨c, hc, (TestCounts.le_cut_iff (total_pos_of_taken hd)).mp hle⟩
    · obtain ⟨d, hd, hle⟩ := hreached c hc
      exact ⟨d, hd, (TestCounts.cut_le_iff (total_pos_of_taken hd)).mpr hle⟩
    · obtain ⟨c, hc, hle⟩ := hkept d hd
      exact ⟨c, hc, (TestCounts.le_cut_iff (total_pos_of_taken hd)).mpr hle⟩
  refine ⟨fun h => hexact.mp h.exact, fun h => ?_⟩
  have hparse := hexact.mpr h
  refine ⟨hparse, ?_, fun r hr => ?_, fun hfull c hc => ?_, fun line stdout' hline hinserts => ?_,
    fun line stderr' hline hinserts => ?_⟩
  · rw [hparse, List.min?_eq_none_iff, List.map_eq_nil_iff]
  · rw [hparse] at hr
    obtain ⟨c, -, rfl⟩ := List.mem_map.mp (List.min?_mem hr)
    exact c.permille_le
  · rw [hparse] at hfull
    have hle := (List.min?_eq_some_iff.mp hfull).2 _ (List.mem_map_of_mem hc)
    exact TestCounts.failed_of_permille (total_pos_of_recognised hc) (Nat.le_antisymm c.permille_le hle)
  · exact (parseProgressIn_inserted hline hinserts).pessimistic _
  · exact (parseProgressIn_inserted hline hinserts).pessimistic_right _

/-- As many tests as there can be pass and none fails: a thousandth. -/
def allPassed : CheckOutput := ⟨"18446744073709551615 passed; 0 failed\n".toList, by decide⟩

def silent : CheckOutput := ⟨[], by decide⟩

theorem all_passed_cut : ¬ExactProgress allPassed silent := by
  intro h
  have hexact := h.exact
  revert hexact
  decide +kernel

end Nerve.Run
