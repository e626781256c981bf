import Nerve.Library.Decimal
import Nerve.Session.Budget

/-!
# The values of `/budget`

What the arguments of `/budget` stand for: a cost is the floor of the millions of a decimal, which the code gets by
cutting a text at a byte (`parseCostValueInBytes`, which is `parseCostValue` and never panics), and the arguments are
pairs, of which the last one of each key counts, and flags. A cost that is shown as text loses its last two digits.
-/

namespace Nerve.Session

open Text Decimal

/-! ### A cost, byte by byte -/

/-- `&s[..n]`, in bytes. The code panics, and there is nothing, where the cut is inside a character or behind the end. -/
def sliceTo : Nat → List Char → Option (List Char)
  | 0, _ => some []
  | _ + 1, [] => none
  | n + 1, c :: s => if c.utf8Size ≤ n + 1 then (sliceTo (n + 1 - c.utf8Size) s).map (c :: ·) else none

/-- `str::len`. -/
def byteLength (s : List Char) : Nat := (s.map Char.utf8Size).sum

/-- `u64::checked_mul`. -/
def checkedMul (a b : Nat) : Option Nat := if a * b < 2 ^ 64 then some (a * b) else none

/-- `u64::checked_add`. -/
def checkedAdd (a b : Nat) : Option Nat := if a + b < 2 ^ 64 then some (a + b) else none

/-- The end of `parse_cost_value`, where the texts are digits: the cut at a byte and the checked sums. There is nothing
where it panics. -/
def costInBytes (raw dollarsStr fractionalStr : List Char) : Option (Except BudgetParseError Nat) :=
  let invalid := Except.error (.invalidValue (String.ofList raw))
  match parseUsize dollarsStr with
  | none => some invalid
  | some dollars =>
    let padded := fractionalStr ++ List.replicate (6 - fractionalStr.length) '0'
    (sliceTo (min 6 (byteLength padded)) padded).map fun truncated =>
      match if truncated.isEmpty then some 0 else parseUsize truncated with
      | none => invalid
      | some micros =>
        match (checkedMul dollars 1000000).bind fun v => checkedAdd v micros with
        | none => invalid
        | some total => if total = 0 then invalid else .ok total

/-- `parse_cost_value`, with that end. -/
def parseCostValueInBytes (raw : List Char) : Option (Except BudgetParseError Nat) :=
  let invalid := Except.error (.invalidValue (String.ofList raw))
  let trimmed := trim raw
  if trimmed.isEmpty then some (.error .emptyValue)
  else
    match stripPrefix ['$'] trimmed with
    | none => some (.error .unitMissing)
    | some rest =>
      if rest.isEmpty then some (.error .emptyValue)
      else if rest.contains '-' || rest.contains '+' || rest.head? == some '.' then some invalid
      else
        let dollarsStr := rest.takeWhile (· ≠ '.')
        let fractionalStr := (rest.dropWhile (· ≠ '.')).tail
        if dollarsStr.isEmpty || !dollarsStr.all Char.isDigit then some invalid
        else if !fractionalStr.all Char.isDigit then some invalid
        else costInBytes raw dollarsStr fractionalStr

/-- `format_cost_microusd`. -/
def formatCostMicrousd (microusd : Nat) : List Char :=
  let dollars := microusd / 1000000
  let fractional := microusd % 1000000
  let four := fractional / 100
  '$' :: (digits dollars ++ '.' :: fixed 4 four)

theorem utf8Size_of_isDigit {c : Char} (h : c.isDigit = true) : c.utf8Size = 1 := by
  simp only [Char.isDigit, Bool.and_eq_true, decide_eq_true_eq] at h
  have hhigh : c.val ≤ 57 := h.2
  rw [Char.utf8Size, if_pos (UInt32.le_trans hhigh (by decide))]

theorem sliceTo_of_isDigit {n : Nat} {s : List Char} (h : ∀ c ∈ s, c.isDigit = true) (hn : n ≤ s.length) :
    sliceTo n s = some (s.take n) := by
  induction s generalizing n with
  | nil =>
    obtain rfl : n = 0 := by simpa using hn
    rfl
  | cons c s ih =>
    obtain ⟨hc, hs⟩ := List.forall_mem_cons.mp h
    cases n with
    | zero => rfl
    | succ n =>
      rw [sliceTo, utf8Size_of_isDigit hc, if_pos (by omega), Nat.add_sub_cancel, ih hs (by simpa using hn)]
      rfl

theorem byteLength_of_isDigit {s : List Char} (h : ∀ c ∈ s, c.isDigit = true) : byteLength s = s.length := by
  induction s with
  | nil => rfl
  | cons c s ih =>
    obtain ⟨hc, hs⟩ := List.forall_mem_cons.mp h
    have hsum : byteLength (c :: s) = c.utf8Size + byteLength s := List.sum_cons
    rw [hsum, ih hs, utf8Size_of_isDigit hc, List.length_cons, Nat.add_comm]

/-- Digits are read as their number, below the bound. -/
theorem parseUsize_of_isDigit {s : List Char} (hne : s ≠ []) (h : ∀ c ∈ s, c.isDigit = true) :
    parseUsize s = if numeral s < 2 ^ 64 then some (numeral s) else none := by
  have hplus : stripPrefix ['+'] s = none := by
    rw [stripPrefix, if_neg]
    intro hstarts
    obtain ⟨rest, rfl⟩ := List.isPrefixOf_iff_prefix.mp hstarts
    exact absurd (h '+' List.mem_cons_self) (by decide)
  have hall : s.all Char.isDigit = true := List.all_eq_true.mpr h
  rw [parseUsize, hplus, Option.getD_none, List.isEmpty_eq_false_iff.mpr hne, hall]
  rfl

theorem parseUsize_firstDigits {s : List Char} (h : ∀ c ∈ s, c.isDigit = true) :
    parseUsize (firstDigits 6 s) = some (numeral (firstDigits 6 s)) := by
  have hlength := length_firstDigits 6 s
  have hdigits := isDigit_firstDigits (k := 6) h
  have hlt := numeral_lt hdigits
  rw [parseUsize_of_isDigit (List.ne_nil_of_length_pos (by omega)) hdigits, if_pos]
  rw [hlength] at hlt
  omega

/-- What is cut is digits, so the cut is between two characters. -/
theorem sliceTo_padded {s : List Char} (h : ∀ c ∈ s, c.isDigit = true) :
    sliceTo (min 6 (byteLength (s ++ List.replicate (6 - s.length) '0'))) (s ++ List.replicate (6 - s.length) '0') =
      some (firstDigits 6 s) := by
  have hpadded : ∀ c ∈ s ++ List.replicate (6 - s.length) '0', c.isDigit = true := by
    intro c hc
    obtain hc | hc := List.mem_append.mp hc
    · exact h c hc
    · rw [List.eq_of_mem_replicate hc]
      rfl
  have hlength : 6 ≤ (s ++ List.replicate (6 - s.length) '0').length := by
    rw [List.length_append, List.length_replicate]
    omega
  rw [byteLength_of_isDigit hpadded, min_eq_left hlength, sliceTo_of_isDigit hpadded hlength]
  rfl

/-! ### Which costs are read -/

/-- A cost as it is typed: a dollar sign, digits, and maybe a point with digits behind it. -/
structure IsCostText (s whole fraction : List Char) : Prop where
  whole_ne_nil : whole ≠ []
  whole_digits : ∀ c ∈ whole, c.isDigit = true
  fraction_digits : ∀ c ∈ fraction, c.isDigit = true
  text : s = '$' :: whole ∧ fraction = [] ∨ s = '$' :: (whole ++ '.' :: fraction)

theorem not_mem_of_isDigit {s : List Char} {c : Char} (h : ∀ c ∈ s, c.isDigit = true) (hc : c.isDigit = false) : c ∉ s :=
  fun hmem => Bool.false_ne_true (hc.symm.trans (h c hmem))

/-- Where the text splits at its first point. -/
theorem split_point {whole fraction : List Char} (h : ∀ c ∈ whole, c.isDigit = true) {rest : List Char}
    (hrest : rest = whole ∧ fraction = [] ∨ rest = whole ++ '.' :: fraction) :
    rest.takeWhile (· ≠ '.') = whole ∧ (rest.dropWhile (· ≠ '.')).tail = fraction := by
  have hpoint : ∀ c ∈ whole, decide (c ≠ '.') = true := by
    intro c hc
    have hne : c ≠ '.' := fun heq => not_mem_of_isDigit h rfl (heq ▸ hc)
    exact decide_eq_true hne
  obtain ⟨rfl, rfl⟩ | rfl := hrest
  · exact ⟨List.takeWhile_eq_self_iff.mpr hpoint, by rw [List.dropWhile_eq_nil_iff.mpr hpoint]; rfl⟩
  · rw [List.takeWhile_append_of_pos hpoint, List.dropWhile_append_of_pos hpoint]
    exact ⟨List.append_nil _, rfl⟩

theorem split_point_eq (rest : List Char) :
    rest = rest.takeWhile (· ≠ '.') ∧ (rest.dropWhile (· ≠ '.')).tail = [] ∨
      rest = rest.takeWhile (· ≠ '.') ++ '.' :: (rest.dropWhile (· ≠ '.')).tail := by
  have hsplit := (List.takeWhile_append_dropWhile (p := fun c => decide (c ≠ '.')) (l := rest)).symm
  have hhead := List.head?_dropWhile_not (fun c => decide (c ≠ '.')) rest
  cases hdrop : rest.dropWhile (fun c => decide (c ≠ '.')) with
  | nil =>
    rw [hdrop, List.append_nil] at hsplit
    exact .inl ⟨hsplit, rfl⟩
  | cons c tail =>
    rw [hdrop] at hsplit hhead
    obtain rfl : c = '.' := by simpa using hhead
    exact .inr hsplit

theorem positive_eq_ok {raw : List Char} {v : Option Nat} {n : Nat} :
    positive raw v = .ok n ↔ v = some n ∧ 1 ≤ n ∧ n < 2 ^ 64 := by
  cases v with
  | none => simp [positive]
  | some v =>
    rw [positive]
    split_ifs with h
    · refine iff_of_false (fun h => nomatch h) ?_
      rintro ⟨hv, hn⟩
      cases hv
      omega
    · rw [Except.ok.injEq, Option.some.injEq]
      constructor
      · rintro rfl
        omega
      · exact fun h => h.1

section cost

variable {raw whole fraction : List Char}

/-- What a cost text is worth, in machine numbers. -/
def microsOfDecimal (whole fraction : List Char) : Option Nat := do
  let dollars ← parseUsize whole
  let micros ← microsOf fraction
  pure (dollars * 1000000 + micros)

theorem microsOfDecimal_eq_some (hne : whole ≠ []) (hwhole : ∀ c ∈ whole, c.isDigit = true)
    (hfraction : ∀ c ∈ fraction, c.isDigit = true) {n : Nat} (hn : n < 2 ^ 64) :
    microsOfDecimal whole fraction = some n ↔ n = ⌊10 ^ 6 * decimal whole fraction⌋₊ := by
  have hmicros : microsOf fraction = some (numeral (firstDigits 6 fraction)) := parseUsize_firstDigits hfraction
  rw [floor_decimal whole hfraction, microsOfDecimal, hmicros, parseUsize_of_isDigit hne hwhole]
  by_cases hlt : numeral whole < 2 ^ 64
  · rw [if_pos hlt]
    exact ⟨fun h => (Option.some.inj h).symm, fun h => congrArg some h.symm⟩
  · rw [if_neg hlt]
    refine iff_of_false (fun h => nomatch h) ?_
    rintro rfl
    omega

/-- A cost text is read as its decimal. -/
theorem IsCostText.parseCostValue (h : IsCostText (trim raw) whole fraction) :
    parseCostValue raw = positive raw (microsOfDecimal whole fraction) := by
  obtain ⟨rest, hrest, hsplit⟩ : ∃ rest, trim raw = ['$'] ++ rest ∧
      (rest = whole ∧ fraction = [] ∨ rest = whole ++ '.' :: fraction) := by
    obtain ⟨htext, hnone⟩ | htext := h.text
    · exact ⟨_, htext, .inl ⟨rfl, hnone⟩⟩
    · exact ⟨_, htext, .inr rfl⟩
  obtain ⟨htake, hdrop⟩ := split_point h.whole_digits hsplit
  have hmem : ∀ c ∈ rest, c.isDigit = true ∨ c = '.' := by
    obtain ⟨rfl, -⟩ | rfl := hsplit
    · exact fun c hc => .inl (h.whole_digits c hc)
    · intro c hc
      obtain hc | hc := List.mem_append.mp hc
      · exact .inl (h.whole_digits c hc)
      · obtain rfl | hc := List.mem_cons.mp hc
        · exact .inr rfl
        · exact .inl (h.fraction_digits c hc)
  have hminus : rest.contains '-' = false := by
    rw [List.contains_eq_mem, decide_eq_false_iff_not]
    exact fun hc => (hmem _ hc).elim (by decide) (by decide)
  have hplus : rest.contains '+' = false := by
    rw [List.contains_eq_mem, decide_eq_false_iff_not]
    exact fun hc => (hmem _ hc).elim (by decide) (by decide)
  obtain ⟨d, tail, hd⟩ := List.exists_cons_of_ne_nil h.whole_ne_nil
  obtain ⟨tail', hhead⟩ : ∃ tail', rest = d :: tail' := by
    obtain ⟨rfl, -⟩ | rfl := hsplit
    · exact ⟨tail, hd⟩
    · exact ⟨tail ++ '.' :: fraction, by rw [hd, List.cons_append]⟩
  have hpoint : (rest.head? == some '.') = false := by
    have hdigit := h.whole_digits d (hd ▸ List.mem_cons_self)
    rw [hhead]
    simp only [List.head?_cons, beq_eq_false_iff_ne, ne_eq, Option.some.injEq]
    rintro rfl
    exact absurd hdigit (by decide)
  have hempty : rest.isEmpty = false := by rw [hhead]; rfl
  have hwhole : whole.isEmpty = false := by rw [hd]; rfl
  have hdollars : whole.all Char.isDigit = true := List.all_eq_true.mpr h.whole_digits
  have hfraction : fraction.all Char.isDigit = true := List.all_eq_true.mpr h.fraction_digits
  rw [Session.parseCostValue, hrest, stripPrefix_append]
  dsimp only
  rw [hempty, hminus, hplus, hpoint, htake, hdrop, hwhole, hdollars, hfraction]
  rfl

theorem isCostText_of_parseCostValue {n : Nat} (h : parseCostValue raw = .ok n) :
    ∃ whole fraction, IsCostText (trim raw) whole fraction := by
  rw [parseCostValue] at h
  dsimp only at h
  split at h
  · cases h
  · split at h
    · cases h
    · rename_i rest hrest
      split_ifs at h with hempty hsign hdigits
      simp only [Bool.or_eq_true, Bool.not_eq_true', not_or, Bool.not_eq_true, Bool.not_eq_false] at hdigits
      obtain ⟨⟨hne, hwhole⟩, hfraction⟩ := hdigits
      refine ⟨_, _, List.isEmpty_eq_false_iff.mp hne, List.all_eq_true.mp hwhole, List.all_eq_true.mp hfraction, ?_⟩
      rw [eq_append_of_stripPrefix hrest]
      obtain ⟨hsplit, hnone⟩ | hsplit := split_point_eq rest
      · exact .inl ⟨congrArg ('$' :: ·) hsplit, hnone⟩
      · exact .inr (congrArg ('$' :: ·) hsplit)

/-- Which costs are read, and as what. -/
theorem parseCostValue_eq_ok {n : Nat} :
    parseCostValue raw = .ok n ↔ ∃ whole fraction, IsCostText (trim raw) whole fraction ∧
      n = ⌊10 ^ 6 * decimal whole fraction⌋₊ ∧ 1 ≤ n ∧ n < 2 ^ 64 := by
  constructor
  · intro h
    obtain ⟨whole, fraction, htext⟩ := isCostText_of_parseCostValue h
    rw [htext.parseCostValue, positive_eq_ok] at h
    obtain ⟨hvalue, hpos, hlt⟩ := h
    exact ⟨whole, fraction, htext,
      (microsOfDecimal_eq_some htext.whole_ne_nil htext.whole_digits htext.fraction_digits hlt).mp hvalue, hpos, hlt⟩
  · rintro ⟨whole, fraction, htext, hvalue, hpos, hlt⟩
    rw [htext.parseCostValue, positive_eq_ok]
    exact ⟨(microsOfDecimal_eq_some htext.whole_ne_nil htext.whole_digits htext.fraction_digits hlt).mpr hvalue, hpos, hlt⟩

end cost

theorem parseTokensValue_eq_ok {raw : List Char} {n : Nat} :
    parseTokensValue raw = .ok n ↔
      trim raw ≠ [] ∧ (∀ c ∈ trim raw, c.isDigit = true) ∧ n = numeral (trim raw) ∧ 1 ≤ n ∧ n < 2 ^ 64 := by
  rw [parseTokensValue]
  split_ifs with hempty hdigits
  · exact iff_of_false (fun h => nomatch h) fun h => h.1 (List.isEmpty_iff.mp hempty)
  · refine iff_of_false (fun h => nomatch h) fun h => ?_
    rw [List.all_eq_true.mpr h.2.1] at hdigits
    exact Bool.false_ne_true hdigits
  · have hne : trim raw ≠ [] := fun h => hempty (List.isEmpty_iff.mpr h)
    rw [Bool.not_eq_true, Bool.not_eq_false'] at hdigits
    have hall := List.all_eq_true.mp hdigits
    rw [positive_eq_ok, parseUsize_of_isDigit hne hall]
    constructor
    · rintro ⟨hvalue, hpos, hlt⟩
      exact ⟨hne, hall, (Option.some.inj (Option.ite_none_right_eq_some.mp hvalue).2).symm, hpos, hlt⟩
    · rintro ⟨-, -, rfl, hpos, hlt⟩
      exact ⟨if_pos hlt, hpos, hlt⟩

theorem checked_eq (dollars unit micros : Nat) :
    ((checkedMul dollars unit).bind fun v => checkedAdd v micros) =
      if dollars * unit + micros < 2 ^ 64 then some (dollars * unit + micros) else none := by
  rw [checkedMul]
  by_cases hmul : dollars * unit < 2 ^ 64
  · rw [if_pos hmul, Option.bind_some, checkedAdd]
  · have hsum : ¬dollars * unit + micros < 2 ^ 64 := fun h => hmul (Nat.lt_of_le_of_lt (Nat.le_add_right _ _) h)
    rw [if_neg hmul, if_neg hsum, Option.bind_none]

/-- The checked sum, and the test on it. -/
theorem checked_positive (raw : List Char) (dollars unit micros : Nat) :
    (match (checkedMul dollars unit).bind fun v => checkedAdd v micros with
      | none => Except.error (.invalidValue (String.ofList raw))
      | some total => if total = 0 then Except.error (.invalidValue (String.ofList raw)) else .ok total) =
      positive raw (some (dollars * unit + micros)) := by
  rw [checked_eq, positive]
  generalize dollars * unit + micros = total
  by_cases hlt : total < 2 ^ 64
  · by_cases hzero : total = 0
    · rw [if_pos hlt, if_pos (.inl hzero)]
      dsimp only
      rw [if_pos hzero]
    · rw [if_pos hlt, if_neg (not_or.mpr ⟨hzero, Nat.not_le_of_lt hlt⟩)]
      dsimp only
      rw [if_neg hzero]
  · rw [if_neg hlt, if_pos (.inr (Nat.le_of_not_lt hlt))]

theorem costInBytes_eq (raw whole : List Char) {fraction : List Char} (h : ∀ c ∈ fraction, c.isDigit = true) :
    costInBytes raw whole fraction = some (positive raw (microsOfDecimal whole fraction)) := by
  have hmicros : microsOf fraction = some (numeral (firstDigits 6 fraction)) := parseUsize_firstDigits h
  have hne : (firstDigits 6 fraction).isEmpty = false :=
    List.isEmpty_eq_false_iff.mpr (List.ne_nil_of_length_pos (by rw [length_firstDigits]; decide))
  rw [costInBytes, microsOfDecimal, hmicros]
  cases parseUsize whole with
  | none => rfl
  | some dollars =>
    dsimp only
    rw [sliceTo_padded h, Option.map_some, hne, if_neg Bool.false_ne_true, parseUsize_firstDigits h]
    -- Inside first: of the two matches, the kernel would compare what they are on.
    simp -iota only [checked_positive]
    rfl

/-- **The bytes are no matter**: the cut never panics, and a sum that the machine can not hold is no cost. -/
theorem parseCostValueInBytes_eq (raw : List Char) : parseCostValueInBytes raw = some (parseCostValue raw) := by
  rw [parseCostValueInBytes, parseCostValue]
  dsimp only
  split_ifs with hempty
  · rfl
  · cases stripPrefix ['$'] (trim raw) with
    | none => rfl
    | some rest =>
      dsimp only
      cases hfraction : (rest.dropWhile (· ≠ '.')).tail.all Char.isDigit with
      | false =>
        cases rest.isEmpty <;> cases rest.contains '-' || rest.contains '+' || rest.head? == some '.' <;>
          cases (rest.takeWhile (· ≠ '.')).isEmpty || !(rest.takeWhile (· ≠ '.')).all Char.isDigit <;> rfl
      | true =>
        rw [costInBytes_eq _ _ (List.all_eq_true.mp hfraction)]
        cases rest.isEmpty <;> cases rest.contains '-' || rest.contains '+' || rest.head? == some '.' <;>
          cases (rest.takeWhile (· ≠ '.')).isEmpty || !(rest.takeWhile (· ≠ '.')).all Char.isDigit <;> rfl

/-! ### Which arguments are read -/

/-- An argument of `/budget`. -/
inductive BudgetWord where
  | force
  | cost (microusd : Nat)
  | tokens (n : Nat)
  deriving DecidableEq, Repr

/-- The text is a key, an equals sign and the value. -/
def IsPair (key : String) (token : String) (value : List Char) : Prop :=
  ∃ typed, trim token.toList = typed ++ '=' :: value ∧ typed.map Char.toLower = key.toList

/-- What a token says, if it says something. -/
inductive Reads : String → BudgetWord → Prop
  | force : Reads "--force" .force
  | cost {token : String} {value : List Char} {n : Nat} (hpair : IsPair "cost" token value)
    (hvalue : parseCostValue value = .ok n) : Reads token (.cost n)
  | tokens {token : String} {value : List Char} {n : Nat} (hpair : IsPair "tokens" token value)
    (hvalue : parseTokensValue value = .ok n) : Reads token (.tokens n)

/-- One turn of the loop of `parse_budget_args`. -/
def readWord (token : String) : Except BudgetParseError BudgetWord :=
  if token = "--force" then .ok .force
  else
    let trimmed := trim token.toList
    if trimmed.isEmpty then .error .emptyValue
    else
      let lower := trimmed.map Char.toLower
      let valueAfterEq := trim (trimmed.dropWhile (· ≠ '=')).tail
      if "cost=".toList.isPrefixOf lower then
        if valueAfterEq.isEmpty then .error .emptyValue else (parseCostValue valueAfterEq).map .cost
      else if "tokens=".toList.isPrefixOf lower then
        if valueAfterEq.isEmpty then .error .emptyValue else (parseTokensValue valueAfterEq).map .tokens
      else .error .unitMissing

theorem budgetArguments_cons (cost toks : Option Nat) (force : Bool) (token : String) (rest : List String) :
    budgetArguments cost toks force (token :: rest) = (readWord token).bind fun
      | .force => budgetArguments cost toks true rest
      | .cost n => budgetArguments (some n) toks force rest
      | .tokens n => budgetArguments cost (some n) force rest := by
  rw [budgetArguments, readWord]
  dsimp only
  split_ifs
  · rfl
  · rfl
  · rfl
  · cases parseCostValue (trim ((trim token.toList).dropWhile (· ≠ '=')).tail) <;> rfl
  · rfl
  · cases parseTokensValue (trim ((trim token.toList).dropWhile (· ≠ '=')).tail) <;> rfl
  · rfl

/-- The text behind the first equals sign. -/
theorem tail_dropWhile_equals {typed : List Char} (h : '=' ∉ typed) (value : List Char) :
    ((typed ++ '=' :: value).dropWhile (· ≠ '=')).tail = value := by
  have htyped : ∀ c ∈ typed, decide (c ≠ '=') = true := fun c hc => decide_eq_true fun heq => h (heq ▸ hc)
  rw [List.dropWhile_append_of_pos htyped]
  rfl

/-- A key that is followed by an equals sign is all that is in front of it. -/
theorem isPair_iff {key token : String} {value : List Char} (hkey : '=' ∉ key.toList) :
    IsPair key token value ↔ (key.toList ++ ['=']).isPrefixOf ((trim token.toList).map Char.toLower) = true ∧
      value = ((trim token.toList).dropWhile (· ≠ '=')).tail := by
  have htyped {typed : List Char} (h : typed.map Char.toLower = key.toList) : '=' ∉ typed :=
    fun hmem => hkey (h ▸ List.mem_map.mpr ⟨_, hmem, rfl⟩)
  rw [List.isPrefixOf_iff_prefix]
  constructor
  · rintro ⟨typed, htoken, htypedKey⟩
    refine ⟨⟨value.map Char.toLower, ?_⟩, ?_⟩
    · rw [htoken, List.map_append, List.map_cons, htypedKey, List.append_assoc]
      rfl
    · rw [htoken, tail_dropWhile_equals (htyped htypedKey)]
  · rintro ⟨⟨rest, hrest⟩, rfl⟩
    obtain ⟨front, tail, htoken, hfront, -⟩ := List.map_eq_append_iff.mp hrest.symm
    obtain ⟨typed, last, rfl, htypedKey, hlast⟩ := List.map_eq_append_iff.mp hfront
    obtain ⟨c, behind, rfl, hc, hnil⟩ := List.map_eq_cons_iff.mp hlast
    obtain rfl := List.map_eq_nil_iff.mp hnil
    obtain rfl := (toLower_eq_iff (by decide)).mp hc
    have htext : trim token.toList = typed ++ '=' :: tail := by rw [htoken, List.append_assoc]; rfl
    refine ⟨typed, ?_, htypedKey⟩
    rw [htext, tail_dropWhile_equals (htyped htypedKey)]

theorem trim_trim (s : List Char) : trim (trim s) = trim s := (isTrimmed_trim s).trim

/-- White space around a cost is no matter. -/
theorem parseCostValue_trim {raw : List Char} {n : Nat} : parseCostValue (trim raw) = .ok n ↔ parseCostValue raw = .ok n := by
  rw [parseCostValue_eq_ok, parseCostValue_eq_ok, trim_trim]

theorem parseTokensValue_trim {raw : List Char} {n : Nat} :
    parseTokensValue (trim raw) = .ok n ↔ parseTokensValue raw = .ok n := by
  rw [parseTokensValue_eq_ok, parseTokensValue_eq_ok, trim_trim]

theorem ok_of_map {ε α β : Type} {f : α → β} {x : Except ε α} {b : β} (h : x.map f = .ok b) :
    ∃ a, x = .ok a ∧ f a = b := by
  cases x with
  | error e => cases h
  | ok a => exact ⟨a, rfl, Except.ok.inj h⟩

theorem isEmpty_of_ok {parse : List Char → Except BudgetParseError Nat} (hnil : parse [] = .error .emptyValue)
    {s : List Char} {n : Nat} (h : parse s = .ok n) : s.isEmpty = false := by
  cases s with
  | nil =>
    rw [hnil] at h
    cases h
  | cons => rfl

theorem isEmpty_of_prefix {s t : List Char} (hs : s.isEmpty = false)
    (h : s.isPrefixOf (t.map Char.toLower) = true) : t.isEmpty = false := by
  cases t with
  | nil =>
    obtain rfl := List.prefix_nil.mp (List.isPrefixOf_iff_prefix.mp h)
    cases hs
  | cons => rfl

theorem readWord_eq_ok {token : String} {word : BudgetWord} : readWord token = .ok word ↔ Reads token word := by
  have hcost : '=' ∉ "cost".toList := by decide
  have htokens : '=' ∉ "tokens".toList := by decide
  constructor
  · intro h
    rw [readWord] at h
    dsimp only at h
    split_ifs at h with hforce hempty hstarts hvalue hstarts' hvalue
    · cases h
      exact hforce ▸ .force
    · obtain ⟨n, hn, rfl⟩ := ok_of_map h
      exact .cost ((isPair_iff hcost).mpr ⟨hstarts, rfl⟩) (parseCostValue_trim.mp hn)
    · obtain ⟨n, hn, rfl⟩ := ok_of_map h
      exact .tokens ((isPair_iff htokens).mpr ⟨hstarts', rfl⟩) (parseTokensValue_trim.mp hn)
  · intro h
    cases h with
    | force => rfl
    | cost hpair hvalue =>
      obtain ⟨hstarts, rfl⟩ := (isPair_iff hcost).mp hpair
      have hforce : token ≠ "--force" := by
        rintro rfl
        exact absurd hstarts (by decide)
      have hblank := isEmpty_of_prefix rfl hstarts
      have hparse := parseCostValue_trim.mpr hvalue
      have hkey : "cost=".toList.isPrefixOf ((trim token.toList).map Char.toLower) = true := hstarts
      rw [readWord, if_neg hforce]
      dsimp only
      rw [hblank, if_neg Bool.false_ne_true, if_pos hkey, isEmpty_of_ok rfl hparse, if_neg Bool.false_ne_true, hparse]
      rfl
    | tokens hpair hvalue =>
      obtain ⟨hstarts, rfl⟩ := (isPair_iff htokens).mp hpair
      have hforce : token ≠ "--force" := by
        rintro rfl
        exact absurd hstarts (by decide)
      have hblank := isEmpty_of_prefix rfl hstarts
      have hparse := parseTokensValue_trim.mpr hvalue
      have hkey : "tokens=".toList.isPrefixOf ((trim token.toList).map Char.toLower) = true := hstarts
      have hother : ¬"cost=".toList.isPrefixOf ((trim token.toList).map Char.toLower) = true := fun h =>
        absurd (List.prefix_of_prefix_length_le (List.isPrefixOf_iff_prefix.mp h) (List.isPrefixOf_iff_prefix.mp hkey)
          (by decide)) (by decide)
      rw [readWord, if_neg hforce]
      dsimp only
      rw [hblank, if_neg Bool.false_ne_true, if_neg hother, if_pos hkey, isEmpty_of_ok rfl hparse,
        if_neg Bool.false_ne_true, hparse]
      rfl

/-! ### What the last one says -/

/-- The cost that a token sets. -/
def costOf (token : String) : Option Nat :=
  match readWord token with
  | .ok (.cost microusd) => some microusd
  | _ => none

/-- The tokens that a token sets. -/
def tokensOf (token : String) : Option Nat :=
  match readWord token with
  | .ok (.tokens n) => some n
  | _ => none

theorem costOf_eq_some {token : String} {n : Nat} : costOf token = some n ↔ readWord token = .ok (.cost n) := by
  rw [costOf]
  split <;> simp_all

theorem tokensOf_eq_some {token : String} {n : Nat} : tokensOf token = some n ↔ readWord token = .ok (.tokens n) := by
  rw [tokensOf]
  split <;> simp_all

/-- The loop reads every token, and keeps the last of each kind. -/
theorem budgetArguments_eq_ok {cost toks : Option Nat} {force : Bool} {tokens : List String}
    {result : Option Nat × Option Nat × Bool} :
    budgetArguments cost toks force tokens = .ok result ↔ (∀ token ∈ tokens, ∃ word, readWord token = .ok word) ∧
      result = ((tokens.filterMap costOf).getLast?.or cost, (tokens.filterMap tokensOf).getLast?.or toks,
        force || tokens.contains "--force") := by
  induction tokens generalizing cost toks force with
  | nil => simp [budgetArguments, eq_comm]
  | cons token tokens ih =>
    rw [budgetArguments_cons]
    cases hword : readWord token with
    | error e =>
      refine iff_of_false (fun h => nomatch h) fun h => ?_
      obtain ⟨word, h⟩ := h.1 token List.mem_cons_self
      rw [hword] at h
      cases h
    | ok word =>
      cases word with
      | force =>
        have hcost : costOf token = none := by rw [costOf, hword]
        have htokens : tokensOf token = none := by rw [tokensOf, hword]
        obtain rfl : token = "--force" := by
          cases readWord_eq_ok.mp hword
          rfl
        simp [Except.bind, ih, hcost, htokens, hword]
      | cost n =>
        have hcost : costOf token = some n := by rw [costOf, hword]
        have htokens : tokensOf token = none := by rw [tokensOf, hword]
        have hforce : "--force" ≠ token := by
          rintro rfl
          cases hword
        simp [Except.bind, ih, hcost, htokens, hword, hforce, List.getLast?_cons]
      | tokens n =>
        have hcost : costOf token = none := by rw [costOf, hword]
        have htokens : tokensOf token = some n := by rw [tokensOf, hword]
        have hforce : "--force" ≠ token := by
          rintro rfl
          cases hword
        simp [Except.bind, ih, hcost, htokens, hword, hforce, List.getLast?_cons]

theorem ok_of_ite {p : Prop} [Decidable p] {ε α : Type} {e : ε} {x : Except ε α} {a : α}
    (h : (if p then .error e else x) = Except.ok a) : ¬p ∧ x = .ok a := by
  split_ifs at h with hp
  exact ⟨hp, h⟩

/-- There is a pair where something is set. -/
theorem exists_pair_iff {tokens : List String} :
    (∃ token ∈ tokens, ∃ word, readWord token = .ok word ∧ word ≠ .force) ↔
      ¬((tokens.filterMap costOf).getLast? = none ∧ (tokens.filterMap tokensOf).getLast? = none) := by
  rw [List.getLast?_eq_none_iff, List.getLast?_eq_none_iff, List.filterMap_eq_nil_iff, List.filterMap_eq_nil_iff]
  constructor
  · rintro ⟨token, hmem, word, hword, hne⟩ ⟨hcost, htokens⟩
    cases word with
    | force => exact hne rfl
    | cost n => exact absurd (costOf_eq_some.mpr hword) (by rw [hcost token hmem]; exact nofun)
    | tokens n => exact absurd (tokensOf_eq_some.mpr hword) (by rw [htokens token hmem]; exact nofun)
  · intro h
    by_contra hnone
    refine h ⟨fun token hmem => ?_, fun token hmem => ?_⟩
    · exact Option.eq_none_iff_forall_not_mem.mpr fun n hn =>
        hnone ⟨token, hmem, _, costOf_eq_some.mp hn, nofun⟩
    · exact Option.eq_none_iff_forall_not_mem.mpr fun n hn =>
        hnone ⟨token, hmem, _, tokensOf_eq_some.mp hn, nofun⟩

/-- Which arguments set a budget, and which one. -/
theorem parseBudgetArgs_eq_set {tokens : List String} {cost toks : Option Nat} {force : Bool} :
    parseBudgetArgs tokens = .ok (.set cost toks force) ↔
      (∀ token ∈ tokens, ∃ word, Reads token word) ∧ (∃ token ∈ tokens, ∃ word, Reads token word ∧ word ≠ .force) ∧
      cost = (tokens.filterMap costOf).getLast? ∧ toks = (tokens.filterMap tokensOf).getLast? ∧
      force = tokens.contains "--force" := by
  simp only [← readWord_eq_ok]
  rw [exists_pair_iff]
  unfold parseBudgetArgs
  split
  · simp
  · refine iff_of_false (fun h => nomatch h) fun h => ?_
    obtain ⟨word, h⟩ := h.1 "show" List.mem_cons_self
    cases h
  · constructor
    · intro h
      cases hloop : budgetArguments none none false tokens with
      | error e =>
        rw [hloop] at h
        cases h
      | ok result =>
        rw [hloop] at h
        obtain ⟨hreads, rfl⟩ := budgetArguments_eq_ok.mp hloop
        rw [Option.or_none, Option.or_none, Bool.false_or] at h
        obtain ⟨hpair, h⟩ := ok_of_ite h
        cases h
        rw [Option.isNone_iff_eq_none, Option.isNone_iff_eq_none] at hpair
        exact ⟨hreads, hpair, rfl, rfl, rfl⟩
    · rintro ⟨hreads, hpair, rfl, rfl, rfl⟩
      rw [← Option.isNone_iff_eq_none, ← Option.isNone_iff_eq_none] at hpair
      rw [budgetArguments_eq_ok.mpr ⟨hreads, rfl⟩, Option.or_none, Option.or_none, Bool.false_or]
      exact if_neg hpair

/-- The key of a token. -/
def budgetKey (token : String) : List Char := ((trim token.toList).takeWhile (· ≠ '=')).map Char.toLower

/-- The tokens in another order, in which those of each key stay in theirs. -/
structure SameOrder (tokens tokens' : List String) : Prop where
  perm : tokens.Perm tokens'
  keys : ∀ key, tokens.filter (budgetKey · == key) = tokens'.filter (budgetKey · == key)

theorem IsPair.budgetKey_eq {key token : String} {value : List Char} (h : IsPair key token value) (hkey : '=' ∉ key.toList) :
    budgetKey token = key.toList := by
  obtain ⟨typed, htoken, htyped⟩ := h
  have hnone : ∀ c ∈ typed, decide (c ≠ '=') = true := by
    intro c hc
    refine decide_eq_true fun heq => hkey (htyped ▸ List.mem_map.mpr ⟨c, hc, ?_⟩)
    rw [heq]
    rfl
  rw [budgetKey, htoken, List.takeWhile_append_of_pos hnone, ← htyped]
  exact congrArg (List.map Char.toLower) (List.append_nil typed)

theorem filterMap_of_key {f : String → Option Nat} {key : List Char} (h : ∀ token n, f token = some n → budgetKey token = key)
    (tokens : List String) : (tokens.filter (budgetKey · == key)).filterMap f = tokens.filterMap f := by
  rw [List.filterMap_filter]
  congr 1
  funext token
  cases hf : f token with
  | none => exact ite_self none
  | some n => rw [h token n hf, if_pos (beq_self_eq_true key)]

theorem budgetKey_of_costOf {token : String} {n : Nat} (h : costOf token = some n) : budgetKey token = "cost".toList := by
  cases readWord_eq_ok.mp (costOf_eq_some.mp h) with
  | cost hpair hvalue => exact hpair.budgetKey_eq (by decide)

theorem budgetKey_of_tokensOf {token : String} {n : Nat} (h : tokensOf token = some n) :
    budgetKey token = "tokens".toList := by
  cases readWord_eq_ok.mp (tokensOf_eq_some.mp h) with
  | tokens hpair hvalue => exact hpair.budgetKey_eq (by decide)

theorem SameOrder.symm {tokens tokens' : List String} (h : SameOrder tokens tokens') : SameOrder tokens' tokens :=
  ⟨h.perm.symm, fun key => (h.keys key).symm⟩

theorem SameOrder.parseBudgetArgs {tokens tokens' : List String} (h : SameOrder tokens tokens') {cost toks : Option Nat}
    {force : Bool} (hset : parseBudgetArgs tokens = .ok (.set cost toks force)) :
    parseBudgetArgs tokens' = .ok (.set cost toks force) := by
  obtain ⟨hreads, ⟨token, hmem, hpair⟩, hcost, htokens, hforce⟩ := parseBudgetArgs_eq_set.mp hset
  refine parseBudgetArgs_eq_set.mpr ⟨fun token hmem => hreads token (h.perm.mem_iff.mpr hmem),
    ⟨token, h.perm.mem_iff.mp hmem, hpair⟩, ?_, ?_, ?_⟩
  · rw [hcost, ← filterMap_of_key (fun _ _ => budgetKey_of_costOf) tokens, h.keys, filterMap_of_key]
    exact fun _ _ => budgetKey_of_costOf
  · rw [htokens, ← filterMap_of_key (fun _ _ => budgetKey_of_tokensOf) tokens, h.keys, filterMap_of_key]
    exact fun _ _ => budgetKey_of_tokensOf
  · rw [hforce, List.contains_eq_mem, List.contains_eq_mem]
    exact decide_eq_decide.mpr h.perm.mem_iff

/-! ### A cost that is shown -/

theorem trim_of_isWord {s : List Char} (h : IsWord s) : trim s = s :=
  IsTrimmed.trim ⟨fun c hc => h.2 c (List.mem_of_head? hc), fun c hc => h.2 c (List.mem_of_getLast? hc)⟩

theorem isWord_formatCostMicrousd (n : Nat) : IsWord (formatCostMicrousd n) := by
  refine isWord_of_isDigit (List.cons_ne_nil _ _) fun c hc => ?_
  obtain rfl | hc := List.mem_cons.mp hc
  · exact .inr rfl
  · obtain hc | hc := List.mem_append.mp hc
    · exact .inl (digits_isDigit hc)
    · obtain rfl | hc := List.mem_cons.mp hc
      · exact .inr rfl
      · exact .inl (isDigit_fixed c hc)

/-- A cost that is shown loses what is below a hundredth of a cent. -/
theorem parseCostValue_formatCostMicrousd {n : Nat} (hn : 100 ≤ n) (hlt : n < 2 ^ 64) :
    parseCostValue (formatCostMicrousd n) = .ok (n / 100 * 100) := by
  have hwidth : n % 1000000 / 100 < 10 ^ 4 := by omega
  have hlength : (fixed 4 (n % 1000000 / 100)).length = 4 := length_fixed (by decide) hwidth
  have htext : trim (formatCostMicrousd n) = '$' :: (digits (n / 1000000) ++ '.' :: fixed 4 (n % 1000000 / 100)) :=
    trim_of_isWord (isWord_formatCostMicrousd n)
  refine parseCostValue_eq_ok.mpr ⟨digits (n / 1000000), fixed 4 (n % 1000000 / 100),
    ⟨Nat.toDigits_ne_nil, fun c hc => digits_isDigit hc, isDigit_fixed, .inr htext⟩, ?_, by omega, by omega⟩
  rw [floor_decimal _ isDigit_fixed, numeral_firstDigits isDigit_fixed, hlength, numeral_fixed, digits, numeral_toDigits]
  omega

/-- **A budget is what was typed.** A cost is read if it is a dollar sign with a decimal whose millions, cut to a whole
number, are one at least and fit the machine; tokens are read if they are digits with such a number; and neither panics.
A budget is set by flags and pairs with values that are read, if there is a pair. The last pair of each key is the one
that counts, whatever is between them. A cost that is shown is read as itself without its last two digits. -/
theorem budget_as_typed :
    (∀ raw n, parseCostValue raw = .ok n ↔ ∃ whole fraction, IsCostText (trim raw) whole fraction ∧
      n = ⌊10 ^ 6 * decimal whole fraction⌋₊ ∧ 1 ≤ n ∧ n < 2 ^ 64) ∧
    (∀ raw, parseCostValueInBytes raw = some (parseCostValue raw)) ∧
    (∀ raw n, parseTokensValue raw = .ok n ↔
      trim raw ≠ [] ∧ (∀ c ∈ trim raw, c.isDigit = true) ∧ n = numeral (trim raw) ∧ 1 ≤ n ∧ n < 2 ^ 64) ∧
    (∀ tokens cost toks force, parseBudgetArgs tokens = .ok (.set cost toks force) ↔
      (∀ token ∈ tokens, ∃ word, Reads token word) ∧ (∃ token ∈ tokens, ∃ word, Reads token word ∧ word ≠ .force) ∧
      cost = (tokens.filterMap costOf).getLast? ∧ toks = (tokens.filterMap tokensOf).getLast? ∧
      force = tokens.contains "--force") ∧
    (∀ token n, (costOf token = some n ↔ Reads token (.cost n)) ∧ (tokensOf token = some n ↔ Reads token (.tokens n))) ∧
    (∀ tokens tokens', SameOrder tokens tokens' → ∀ cost toks force,
      parseBudgetArgs tokens = .ok (.set cost toks force) ↔ parseBudgetArgs tokens' = .ok (.set cost toks force)) ∧
    ∀ n, 100 ≤ n → n < 2 ^ 64 → parseCostValue (formatCostMicrousd n) = .ok (n / 100 * 100) :=
  ⟨fun _ _ => parseCostValue_eq_ok, parseCostValueInBytes_eq, fun _ _ => parseTokensValue_eq_ok,
    fun _ _ _ _ => parseBudgetArgs_eq_set,
    fun _ _ => ⟨costOf_eq_some.trans readWord_eq_ok, tokensOf_eq_some.trans readWord_eq_ok⟩,
    fun _ _ h _ _ _ => ⟨h.parseBudgetArgs, h.symm.parseBudgetArgs⟩,
    fun _ => parseCostValue_formatCostMicrousd⟩

theorem budget_as_typed_shown : parseCostValue (formatCostMicrousd 123456789) = .ok 123456700 := by
  obtain ⟨-, -, -, -, -, -, hshown⟩ := budget_as_typed
  exact hshown 123456789 (by decide) (by decide)

end Nerve.Session
