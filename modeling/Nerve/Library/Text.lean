import Mathlib.Algebra.Group.Int.Defs
import Mathlib.Algebra.GroupWithZero.Nat
import Mathlib.Data.List.Basic
import Mathlib.Data.List.TakeWhile
import Mathlib.Tactic.Common

/-!
# Text as characters

The parts of Rust's `str` that are not Lean's: white space is Unicode's `White_Space`, where
Lean's own notion is that of ASCII, lines are cut behind their ends, and numbers are read with
a bound.
-/

namespace Nerve.Text

/-! ### White space -/

/-- `char::is_whitespace`. -/
def isWhitespace (c : Char) : Bool :=
  let n := c.toNat
  (9 ≤ n && n ≤ 13) || n == 0x20 || n == 0x85 || n == 0xA0 || n == 0x1680 || (0x2000 ≤ n && n ≤ 0x200A) ||
    n == 0x2028 || n == 0x2029 || n == 0x202F || n == 0x205F || n == 0x3000

/-- `str::trim_start`. -/
def trimStart (s : List Char) : List Char := s.dropWhile isWhitespace

/-- `str::trim_end`. -/
def trimEnd (s : List Char) : List Char := (s.reverse.dropWhile isWhitespace).reverse

/-- `str::trim`. -/
def trim (s : List Char) : List Char := trimEnd (trimStart s)

/-- `str::split_whitespace`. -/
def splitWhitespace (s : List Char) : List (List Char) := (s.splitOnP isWhitespace).filter fun word => !word.isEmpty

/-- The text is one word: there is something in it, and no white space. -/
def IsWord (s : List Char) : Prop := s ≠ [] ∧ ∀ c ∈ s, isWhitespace c = false

theorem isWord_of_all {s : List Char} (h : (!s.isEmpty && s.all fun c => !isWhitespace c) = true) : IsWord s := by
  simpa [IsWord] using h

theorem trimStart_of_head {c : Char} {s : List Char} (hc : isWhitespace c = false) : trimStart (c :: s) = c :: s := by
  rw [trimStart, List.dropWhile_cons_of_neg (by rw [hc]; exact Bool.false_ne_true)]

theorem trimStart_append_of_blank {s : List Char} (h : ∀ c ∈ s, isWhitespace c = true) (t : List Char) :
    trimStart (s ++ t) = trimStart t :=
  List.dropWhile_append_of_pos h

theorem trimStart_append_of_ne_nil {s : List Char} (h : trimStart s ≠ []) (t : List Char) :
    trimStart (s ++ t) = trimStart s ++ t := by
  rw [trimStart, List.dropWhile_append, if_neg (by rwa [List.isEmpty_iff])]
  rfl

/-- A text of which nothing is left is blank. -/
theorem blank_of_trim {s : List Char} (h : trim s = []) : ∀ c ∈ s, isWhitespace c = true := by
  have hrest : ∀ c ∈ trimStart s, isWhitespace c = true := by
    intro c hc
    exact List.dropWhile_eq_nil_iff.mp (List.reverse_eq_nil_iff.mp h) c (List.mem_reverse.mpr hc)
  intro c hc
  rw [← List.takeWhile_append_dropWhile (p := isWhitespace) (l := s)] at hc
  rcases List.mem_append.mp hc with hc | hc
  · exact List.mem_takeWhile_imp hc
  · exact hrest c hc

theorem trimStart_ne_nil_of_trim {s : List Char} (h : trim s ≠ []) : trimStart s ≠ [] := by
  intro hnil
  rw [trim, hnil] at h
  exact h rfl

/-- There is no white space at the ends of the text. -/
structure IsTrimmed (s : List Char) : Prop where
  head : ∀ c ∈ s.head?, isWhitespace c = false
  last : ∀ c ∈ s.getLast?, isWhitespace c = false

theorem IsTrimmed.trim {s : List Char} (h : IsTrimmed s) : trim s = s := by
  have hstart : trimStart s = s := by
    cases s with
    | nil => rfl
    | cons c s => exact trimStart_of_head (h.head c rfl)
  have hend : trimStart s.reverse = s.reverse := by
    cases hs : s.reverse with
    | nil => rfl
    | cons c t =>
      refine trimStart_of_head (h.last c ?_)
      rw [List.getLast?_eq_head?_reverse, hs]
      rfl
  rw [Text.trim, hstart, trimEnd, ← trimStart, hend, List.reverse_reverse]

/-- What is not blank stops the trimming. -/
theorem trimStart_append_of_head {b : List Char} (hne : b ≠ []) (hb : ∀ c ∈ b.head?, isWhitespace c = false)
    (a : List Char) : trimStart (a ++ b) = trimStart a ++ b := by
  by_cases ha : trimStart a = []
  · obtain ⟨c, b, rfl⟩ := List.exists_cons_of_ne_nil hne
    rw [trimStart_append_of_blank (List.dropWhile_eq_nil_iff.mp ha), ha, trimStart_of_head (hb c rfl), List.nil_append]
  · exact trimStart_append_of_ne_nil ha b

theorem trimEnd_append_of_last {a : List Char} (hne : a ≠ []) (ha : ∀ c ∈ a.getLast?, isWhitespace c = false)
    (b : List Char) : trimEnd (a ++ b) = a ++ trimEnd b := by
  have hstart := trimStart_append_of_head (List.reverse_ne_nil_iff.mpr hne) (by rwa [List.head?_reverse]) b.reverse
  rw [trimEnd, trimEnd, ← trimStart, ← trimStart, List.reverse_append, hstart, List.reverse_append,
    List.reverse_reverse]

/-- What is trimmed stays, and what is around it is trimmed on the outer side. -/
theorem IsTrimmed.trim_append {m : List Char} (h : IsTrimmed m) (hne : m ≠ []) (a b : List Char) :
    Text.trim (a ++ (m ++ b)) = trimStart a ++ (m ++ trimEnd b) := by
  have hhead : ∀ c ∈ (m ++ b).head?, isWhitespace c = false := by
    rw [List.head?_append_of_ne_nil m hne]
    exact h.head
  have hlast : ∀ c ∈ (trimStart a ++ m).getLast?, isWhitespace c = false := by
    rw [List.getLast?_append_of_ne_nil _ hne]
    exact h.last
  rw [Text.trim, trimStart_append_of_head (List.append_ne_nil_of_left_ne_nil hne b) hhead, ← List.append_assoc,
    trimEnd_append_of_last (List.append_ne_nil_of_right_ne_nil _ hne) hlast, List.append_assoc]

/-- What is trimmed at its end alone is blank up to what is trimmed. -/
theorem exists_trimEnd_eq (s : List Char) : ∃ w, (∀ c ∈ w, isWhitespace c = true) ∧ trimEnd s = w ++ trim s := by
  have hsplit : s.takeWhile isWhitespace ++ trimStart s = s := List.takeWhile_append_dropWhile
  by_cases hblank : trimStart s = []
  · have hend : trimStart s.reverse = [] :=
      List.dropWhile_eq_nil_iff.mpr fun c hc => List.dropWhile_eq_nil_iff.mp hblank c (List.mem_reverse.mp hc)
    exact ⟨[], List.forall_mem_nil _, by rw [trim, hblank, trimEnd, ← trimStart, hend]; rfl⟩
  · have hend : trimStart (trimStart s).reverse ≠ [] := by
      intro hend
      obtain ⟨c, rest, hrest⟩ := List.exists_cons_of_ne_nil hblank
      have hc := List.head?_dropWhile_not isWhitespace s
      rw [← trimStart, hrest] at hc
      have hc' := List.dropWhile_eq_nil_iff.mp hend c (by rw [hrest]; simp)
      simp [hc'] at hc
    refine ⟨s.takeWhile isWhitespace, fun c hc => List.mem_takeWhile_imp hc, ?_⟩
    conv_lhs => rw [← hsplit]
    rw [trim, trimEnd, trimEnd, ← trimStart, ← trimStart, List.reverse_append, trimStart_append_of_ne_nil hend,
      List.reverse_append, List.reverse_reverse]

theorem isTrimmed_trim (s : List Char) : IsTrimmed (trim s) := by
  have hhead (s : List Char) : ∀ c ∈ (trimStart s).head?, isWhitespace c = false := by
    intro c hc
    have h := List.head?_dropWhile_not isWhitespace s
    rw [← trimStart, Option.mem_def.mp hc] at h
    simpa using h
  refine ⟨fun c hc => ?_, fun c hc => ?_⟩
  · have hprefix : trimEnd (trimStart s) <+: trimStart s := by
      rw [trimEnd, ← List.reverse_suffix, List.reverse_reverse]
      exact List.dropWhile_suffix _
    obtain ⟨rest, hrest⟩ := hprefix
    refine hhead s c ?_
    rw [← hrest, Option.mem_def, List.head?_append_of_ne_nil]
    · exact hc
    · rintro hnil
      rw [trim, hnil] at hc
      cases hc
  · rw [trim, trimEnd, List.getLast?_reverse] at hc
    exact hhead _ c hc

theorem mem_of_mem_trim {s : List Char} {c : Char} (h : c ∈ trim s) : c ∈ s := by
  rw [trim, trimEnd, List.mem_reverse] at h
  exact List.dropWhile_subset _ (List.mem_reverse.mp (List.dropWhile_subset _ h))

theorem IsWord.trimStart {s : List Char} (h : IsWord s) : trimStart s = s := by
  rcases s with _ | ⟨c, s⟩
  · rfl
  · exact trimStart_of_head (h.2 c List.mem_cons_self)

theorem IsWord.splitWhitespace {s : List Char} (h : IsWord s) : splitWhitespace s = [s] := by
  have hsplit : s.splitOnP isWhitespace = [s] :=
    List.splitOnP_eq_singleton h.2
  rw [Text.splitWhitespace, hsplit]
  simp [h.1]

/-- A word and what comes after white space. -/
theorem IsWord.splitWhitespace_append {s : List Char} (h : IsWord s) {c : Char} (hc : isWhitespace c = true)
    (rest : List Char) : Text.splitWhitespace (s ++ c :: rest) = s :: Text.splitWhitespace rest := by
  have hsplit : (s ++ c :: rest).splitOnP isWhitespace = s :: rest.splitOnP isWhitespace :=
    List.splitOnP_append_cons_of_forall_mem h.2 c hc rest
  rw [Text.splitWhitespace, hsplit, List.filter_cons_of_pos (by simp [h.1]), Text.splitWhitespace]

theorem IsWord.splitWhitespace_space {s : List Char} (h : IsWord s) (rest : List Char) :
    Text.splitWhitespace (s ++ ' ' :: rest) = s :: Text.splitWhitespace rest :=
  h.splitWhitespace_append rfl rest

/-- The first word of a text that begins with one. -/
theorem head_splitWhitespace {c : Char} {s : List Char} (hc : isWhitespace c = false) :
    ∃ word rest, c :: s = word ++ rest ∧ IsWord word ∧ (∀ d ∈ rest.head?, isWhitespace d = true) ∧
      (splitWhitespace (c :: s)).head? = some word := by
  have hword : IsWord ((c :: s).takeWhile fun c => !isWhitespace c) := by
    refine ⟨?_, fun d hd => ?_⟩
    · rw [List.takeWhile_cons_of_pos (by rw [hc]; rfl)]
      exact List.cons_ne_nil _ _
    · simpa using List.mem_takeWhile_imp hd
  have hsplit : c :: s = ((c :: s).takeWhile fun c => !isWhitespace c) ++ (c :: s).dropWhile fun c => !isWhitespace c :=
    (List.takeWhile_append_dropWhile).symm
  have hhead : ∀ d ∈ ((c :: s).dropWhile fun c => !isWhitespace c).head?, isWhitespace d = true := by
    intro d hd
    have := List.head?_dropWhile_not (fun c => !isWhitespace c) (c :: s)
    rw [Option.mem_def.mp hd] at this
    simpa using this
  refine ⟨_, _, hsplit, hword, hhead, ?_⟩
  rcases hrest : (c :: s).dropWhile fun c => !isWhitespace c with _ | ⟨d, rest⟩
  · rw [hrest, List.append_nil] at hsplit
    rw [← hsplit] at hword ⊢
    rw [hword.splitWhitespace, List.head?_cons]
  · have hd : isWhitespace d = true := hhead d (by rw [hrest]; rfl)
    rw [hrest] at hsplit
    conv_lhs => rw [hsplit]
    rw [hword.splitWhitespace_append hd, List.head?_cons]

/-! ### Case -/

/-- What is no letter has no other case. -/
theorem toLower_eq_iff {c d : Char} (hd : d.isAlpha = false) : c.toLower = d ↔ c = d := by
  have hcases : (d.isUpper || d.isLower) = false := hd
  obtain ⟨hupper, hlower⟩ := Bool.or_eq_false_iff.mp hcases
  delta Char.toLower
  split
  case isTrue hc =>
    have hlow : 65 ≤ c.val.toNat := hc.1
    have hhigh : c.val.toNat ≤ 90 := hc.2
    constructor
    · rintro rfl
      refine absurd (Bool.and_eq_true_iff.mpr ⟨decide_eq_true ?_, decide_eq_true ?_⟩) (Bool.eq_false_iff.mp hlower)
      · show 97 ≤ (c.val + 32).toNat
        rw [UInt32.toNat_add]
        have h32 : (32 : UInt32).toNat = 32 := rfl
        omega
      · show (c.val + 32).toNat ≤ 122
        rw [UInt32.toNat_add]
        have h32 : (32 : UInt32).toNat = 32 := rfl
        omega
    · rintro rfl
      exact absurd (decide_eq_true hc) (Bool.eq_false_iff.mp hupper)
  case isFalse => rfl

theorem map_toLower_eq_iff {s p : List Char} (hp : p.any Char.isAlpha = false) : s.map Char.toLower = p ↔ s = p := by
  induction p generalizing s with
  | nil => exact List.map_eq_nil_iff
  | cons d p ih =>
    rw [List.any_cons, Bool.or_eq_false_iff] at hp
    obtain ⟨hd, hp⟩ := hp
    rcases s with _ | ⟨c, s⟩
    · simp
    · rw [List.map_cons, List.cons.injEq, List.cons.injEq, toLower_eq_iff hd, ih hp]

/-! ### Beginnings -/

/-- `str::strip_prefix`. -/
def stripPrefix (p s : List Char) : Option (List Char) := if p.isPrefixOf s then some (s.drop p.length) else none

theorem stripPrefix_append (p s : List Char) : stripPrefix p (p ++ s) = some s := by
  rw [stripPrefix, if_pos (by simp), List.drop_left]

theorem eq_append_of_stripPrefix {p s rest : List Char} (h : stripPrefix p s = some rest) : s = p ++ rest := by
  unfold stripPrefix at h
  split_ifs at h with hprefix
  cases h
  obtain ⟨rest, rfl⟩ := List.isPrefixOf_iff_prefix.mp hprefix
  rw [List.drop_left]

/-- What begins otherwise does not begin with `p`. -/
theorem stripPrefix_eq_none {p s : List Char} (hp : p ≠ []) (hs : s.head? ≠ p.head?) : stripPrefix p s = none := by
  rw [stripPrefix, if_neg]
  intro hprefix
  obtain ⟨rest, rfl⟩ := List.isPrefixOf_iff_prefix.mp hprefix
  exact hs (List.head?_append_of_ne_nil p hp)

/-- What comes before the first place where `p` begins, if there is one. -/
def before (p : List Char) : List Char → Option (List Char)
  | [] => if p.isEmpty then some [] else none
  | c :: s => if p.isPrefixOf (c :: s) then some [] else (before p s).map (c :: ·)

theorem before_nil (p : List Char) : before p [] = if p.isEmpty then some [] else none := rfl

theorem before_cons (p : List Char) (c : Char) (s : List Char) :
    before p (c :: s) = if p.isPrefixOf (c :: s) then some [] else (before p s).map (c :: ·) := rfl

/-- Where `p` begins nowhere in the one part, it is looked for in the other. -/
theorem before_append {p a b : List Char} (h : ∀ a₁ a₂, a = a₁ ++ a₂ → a₂ ≠ [] → ¬ p <+: a₂ ++ b) :
    before p (a ++ b) = (before p b).map (a ++ ·) := by
  induction a with
  | nil => simp
  | cons c a ih =>
    have hnot : ¬ p.isPrefixOf (c :: (a ++ b)) = true := fun hbegins =>
      h [] (c :: a) rfl (List.cons_ne_nil c a) (List.isPrefixOf_iff_prefix.mp hbegins)
    rw [List.cons_append, before_cons, if_neg hnot, ih fun a₁ a₂ ha => h (c :: a₁) a₂ (congrArg (c :: ·) ha), Option.map_map]
    rfl

theorem before_self (p b : List Char) : before p (p ++ b) = some [] := by
  have hbegins : p.isPrefixOf (p ++ b) = true := List.isPrefixOf_iff_prefix.mpr (List.prefix_append p b)
  rcases hlist : p ++ b with _ | ⟨c, s⟩
  · rw [before_nil, if_pos (by rw [(List.append_eq_nil_iff.mp hlist).1]; rfl)]
  · rw [before_cons, if_pos (hlist ▸ hbegins)]

/-- Where `p` is in the one part, it is not looked for in the other. -/
theorem exists_before {p a : List Char} (h : p <:+: a) (b : List Char) :
    ∃ front, before p (a ++ b) = some front ∧ front.length + p.length ≤ a.length := by
  induction a with
  | nil =>
    obtain rfl := List.infix_nil.mp h
    exact ⟨[], before_self [] b, Nat.le_refl 0⟩
  | cons c a ih =>
    rw [List.cons_append, before_cons]
    split_ifs with hbegins
    · exact ⟨[], rfl, by simpa using h.length_le⟩
    · rcases List.infix_cons_iff.mp h with h | h
      · exact absurd (List.isPrefixOf_iff_prefix.mpr (h.trans (List.prefix_append _ b))) hbegins
      · obtain ⟨front, hfront, hlength⟩ := ih h
        refine ⟨c :: front, by rw [hfront]; rfl, ?_⟩
        simp only [List.length_cons]
        omega

/-- Where the first character of `p` is not, `p` does not begin. -/
theorem before_append_of_not_mem {c : Char} {s : List Char} (hs : c ∉ s) (p t : List Char) :
    before (c :: p) (s ++ t) = (before (c :: p) t).map (s ++ ·) := by
  refine before_append fun s₁ s₂ hsplit hne hbegins => ?_
  obtain ⟨d, s₂, rfl⟩ := List.exists_cons_of_ne_nil hne
  obtain ⟨rfl, -⟩ := List.cons_prefix_cons.mp hbegins
  exact hs (hsplit ▸ List.mem_append_right s₁ List.mem_cons_self)

theorem before_isSome_iff {p s : List Char} : (before p s).isSome = true ↔ p <:+: s := by
  induction s with
  | nil => simp [before_nil]
  | cons c s ih =>
    rw [before_cons, List.infix_cons_iff, ← List.isPrefixOf_iff_prefix, ← ih]
    split_ifs with hhere
    · simp [hhere]
    · simp [hhere]

/-- What goes over no `sep` is on the one side of it or on the other. -/
theorem infix_append_cons_iff {p s t : List Char} {sep : Char} (hp : sep ∉ p) :
    p <:+: s ++ sep :: t ↔ p <:+: s ∨ p <:+: t := by
  constructor
  · rintro ⟨a, b, heq⟩
    obtain ⟨u, rfl, -⟩ | ⟨u, hhead, htail⟩ := List.append_eq_append_iff.mp heq
    · exact .inl ⟨a, u, rfl⟩
    · cases u with
      | nil => exact .inl ⟨a, [], by simpa using hhead⟩
      | cons c u =>
        obtain ⟨rfl, rfl⟩ := List.cons.inj htail
        obtain ⟨v, -, rfl⟩ | ⟨v, -, hbehind⟩ := List.append_eq_append_iff.mp hhead
        · simp at hp
        · cases v with
          | nil =>
            obtain rfl : sep :: u = p := hbehind
            simp at hp
          | cons c v =>
            obtain ⟨-, rfl⟩ := List.cons.inj hbehind
            exact .inr ⟨v, b, rfl⟩
  · rintro (h | h)
    · exact h.trans (List.prefix_append s _).isInfix
    · exact h.trans ((List.suffix_cons sep t).trans (List.suffix_append s _)).isInfix

/-! ### Lines -/

/-- `str::split_inclusive`: cut behind every `sep`. -/
def splitInclusive (sep : Char) : List Char → List (List Char)
  | [] => []
  | c :: s =>
    if c = sep then [c] :: splitInclusive sep s
    else
      match splitInclusive sep s with
      | [] => [[c]]
      | line :: lines => (c :: line) :: lines

theorem splitInclusive_cons (sep c : Char) (s : List Char) : splitInclusive sep (c :: s) =
    if c = sep then [c] :: splitInclusive sep s
    else
      match splitInclusive sep s with
      | [] => [[c]]
      | line :: lines => (c :: line) :: lines := rfl

/-- A line that ends with `sep`, and has it nowhere else. -/
def IsLine (sep : Char) (line : List Char) : Prop := ∃ l, sep ∉ l ∧ line = l ++ [sep]

/-- A line that ends without `sep`. -/
def IsOpenLine (sep : Char) (line : List Char) : Prop := sep ∉ line ∧ line ≠ []

theorem splitInclusive_line {sep : Char} {l : List Char} (hl : sep ∉ l) (rest : List Char) :
    splitInclusive sep (l ++ sep :: rest) = (l ++ [sep]) :: splitInclusive sep rest := by
  induction l with
  | nil => rw [List.nil_append, splitInclusive_cons, if_pos rfl, List.nil_append]
  | cons c l ih =>
    rw [List.mem_cons, not_or] at hl
    rw [List.cons_append, splitInclusive_cons, if_neg (Ne.symm hl.1), ih hl.2]
    rfl

/-- Cutting lines that were joined gives them back. -/
theorem splitInclusive_flatten {sep : Char} {lines : List (List Char)} (h : ∀ line ∈ lines, IsLine sep line) :
    splitInclusive sep lines.flatten = lines := by
  induction lines with
  | nil => rfl
  | cons line lines ih =>
    obtain ⟨⟨l, hl, rfl⟩, hlines⟩ := List.forall_mem_cons.mp h
    rw [List.flatten_cons, List.append_assoc, List.singleton_append, splitInclusive_line hl, ih hlines]

theorem flatten_splitInclusive (sep : Char) (s : List Char) : (splitInclusive sep s).flatten = s := by
  induction s with
  | nil => rfl
  | cons c s ih =>
    rw [splitInclusive_cons]
    split_ifs
    · rw [List.flatten_cons, ih, List.singleton_append]
    · split
      · rename_i hnil
        rw [hnil, List.flatten_nil] at ih
        rw [← ih]
        rfl
      · rename_i line lines hcons
        rw [hcons, List.flatten_cons] at ih
        rw [List.flatten_cons, List.cons_append, ih]

/-- A text is cut behind a `sep` and on both sides of it. -/
theorem splitInclusive_append {sep : Char} (a b : List Char) :
    splitInclusive sep (a ++ sep :: b) = splitInclusive sep (a ++ [sep]) ++ splitInclusive sep b := by
  induction a with
  | nil => rw [List.nil_append, List.nil_append, splitInclusive_cons, splitInclusive_cons, if_pos rfl, if_pos rfl]; rfl
  | cons c a ih =>
    rw [List.cons_append, List.cons_append, splitInclusive_cons, splitInclusive_cons]
    split_ifs with hc
    · rw [ih, List.cons_append]
    · rw [ih]
      rcases hlines : splitInclusive sep (a ++ [sep]) with _ | ⟨line, lines⟩
      · have hflat := flatten_splitInclusive sep (a ++ [sep])
        simp [hlines] at hflat
      · rfl

theorem length_splitInclusive_le (sep : Char) (s : List Char) : (splitInclusive sep s).length ≤ s.length := by
  induction s with
  | nil => exact Nat.le_refl _
  | cons c s ih =>
    rw [splitInclusive_cons]
    split_ifs
    · simpa using ih
    · split
      · simp
      · rename_i hcons
        rw [hcons] at ih
        simpa using Nat.le_succ_of_le ih

/-- Every line ends with `sep`, or has none. -/
theorem isLine_or_isOpenLine {sep : Char} {s line : List Char} (h : line ∈ splitInclusive sep s) :
    IsLine sep line ∨ IsOpenLine sep line := by
  induction s generalizing line with
  | nil => cases h
  | cons c s ih =>
    rw [splitInclusive_cons] at h
    split_ifs at h with hc
    · rcases List.mem_cons.mp h with rfl | h
      · exact Or.inl ⟨[], List.not_mem_nil, by rw [hc]; rfl⟩
      · exact ih h
    · split at h
      · rw [List.mem_singleton.mp h]
        exact Or.inr ⟨by simpa using Ne.symm hc, List.cons_ne_nil _ _⟩
      · rename_i first lines hcons
        rw [hcons] at ih
        rcases List.mem_cons.mp h with rfl | h
        · rcases ih List.mem_cons_self with ⟨l, hl, rfl⟩ | ⟨hl, -⟩
          · exact Or.inl ⟨c :: l, by simp [hl, Ne.symm hc], rfl⟩
          · exact Or.inr ⟨by simp [hl, Ne.symm hc], List.cons_ne_nil _ _⟩
        · exact ih (List.mem_cons_of_mem _ h)

/-- Only the last line can be without `sep`. -/
theorem isLine_of_mem_dropLast {sep : Char} {s line : List Char} (h : line ∈ (splitInclusive sep s).dropLast) :
    IsLine sep line := by
  induction s generalizing line with
  | nil => cases h
  | cons c s ih =>
    rw [splitInclusive_cons] at h
    split_ifs at h with hc
    · rcases hlines : splitInclusive sep s with _ | ⟨first, lines⟩
      · rw [hlines] at h
        cases h
      · rw [hlines, List.dropLast_cons_cons] at h
        rcases List.mem_cons.mp h with rfl | hrest
        · exact ⟨[], List.not_mem_nil, by rw [hc]; rfl⟩
        · exact ih (hlines ▸ hrest)
    · split at h
      · cases h
      · rename_i first lines hcons
        rw [hcons] at ih
        rcases lines with _ | ⟨second, lines⟩
        · cases h
        · rw [List.dropLast_cons_cons] at h ih
          rcases List.mem_cons.mp h with rfl | hrest
          · obtain ⟨l, hl, rfl⟩ := ih List.mem_cons_self
            exact ⟨c :: l, by simp [hl, Ne.symm hc], rfl⟩
          · exact ih (List.mem_cons_of_mem _ hrest)

/-- Lists of texts that are the same when joined, and differ in the last at most, do not differ. -/
theorem eq_of_flatten_eq {lines lines' : List (List Char)} {r : List Char → List Char → Prop}
    (h : List.Forall₂ r lines lines') (hsame : ∀ line ∈ lines.dropLast, ∀ line', r line line' → line = line')
    (hflatten : lines.flatten = lines'.flatten) : lines = lines' := by
  induction h with
  | nil => rfl
  | @cons line line' lines lines' hline hlines ih =>
    rcases lines with _ | ⟨second, lines⟩
    · cases hlines
      simpa using hflatten
    · rw [List.dropLast_cons_cons] at hsame
      obtain rfl := hsame line List.mem_cons_self line' hline
      have hrest : (second :: lines).flatten = lines'.flatten := List.append_cancel_left hflatten
      rw [ih (fun l hl => hsame l (List.mem_cons_of_mem _ hl)) hrest]

/-! ### Ends of lines -/

/-- `CR LF`, and a `CR` alone, become `LF`. -/
def normalizeNewlines : List Char → List Char
  | [] => []
  | '\r' :: '\n' :: s => '\n' :: normalizeNewlines s
  | c :: s => (if c = '\r' then '\n' else c) :: normalizeNewlines s

/-- What a character becomes. -/
def normalizeNewline (c : Char) : Char := if c = '\r' then '\n' else c

theorem normalizeNewlines_crlf (s : List Char) : normalizeNewlines ('\r' :: '\n' :: s) = '\n' :: normalizeNewlines s :=
  rfl

theorem normalizeNewlines_single {c : Char} {s : List Char} (h : ∀ t, c = '\r' → s = '\n' :: t → False) :
    normalizeNewlines (c :: s) = normalizeNewline c :: normalizeNewlines s := by
  rw [normalizeNewlines]
  · rfl
  · exact h

theorem normalizeNewlines_cons {c : Char} (hc : c ≠ '\r') (s : List Char) :
    normalizeNewlines (c :: s) = c :: normalizeNewlines s := by
  rw [normalizeNewlines_single fun _ hreturn _ => hc hreturn, normalizeNewline, if_neg hc]

/-- A text goes on behind a `CR LF`, or behind a character that does not begin one. -/
@[elab_as_elim]
theorem endsOfLines_induction {motive : List Char → Prop} (nil : motive [])
    (crlf : ∀ s, motive s → motive ('\r' :: '\n' :: s))
    (single : ∀ c s, (∀ t, c = '\r' → s = '\n' :: t → False) → motive s → motive (c :: s)) (s : List Char) : motive s :=
  normalizeNewlines.induct motive nil crlf single s

theorem normalizeNewlines_eq_self {s : List Char} (h : '\r' ∉ s) : normalizeNewlines s = s := by
  induction s with
  | nil => rfl
  | cons c s ih =>
    rw [List.mem_cons, not_or] at h
    rw [normalizeNewlines_cons (Ne.symm h.1), ih h.2]

/-- Two texts apart, unless a `CR LF` lies across the two. -/
theorem normalizeNewlines_append {a b : List Char} (h : a.getLast? = some '\r' → b.head? ≠ some '\n') :
    normalizeNewlines (a ++ b) = normalizeNewlines a ++ normalizeNewlines b := by
  induction a using endsOfLines_induction with
  | nil => rfl
  | crlf s ih =>
    rw [List.cons_append, List.cons_append, normalizeNewlines_crlf, normalizeNewlines_crlf, List.cons_append, ih]
    intro hlast
    exact h (by simp [List.getLast?_cons, hlast])
  | single c s hc ih =>
    have hrest : s.getLast? = some '\r' → b.head? ≠ some '\n' := fun hlast => h (by simp [List.getLast?_cons, hlast])
    rw [List.cons_append, normalizeNewlines_single hc, normalizeNewlines_single, ih hrest, List.cons_append]
    · rintro t rfl ht
      rcases s with _ | ⟨d, s⟩
      · exact h rfl (by rw [← List.nil_append b, ht, List.head?_cons])
      · exact hc s rfl (by rw [(List.cons.inj ht).1])

theorem head_normalizeNewlines (s : List Char) : (normalizeNewlines s).head? = s.head?.map normalizeNewline := by
  induction s using endsOfLines_induction with
  | nil => rfl
  | crlf s => rfl
  | single c s hc =>
    rw [normalizeNewlines_single hc]
    rfl

theorem getLast_normalizeNewlines (s : List Char) :
    (normalizeNewlines s).getLast? = s.getLast?.map normalizeNewline := by
  induction s using endsOfLines_induction with
  | nil => rfl
  | crlf s ih =>
    rw [normalizeNewlines_crlf, List.getLast?_cons, List.getLast?_cons, List.getLast?_cons, ih]
    cases s.getLast? <;> rfl
  | single c s hc ih =>
    rw [normalizeNewlines_single hc, List.getLast?_cons, List.getLast?_cons, ih]
    cases s.getLast? <;> rfl

/-- The ends of lines are white space, whichever they are. -/
theorem trimStart_normalizeNewlines (s : List Char) : trimStart (normalizeNewlines s) = normalizeNewlines (trimStart s) := by
  have hblank {c : Char} (hc : isWhitespace c = true) (s : List Char) : trimStart (c :: s) = trimStart s :=
    List.dropWhile_cons_of_pos hc
  induction s using endsOfLines_induction with
  | nil => rfl
  | crlf s ih => rw [normalizeNewlines_crlf, hblank (by decide), hblank (by decide), hblank (by decide), ih]
  | single c s hc ih =>
    rcases hspace : isWhitespace c with _ | _
    · have hreturn : c ≠ '\r' := by
        rintro rfl
        cases hspace
      rw [trimStart_of_head hspace, normalizeNewlines_cons hreturn, trimStart_of_head hspace]
    · have hend : isWhitespace (normalizeNewline c) = true := by
        unfold normalizeNewline
        split_ifs
        · decide
        · exact hspace
      rw [normalizeNewlines_single hc, hblank hend, hblank hspace, ih]

/-- Whatever two parts the result has, the text has them. -/
theorem exists_of_normalizeNewlines {s a b : List Char} (h : normalizeNewlines s = a ++ b) :
    ∃ a' b', s = a' ++ b' ∧ normalizeNewlines a' = a ∧ normalizeNewlines b' = b := by
  induction s using endsOfLines_induction generalizing a with
  | nil =>
    obtain ⟨rfl, rfl⟩ := List.append_eq_nil_iff.mp h.symm
    exact ⟨[], [], rfl, rfl, rfl⟩
  | crlf s ih =>
    rw [normalizeNewlines_crlf] at h
    rcases a with _ | ⟨c, a⟩
    · exact ⟨[], '\r' :: '\n' :: s, rfl, rfl, by rw [normalizeNewlines_crlf, h, List.nil_append]⟩
    · obtain ⟨hc, htail⟩ := List.cons.inj h
      obtain ⟨a', b', rfl, ha, hb⟩ := ih htail
      exact ⟨'\r' :: '\n' :: a', b', rfl, by rw [normalizeNewlines_crlf, ha, hc], hb⟩
  | single c s hc ih =>
    rw [normalizeNewlines_single hc] at h
    rcases a with _ | ⟨d, a⟩
    · exact ⟨[], c :: s, rfl, rfl, by rw [normalizeNewlines_single hc, h, List.nil_append]⟩
    · obtain ⟨hd, htail⟩ := List.cons.inj h
      obtain ⟨a', b', rfl, ha, hb⟩ := ih htail
      refine ⟨c :: a', b', rfl, ?_, hb⟩
      rw [normalizeNewlines_single, ha, hd]
      rintro t rfl rfl
      exact hc _ rfl rfl

/-- What has no ends of lines comes from itself. -/
theorem eq_of_normalizeNewlines {s t : List Char} (h : normalizeNewlines s = t) (ht : '\n' ∉ t) : s = t := by
  rw [← h]
  refine (normalizeNewlines_eq_self fun hreturn => ht ?_).symm
  rw [← h]
  clear h ht
  induction s using endsOfLines_induction with
  | nil => cases hreturn
  | crlf s ih =>
    exact List.mem_cons_self
  | single c s hc ih =>
    rw [normalizeNewlines_single hc]
    rcases List.mem_cons.mp hreturn with hreturn | hreturn
    · rw [normalizeNewline, if_pos hreturn.symm]
      exact List.mem_cons_self
    · exact List.mem_cons_of_mem _ (ih hreturn)

/-! ### Numbers -/

/-- `str::parse::<usize>`: decimal digits, with a plus sign if any, below the bound. -/
def parseUsize (s : List Char) : Option Nat :=
  let digits := (stripPrefix ['+'] s).getD s
  if digits.isEmpty || !digits.all Char.isDigit then none
  else
    let n := Nat.ofDigitChars 10 digits 0
    if n < 2 ^ 64 then some n else none

/-- `saturating_add` of a `usize` or a `u64`. -/
def saturatingAdd (a b : Nat) : Nat := min (a + b) (2 ^ 64 - 1)

/-- `usize::saturating_mul`. -/
def saturatingMul (a b : Nat) : Nat := min (a * b) (2 ^ 64 - 1)

/-- A count that fits, or a bound that is below the greatest count: nothing is lost. -/
theorem lt_saturatingAdd_iff {n a b : Nat} (h : n < 2 ^ 64 - 1 ∨ a + b < 2 ^ 64) : n < saturatingAdd a b ↔ n < a + b := by
  rw [saturatingAdd]
  obtain h | h := h <;> omega

/-- A number as it is written. -/
def digits (n : Nat) : List Char := Nat.toDigits 10 n

theorem digits_isDigit {n : Nat} {c : Char} (hc : c ∈ digits n) : c.isDigit = true :=
  Nat.isDigit_of_mem_toDigits (by decide) (by decide) hc

theorem isWord_of_isDigit {s : List Char} (hne : s ≠ []) (h : ∀ c ∈ s, c.isDigit = true ∨ isWhitespace c = false) :
    IsWord s := by
  refine ⟨hne, fun c hc => ?_⟩
  rcases h c hc with hdigit | hc
  · simp only [Char.isDigit, Bool.and_eq_true, decide_eq_true_eq] at hdigit
    have hlow : 48 ≤ c.toNat := hdigit.1
    have hhigh : c.toNat ≤ 57 := hdigit.2
    simp [isWhitespace]
    omega
  · exact hc

theorem parseUsize_digits {n : Nat} (hn : n < 2 ^ 64) : parseUsize (digits n) = some n := by
  have hplus : stripPrefix ['+'] (digits n) = none := by
    rw [stripPrefix, if_neg]
    intro hprefix
    obtain ⟨rest, hrest⟩ := List.isPrefixOf_iff_prefix.mp hprefix
    have hdigit := digits_isDigit (n := n) (c := '+') (by rw [← hrest]; exact List.mem_cons_self)
    exact absurd hdigit (by decide)
  have hne : (digits n).isEmpty = false := by
    rw [List.isEmpty_eq_false_iff]
    exact Nat.toDigits_ne_nil
  have hall : (digits n).all Char.isDigit = true := List.all_eq_true.mpr fun c hc => digits_isDigit hc
  rw [parseUsize, hplus, Option.getD_none, hne, hall]
  simp only [Bool.not_true, Bool.or_self, Bool.false_eq_true, if_false]
  rw [digits, Nat.ofDigitChars_ten_toDigits, if_pos hn]

end Nerve.Text
