import Nerve.Library.Json

/-!
# Quotes and braces

What a counter of braces makes of a text that it does not parse: a string ends at the first quote that no backslash
takes along, and a brace in a string counts for nothing. `Unquoted` leaves the strings out, `height` counts the braces
that remain, and `Balanced` are the texts in which they match. The text of every JSON object is of that kind
(`exists_braced`).
-/

namespace Nerve.Braces

open Json

/-- What stands between quotes. A backslash takes the character behind it along, whichever that is. -/
inductive Quoted : List Char → Prop
  | nil : Quoted []
  | escape (c : Char) {raw : List Char} (h : Quoted raw) : Quoted ('\\' :: c :: raw)
  | char {c : Char} (hquote : c ≠ '"') (hslash : c ≠ '\\') {raw : List Char} (h : Quoted raw) : Quoted (c :: raw)

/-- A character that opens and closes nothing. -/
def IsInert (c : Char) : Prop := c ≠ '"' ∧ c ≠ '\x7b' ∧ c ≠ '\x7d'

/-- Strings are closed and braces match, so many of them open at once at the most. -/
inductive Balanced : Nat → List Char → Prop
  | nil : Balanced 0 []
  | char {c : Char} (hc : IsInert c) {n : Nat} {t : List Char} (h : Balanced n t) : Balanced n (c :: t)
  | string {raw : List Char} (hraw : Quoted raw) {n : Nat} {t : List Char} (h : Balanced n t) :
    Balanced n ('"' :: (raw ++ '"' :: t))
  | braces {m n : Nat} {inner t : List Char} (hinner : Balanced m inner) (h : Balanced n t) :
    Balanced (max (m + 1) n) ('\x7b' :: (inner ++ '\x7d' :: t))

/-- A balanced text in braces. -/
inductive Braced : Nat → List Char → Prop
  | intro {n : Nat} {inner : List Char} (h : Balanced n inner) : Braced (n + 1) ('\x7b' :: (inner ++ ['\x7d']))

/-- The one text is the other without its strings, which are all closed. -/
inductive Unquoted : List Char → List Char → Prop
  | nil : Unquoted [] []
  | char {c : Char} (hc : c ≠ '"') {t w : List Char} (h : Unquoted t w) : Unquoted (c :: t) (c :: w)
  | string {raw : List Char} (hraw : Quoted raw) {t w : List Char} (h : Unquoted t w) :
    Unquoted ('"' :: (raw ++ '"' :: t)) w

/-- The opening braces less the closing ones. -/
def height (w : List Char) : Int := w.count '\x7b' - w.count '\x7d'

@[simp] theorem height_nil : height [] = 0 := rfl

@[simp] theorem height_append (v w : List Char) : height (v ++ w) = height v + height w := by
  simp only [height, List.count_append]
  omega

theorem height_open : height ['\x7b'] = 1 := by decide

theorem height_close : height ['\x7d'] = -1 := by decide

theorem height_other {c : Char} (hopen : c ≠ '\x7b') (hclose : c ≠ '\x7d') : height [c] = 0 := by
  simp [height, hopen, hclose]

/-! ### The text of a JSON object -/

theorem Balanced.append {m n : Nat} {s t : List Char} (hs : Balanced m s) (ht : Balanced n t) :
    Balanced (max m n) (s ++ t) := by
  induction hs with
  | nil => rwa [Nat.zero_max]
  | char hc _ ih => exact .char hc ih
  | string hraw _ ih =>
    rw [List.cons_append, List.append_assoc]
    exact .string hraw ih
  | braces hinner _ _ ih =>
    rw [List.cons_append, List.append_assoc, Nat.max_assoc]
    exact .braces hinner ih

theorem balanced_of_inert {t : List Char} (h : ∀ c ∈ t, IsInert c) : Balanced 0 t := by
  induction t with
  | nil => exact .nil
  | cons c t ih =>
    obtain ⟨hc, ht⟩ := List.forall_mem_cons.mp h
    exact .char hc (ih ht)

theorem quoted_of_content {raw : List Char} (h : Content raw) : Quoted raw := by
  induction h with
  | nil => exact .nil
  | @escape c _ _ _ ih => exact .escape c ih
  | plain hc _ ih =>
    simp only [isPlain, Bool.and_eq_true, bne_iff_ne] at hc
    exact .char hc.1.1 hc.1.2 ih

/-- One kind of character, and the three that count are not of it. -/
theorem balanced_of_kind (kind : Char → Bool) (hquote : kind '"' = false) (hopen : kind '\x7b' = false)
    (hclose : kind '\x7d' = false) {t : List Char} (h : ∀ c ∈ t, kind c = true) : Balanced 0 t := by
  refine balanced_of_inert fun c hc => ⟨?_, ?_, ?_⟩
  · rintro rfl
    exact Bool.false_ne_true (hquote.symm.trans (h _ hc))
  · rintro rfl
    exact Bool.false_ne_true (hopen.symm.trans (h _ hc))
  · rintro rfl
    exact Bool.false_ne_true (hclose.symm.trans (h _ hc))

theorem balanced_space {space : List Char} (h : Space space) : Balanced 0 space :=
  balanced_of_kind isSpace rfl rfl rfl h

/-- Whatever the grammar has: its strings are closed and its braces match. -/
theorem exists_balanced {part : Part} {text : List Char} (h : Denotes part text) : ∃ n, Balanced n text := by
  have hcomma : IsInert ',' := ⟨by decide, by decide, by decide⟩
  have hcolon : IsInert ':' := ⟨by decide, by decide, by decide⟩
  have hopens : IsInert '[' := ⟨by decide, by decide, by decide⟩
  have hcloses : IsInert ']' := ⟨by decide, by decide, by decide⟩
  induction h with
  | null | true | false => exact ⟨0, balanced_of_kind Char.isAlpha rfl rfl rfl (List.all_eq_true.mp rfl)⟩
  | number h => exact ⟨0, balanced_of_kind isNumberChar rfl rfl rfl (isNumber_cons h).1⟩
  | string hraw _ => exact ⟨0, .string (quoted_of_content hraw) .nil⟩
  | emptyArray h => exact ⟨_, .char hopens ((balanced_space h).append (.char hcloses .nil))⟩
  | array _ ih =>
    obtain ⟨n, h⟩ := ih
    exact ⟨_, .char hopens (h.append (.char hcloses .nil))⟩
  | emptyObject h => exact ⟨_, .braces (balanced_space h) .nil⟩
  | object _ ih =>
    obtain ⟨n, h⟩ := ih
    exact ⟨_, .braces h .nil⟩
  | item hbefore hafter _ ih =>
    obtain ⟨n, h⟩ := ih
    exact ⟨_, (balanced_space hbefore).append (h.append (balanced_space hafter))⟩
  | member hbefore hafter _ _ ihname ih =>
    obtain ⟨m, hname⟩ := ihname
    obtain ⟨n, h⟩ := ih
    exact ⟨_, (balanced_space hbefore).append (hname.append ((balanced_space hafter).append (.char hcolon h)))⟩
  | lastItem _ ih => exact ih
  | items _ _ ih ihs =>
    obtain ⟨m, h⟩ := ih
    obtain ⟨n, hs⟩ := ihs
    exact ⟨_, h.append (.char hcomma hs)⟩
  | lastMember _ ih => exact ih
  | members _ _ ih ihs =>
    obtain ⟨m, h⟩ := ih
    obtain ⟨n, hs⟩ := ihs
    exact ⟨_, h.append (.char hcomma hs)⟩

/-- **The text of a JSON object is braced.** -/
theorem exists_braced {members : List (String × Json)} {o : List Char} (h : Denotes (.value (.object members)) o) :
    ∃ n, Braced n o := by
  cases h with
  | emptyObject h => exact ⟨_, .intro (balanced_space h)⟩
  | object h =>
    obtain ⟨n, h⟩ := exists_balanced h
    exact ⟨_, .intro h⟩

theorem Unquoted.subset {t w : List Char} (h : Unquoted t w) : w ⊆ t := by
  induction h with
  | nil => exact List.Subset.refl _
  | char _ _ ih => exact List.cons_subset_cons _ ih
  | string _ _ ih =>
    exact fun c hc => List.mem_cons_of_mem _ (List.mem_append_right _ (List.mem_cons_of_mem _ (ih hc)))

theorem unquoted_of_not_mem {t : List Char} (h : '"' ∉ t) : Unquoted t t := by
  induction t with
  | nil => exact .nil
  | cons c t ih =>
    rw [List.mem_cons, not_or] at h
    exact .char (Ne.symm h.1) (ih h.2)

theorem Balanced.length {n : Nat} {t : List Char} (h : Balanced n t) : 2 * n ≤ t.length := by
  induction h with
  | nil => exact Nat.le_refl 0
  | char _ _ ih => exact Nat.le_succ_of_le ih
  | string _ _ ih =>
    simp only [List.length_cons, List.length_append]
    omega
  | braces _ _ ihinner ih =>
    simp only [List.length_cons, List.length_append]
    omega

/-- Every brace that is open at once is closed, too. -/
theorem Braced.length {n : Nat} {o : List Char} (h : Braced n o) : 2 * n ≤ o.length := by
  obtain ⟨hinner⟩ := h
  have hlength := hinner.length
  simp only [List.length_cons, List.length_append, List.length_nil]
  omega

/-- What is braced has a brace at both ends. -/
theorem Braced.ends {n : Nat} {o : List Char} (h : Braced n o) : ∃ inner, o = '\x7b' :: (inner ++ ['\x7d']) := by
  obtain ⟨_⟩ := h
  exact ⟨_, rfl⟩

end Nerve.Braces
