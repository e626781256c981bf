import Mathlib.Data.List.TakeWhile
import Mathlib.Tactic.Common

/-!
# UTF-8, read lossily

`decode` reads any octets as text: what is no UTF-8 gives replacement characters, one for each longest piece
that some character begins with, or one octet. It goes octet by octet, and `Pending` is what it remembers
inside a character. A text's octets are read as the text (`decode_encode`), and where they are cut
inside a character (`cuts_encode`), what is in front of the cut is one replacement (`decode_piece`), and what is
behind it one for each octet (`decode_continuation_append`).
-/

namespace Nerve.Utf8

/-- The octets of a text. -/
def encode (s : List Char) : List UInt8 := s.flatMap String.utf8EncodeChar

/-- Inside a character: the bounds of its next octet, how many follow that one, and the value so far. -/
structure Pending where
  lo : Nat
  hi : Nat
  left : Nat
  value : Nat
  deriving DecidableEq, Repr

/-- What a first octet tells. -/
inductive Lead where
  | char (c : Char)
  | pending (p : Pending)
  | invalid
  deriving DecidableEq, Repr

def lead (b : UInt8) : Lead :=
  let n := b.toNat
  if n < 0x80 then .char (Char.ofNat n)
  else if n < 0xC2 then .invalid
  else if n < 0xE0 then .pending ⟨0x80, 0xBF, 0, n - 0xC0⟩
  else if n = 0xE0 then .pending ⟨0xA0, 0xBF, 1, 0⟩
  else if n = 0xED then .pending ⟨0x80, 0x9F, 1, 0xD⟩
  else if n < 0xF0 then .pending ⟨0x80, 0xBF, 1, n - 0xE0⟩
  else if n = 0xF0 then .pending ⟨0x90, 0xBF, 2, 0⟩
  else if n < 0xF4 then .pending ⟨0x80, 0xBF, 2, n - 0xF0⟩
  else if n = 0xF4 then .pending ⟨0x80, 0x8F, 2, 4⟩
  else .invalid

/-- U+FFFD. -/
def replacement : Char := '\uFFFD'

def start (b : UInt8) : List Char × Option Pending :=
  match lead b with
  | .char c => ([c], none)
  | .pending p => ([], some p)
  | .invalid => ([replacement], none)

/-- One octet: the characters it ends, and where it leads. -/
def step : Option Pending → UInt8 → List Char × Option Pending
  | none, b => start b
  | some p, b =>
    if p.lo ≤ b.toNat ∧ b.toNat ≤ p.hi then
      let value := p.value * 64 + (b.toNat - 0x80)
      match p.left with
      | 0 => ([Char.ofNat value], none)
      | left + 1 => ([], some ⟨0x80, 0xBF, left, value⟩)
    else (replacement :: (start b).1, (start b).2)

def decodeFrom : Option Pending → List UInt8 → List Char
  | none, [] => []
  | some _, [] => [replacement]
  | s, b :: bs => (step s b).1 ++ decodeFrom (step s b).2 bs

/-- `String::from_utf8_lossy`. -/
def decode (bs : List UInt8) : List Char := decodeFrom none bs

/-- An octet that continues a character. -/
def isContinuation (b : UInt8) : Bool := decide (0x80 ≤ b.toNat ∧ b.toNat < 0xC0)

/-! ### One character -/

theorem toNat_ofNat {n : Nat} (h : n < 256) : (UInt8.ofNat n).toNat = n := by
  rw [UInt8.toNat_ofNat']
  omega

theorem val_ranges (c : Char) : c.val.toNat < 0xD800 ∨ 0xDFFF < c.val.toNat ∧ c.val.toNat < 0x110000 := by
  have := c.valid
  simp only [UInt32.isValidChar, Nat.isValidChar] at this
  omega

/-- The octets that are left of a character, from a state inside it. -/
inductive Ends (c : Char) : Pending → List UInt8 → Prop
  | last {lo hi value : Nat} {b : UInt8} (hlo : lo ≤ b.toNat) (hhi : b.toNat ≤ hi) (hb : isContinuation b = true)
    (hc : Char.ofNat (value * 64 + (b.toNat - 0x80)) = c) : Ends c ⟨lo, hi, 0, value⟩ [b]
  | more {lo hi left value : Nat} {b : UInt8} {bs : List UInt8} (hlo : lo ≤ b.toNat) (hhi : b.toNat ≤ hi)
    (hb : isContinuation b = true) (h : Ends c ⟨0x80, 0xBF, left, value * 64 + (b.toNat - 0x80)⟩ bs) :
    Ends c ⟨lo, hi, left + 1, value⟩ (b :: bs)

/-- The last octet, by what it adds. -/
theorem Ends.ofLast {c : Char} {lo hi value v n : Nat} (hc : Char.ofNat v = c) (hn : n < 64) (hlo : lo ≤ n + 0x80)
    (hhi : n + 0x80 ≤ hi) (hv : value * 64 + n = v) : Ends c ⟨lo, hi, 0, value⟩ [UInt8.ofNat (n + 0x80)] := by
  have hb : (UInt8.ofNat (n + 0x80)).toNat = n + 0x80 := toNat_ofNat (by omega)
  refine .last (by omega) (by omega) (decide_eq_true (by omega)) ?_
  rw [hb, Nat.add_sub_cancel, hv, hc]

/-- One octet before others, by what it adds. -/
theorem Ends.ofMore {c : Char} {lo hi left value n : Nat} {bs : List UInt8} (hn : n < 64) (hlo : lo ≤ n + 0x80)
    (hhi : n + 0x80 ≤ hi) (h : Ends c ⟨0x80, 0xBF, left, value * 64 + n⟩ bs) :
    Ends c ⟨lo, hi, left + 1, value⟩ (UInt8.ofNat (n + 0x80) :: bs) := by
  have hb : (UInt8.ofNat (n + 0x80)).toNat = n + 0x80 := toNat_ofNat (by omega)
  refine .more (by omega) (by omega) (decide_eq_true (by omega)) ?_
  rwa [hb, Nat.add_sub_cancel]

/-- The last two octets. -/
theorem Ends.ofTwo {c : Char} {lo hi value v : Nat} (hc : Char.ofNat v = c) (hlo : lo ≤ v / 64 % 64 + 0x80)
    (hhi : v / 64 % 64 + 0x80 ≤ hi) (hv : value = v / 4096) :
    Ends c ⟨lo, hi, 1, value⟩ [UInt8.ofNat (v / 64 % 64 + 0x80), UInt8.ofNat (v % 64 + 0x80)] :=
  .ofMore (Nat.mod_lt _ (by decide)) hlo hhi
    (.ofLast hc (Nat.mod_lt _ (by decide)) (Nat.le_add_left _ _) (by omega) (by omega))

/-- The last three octets. -/
theorem Ends.ofThree {c : Char} {lo hi value v : Nat} (hc : Char.ofNat v = c) (hlo : lo ≤ v / 4096 % 64 + 0x80)
    (hhi : v / 4096 % 64 + 0x80 ≤ hi) (hv : value = v / 262144) :
    Ends c ⟨lo, hi, 2, value⟩ [UInt8.ofNat (v / 4096 % 64 + 0x80), UInt8.ofNat (v / 64 % 64 + 0x80),
      UInt8.ofNat (v % 64 + 0x80)] :=
  .ofMore (Nat.mod_lt _ (by decide)) hlo hhi (.ofTwo hc (by omega) (by omega) (by omega))

theorem lead_two {a : UInt8} {n : Nat} (ha : a.toNat = n + 0xC0) (h2 : 2 ≤ n) (h : n < 0x20) :
    lead a = .pending ⟨0x80, 0xBF, 0, n⟩ := by
  rw [lead, ha]
  simp only [Nat.add_sub_cancel]
  rw [if_neg (by omega), if_neg (by omega), if_pos (by omega)]

theorem lead_three {a : UInt8} {n : Nat} (ha : a.toNat = n + 0xE0) (h : n < 0x10) :
    ∃ lo hi, lead a = .pending ⟨lo, hi, 1, n⟩ ∧ lo = (if n = 0 then 0xA0 else 0x80) ∧
      hi = if n = 0xD then 0x9F else 0xBF := by
  rw [lead, ha]
  simp only [Nat.add_sub_cancel]
  rw [if_neg (by omega), if_neg (by omega), if_neg (by omega)]
  by_cases h0 : n = 0
  · exact ⟨0xA0, 0xBF, by rw [if_pos (by omega), h0], by rw [if_pos h0], by rw [if_neg (by omega)]⟩
  · rw [if_neg (by omega)]
    by_cases hd : n = 0xD
    · exact ⟨0x80, 0x9F, by rw [if_pos (by omega), hd], by rw [if_neg h0], by rw [if_pos hd]⟩
    · rw [if_neg (by omega), if_pos (by omega)]
      exact ⟨0x80, 0xBF, rfl, by rw [if_neg h0], by rw [if_neg hd]⟩

theorem lead_four {a : UInt8} {n : Nat} (ha : a.toNat = n + 0xF0) (h : n < 5) :
    ∃ lo hi, lead a = .pending ⟨lo, hi, 2, n⟩ ∧ lo = (if n = 0 then 0x90 else 0x80) ∧
      hi = if n = 4 then 0x8F else 0xBF := by
  rw [lead, ha]
  simp only [Nat.add_sub_cancel]
  rw [if_neg (by omega), if_neg (by omega), if_neg (by omega), if_neg (by omega), if_neg (by omega),
    if_neg (by omega)]
  by_cases h0 : n = 0
  · exact ⟨0x90, 0xBF, by rw [if_pos (by omega), h0], by rw [if_pos h0], by rw [if_neg (by omega)]⟩
  · rw [if_neg (by omega)]
    by_cases hd : n = 4
    · exact ⟨0x80, 0x8F, by rw [if_neg (by omega), if_pos (by omega), hd], by rw [if_neg h0], by rw [if_pos hd]⟩
    · rw [if_pos (by omega)]
      exact ⟨0x80, 0xBF, rfl, by rw [if_neg h0], by rw [if_neg hd]⟩

/-- The octets of a character: itself, or one that begins it and those that end it. -/
theorem encodeChar_cases (c : Char) :
    (∃ a, String.utf8EncodeChar c = [a] ∧ lead a = .char c) ∨
    ∃ a p bs, String.utf8EncodeChar c = a :: bs ∧ lead a = .pending p ∧ Ends c p bs := by
  have hc : Char.ofNat c.val.toNat = c := Char.ofNat_toNat c
  have hval := val_ranges c
  unfold String.utf8EncodeChar
  generalize c.val.toNat = v at hc hval
  by_cases h1 : v ≤ 0x7f
  · refine .inl ⟨UInt8.ofNat v, if_pos h1, ?_⟩
    rw [lead, toNat_ofNat (by omega), if_pos (by omega), hc]
  refine .inr ?_
  by_cases h2 : v ≤ 0x7ff
  · have ha : (UInt8.ofNat (v / 64 % 0x20 + 0xc0)).toNat = v / 64 + 0xc0 := by rw [toNat_ofNat] <;> omega
    exact ⟨_, _, _, by rw [if_neg h1, if_pos h2], lead_two ha (by omega) (by omega),
      .ofLast hc (Nat.mod_lt _ (by decide)) (Nat.le_add_left _ _) (by omega) (by omega)⟩
  by_cases h3 : v ≤ 0xffff
  · have ha : (UInt8.ofNat (v / 4096 % 0x10 + 0xe0)).toNat = v / 4096 + 0xe0 := by rw [toNat_ofNat] <;> omega
    obtain ⟨lo, hi, hlead, hlo, hhi⟩ := lead_three ha (by omega)
    refine ⟨_, _, _, by rw [if_neg h1, if_neg h2, if_pos h3], hlead, .ofTwo hc ?_ ?_ rfl⟩
    · subst hlo
      split_ifs <;> omega
    · subst hhi
      split_ifs <;> omega
  · have ha : (UInt8.ofNat (v / 262144 % 0x08 + 0xf0)).toNat = v / 262144 + 0xf0 := by rw [toNat_ofNat] <;> omega
    obtain ⟨lo, hi, hlead, hlo, hhi⟩ := lead_four ha (by omega)
    refine ⟨_, _, _, by rw [if_neg h1, if_neg h2, if_neg h3], hlead, .ofThree hc ?_ ?_ rfl⟩
    · subst hlo
      split_ifs <;> omega
    · subst hhi
      split_ifs <;> omega

/-! ### Whole characters, and pieces of one -/

section decode

variable {c : Char} {p : Pending} {bs rest : List UInt8}

theorem Ends.step {b : UInt8} (h : Ends c p (b :: bs)) :
    bs = [] ∧ step (some p) b = ([c], none) ∨ ∃ q, step (some p) b = ([], some q) ∧ Ends c q bs := by
  cases h with
  | last hlo hhi hb hc => exact .inl ⟨rfl, by simp only [Utf8.step]; rw [if_pos ⟨hlo, hhi⟩, hc]⟩
  | more hlo hhi hb h => exact .inr ⟨_, by simp only [Utf8.step]; rw [if_pos ⟨hlo, hhi⟩], h⟩

theorem Ends.ne_nil (h : Ends c p bs) : bs ≠ [] := by
  cases h <;> exact List.cons_ne_nil _ _

theorem Ends.isContinuation (h : Ends c p bs) : ∀ b ∈ bs, isContinuation b = true := by
  induction h with
  | last hlo hhi hb hc =>
    intro b hmem
    exact List.mem_singleton.mp hmem ▸ hb
  | more hlo hhi hb h ih => exact List.forall_mem_cons.mpr ⟨hb, ih⟩

/-- The rest of a character, read. -/
theorem Ends.decodeFrom_append (h : Ends c p bs) : decodeFrom (some p) (bs ++ rest) = c :: decode rest := by
  induction bs generalizing p with
  | nil => exact absurd rfl h.ne_nil
  | cons b bs ih =>
    rw [List.cons_append, decodeFrom]
    obtain ⟨rfl, hb⟩ | ⟨q, hb, hq⟩ := h.step
    · rw [hb, List.nil_append, List.singleton_append, decode]
    · rw [hb, List.nil_append, ih hq]

/-- A piece of it, read. -/
theorem Ends.decodeFrom_piece {piece rest : List UInt8} (h : Ends c p (piece ++ rest)) (hrest : rest ≠ []) :
    decodeFrom (some p) piece = [replacement] := by
  induction piece generalizing p with
  | nil => rfl
  | cons b piece ih =>
    rw [decodeFrom]
    obtain ⟨hnil, -⟩ | ⟨q, hb, hq⟩ := Ends.step h
    · exact absurd (List.append_eq_nil_iff.mp hnil).2 hrest
    · rw [hb, List.nil_append, ih hq]

theorem decode_cons (a : UInt8) (bs : List UInt8) : decode (a :: bs) = (start a).1 ++ decodeFrom (start a).2 bs := rfl

theorem decode_encodeChar_append (c : Char) (bs : List UInt8) :
    decode (String.utf8EncodeChar c ++ bs) = c :: decode bs := by
  obtain ⟨a, ha, hlead⟩ | ⟨a, p, as, ha, hlead, h⟩ := encodeChar_cases c
  · rw [ha, List.singleton_append, decode_cons, start, hlead]
    rfl
  · rw [ha, List.cons_append, decode_cons, start, hlead]
    exact h.decodeFrom_append

/-- Whole characters are read as they are. -/
theorem decode_encode_append (s : List Char) (bs : List UInt8) : decode (encode s ++ bs) = s ++ decode bs := by
  induction s with
  | nil => rfl
  | cons c s ih => rw [encode, List.flatMap_cons, List.append_assoc, decode_encodeChar_append, ← encode, ih]; rfl

@[simp] theorem decode_encode (s : List Char) : decode (encode s) = s := by
  have h := decode_encode_append s []
  rwa [List.append_nil, show decode [] = [] from rfl, List.append_nil] at h

/-- A character that is begun is read as something, whatever follows. -/
theorem decodeFrom_some_ne_nil (p : Pending) (bs : List UInt8) : decodeFrom (some p) bs ≠ [] := by
  induction bs generalizing p with
  | nil => exact List.cons_ne_nil _ _
  | cons b bs ih =>
    rw [decodeFrom, step]
    split_ifs
    · cases p.left with
      | zero => exact List.cons_ne_nil _ _
      | succ left => exact ih _
    · exact List.cons_ne_nil _ _

theorem decode_eq_nil {bs : List UInt8} : decode bs = [] ↔ bs = [] := by
  refine ⟨fun h => ?_, fun h => h ▸ rfl⟩
  cases bs with
  | nil => rfl
  | cons b bs =>
    rw [decode_cons, start] at h
    cases hlead : lead b with
    | char c => simp [hlead] at h
    | pending p => exact absurd (by simpa [hlead] using h) (decodeFrom_some_ne_nil p bs)
    | invalid => simp [hlead] at h

/-- What begins a character and does not end it is one replacement. -/
theorem decode_piece {piece : List UInt8} (h : String.utf8EncodeChar c = piece ++ rest) (hpiece : piece ≠ [])
    (hrest : rest ≠ []) : decode piece = [replacement] := by
  cases piece with
  | nil => exact absurd rfl hpiece
  | cons a piece =>
    obtain ⟨a', ha, -⟩ | ⟨a', p, as, ha, hlead, hends⟩ := encodeChar_cases c
    · rw [ha, List.cons_append, List.cons.injEq] at h
      exact absurd (List.append_eq_nil_iff.mp h.2.symm).2 hrest
    · rw [ha, List.cons_append, List.cons.injEq] at h
      obtain ⟨rfl, rfl⟩ := h
      rw [decode_cons, start, hlead]
      exact hends.decodeFrom_piece hrest

theorem start_of_isContinuation {b : UInt8} (hb : isContinuation b = true) : start b = ([replacement], none) := by
  have hb := of_decide_eq_true hb
  rw [start, lead, if_neg (by omega), if_pos (by omega)]

/-- Each octet of a character that lacks the first one is a replacement. -/
theorem decode_continuation_append {piece : List UInt8} (h : ∀ b ∈ piece, isContinuation b = true) :
    decode (piece ++ bs) = List.replicate piece.length replacement ++ decode bs := by
  induction piece with
  | nil => rfl
  | cons b piece ih =>
    rw [List.cons_append, decode_cons, start_of_isContinuation (h b List.mem_cons_self)]
    exact congrArg (replacement :: ·) (ih fun b hb => h b (List.mem_cons_of_mem _ hb))

end decode

/-! ### Octets of characters -/

theorem lead_eq_char {a : UInt8} {c : Char} (h : lead a = .char c) : a.toNat < 0x80 ∧ Char.ofNat a.toNat = c := by
  simp only [lead] at h
  split_ifs at h with hlt
  exact ⟨hlt, Lead.char.inj h⟩

theorem lead_eq_pending {a : UInt8} {p : Pending} (h : lead a = .pending p) : 0xC2 ≤ a.toNat := by
  simp only [lead] at h
  split_ifs at h <;> omega

/-- The octets of a character that has several. -/
theorem le_of_mem_encodeChar {c : Char} {b : UInt8} (hb : b ∈ String.utf8EncodeChar c) :
    Char.ofNat b.toNat = c ∨ 0x80 ≤ b.toNat := by
  obtain ⟨a, ha, hlead⟩ | ⟨a, p, bs, ha, hlead, hends⟩ := encodeChar_cases c
  · rw [ha, List.mem_singleton] at hb
    exact .inl (hb ▸ (lead_eq_char hlead).2)
  · rw [ha] at hb
    obtain rfl | hb := List.mem_cons.mp hb
    · exact .inr (le_trans (by decide) (lead_eq_pending hlead))
    · exact .inr (of_decide_eq_true (hends.isContinuation b hb)).1

/-- What a cut leaves in front of it, and behind it. -/
theorem octets_of_cut {c : Char} {piece rest : List UInt8} (h : String.utf8EncodeChar c = piece ++ rest)
    (hpiece : piece ≠ []) (hrest : rest ≠ []) :
    (∀ b ∈ piece, 0x80 ≤ b.toNat) ∧ ∀ b ∈ rest, isContinuation b = true := by
  cases piece with
  | nil => exact absurd rfl hpiece
  | cons a piece =>
    obtain ⟨a', ha, -⟩ | ⟨a', p, as, ha, hlead, hends⟩ := encodeChar_cases c
    · rw [ha, List.cons_append, List.cons.injEq] at h
      exact absurd (List.append_eq_nil_iff.mp h.2.symm).2 hrest
    · rw [ha, List.cons_append, List.cons.injEq] at h
      obtain ⟨rfl, rfl⟩ := h
      have hall := hends.isContinuation
      refine ⟨List.forall_mem_cons.mpr ⟨le_trans (by decide) (lead_eq_pending hlead), fun b hb => ?_⟩,
        fun b hb => hall b (List.mem_append_right _ hb)⟩
      exact (of_decide_eq_true (hall b (List.mem_append_left _ hb))).1

/-- Whole characters do not go on with one. -/
theorem takeWhile_encode (s : List Char) : (encode s).takeWhile isContinuation = [] := by
  cases s with
  | nil => rfl
  | cons c s =>
    rw [encode, List.flatMap_cons]
    obtain ⟨a, ha, hlead⟩ | ⟨a, p, bs, ha, hlead, -⟩ := encodeChar_cases c
    · have hlt := (lead_eq_char hlead).1
      rw [ha, List.singleton_append, List.takeWhile_cons_of_neg]
      exact fun h => absurd (of_decide_eq_true h).1 (by omega)
    · have hle := lead_eq_pending hlead
      rw [ha, List.cons_append, List.takeWhile_cons_of_neg]
      exact fun h => absurd (of_decide_eq_true h).2 (by omega)

theorem length_encodeChar_le (c : Char) : (String.utf8EncodeChar c).length ≤ 4 := by
  rw [String.length_utf8EncodeChar]
  exact Char.utf8Size_le_four c

/-! ### Cuts -/

/-- How many octets of a character are in front of a cut that is inside it. -/
def cut : Nat → List Char → Nat
  | _, [] => 0
  | n, c :: s => if (String.utf8EncodeChar c).length ≤ n then cut (n - (String.utf8EncodeChar c).length) s else n

/-- A cut between two characters, or inside one. -/
inductive Cuts : List Char → List UInt8 → List UInt8 → Nat → Prop
  | between (u v : List Char) : Cuts (u ++ v) (encode u) (encode v) 0
  | inside (u v : List Char) {c : Char} {piece rest : List UInt8} (hc : String.utf8EncodeChar c = piece ++ rest)
    (hpiece : piece ≠ []) (hrest : rest ≠ []) :
    Cuts (u ++ c :: v) (encode u ++ piece) (rest ++ encode v) piece.length

theorem encode_cons (c : Char) (s : List Char) : encode (c :: s) = String.utf8EncodeChar c ++ encode s := rfl

theorem encode_append (s t : List Char) : encode (s ++ t) = encode s ++ encode t := List.flatMap_append

theorem Cuts.cons {s : List Char} {bs rest : List UInt8} {n : Nat} (c : Char) (h : Cuts s bs rest n) :
    Cuts (c :: s) (String.utf8EncodeChar c ++ bs) rest n := by
  cases h with
  | between u v => exact .between (c :: u) v
  | inside u v hd hpiece hrest =>
    rw [← List.append_assoc]
    exact .inside (c :: u) v hd hpiece hrest

theorem cuts_encode {s : List Char} {n : Nat} (hn : n ≤ (encode s).length) :
    Cuts s ((encode s).take n) ((encode s).drop n) (cut n s) := by
  induction s generalizing n with
  | nil =>
    rw [encode, List.flatMap_nil, List.take_nil, List.drop_nil]
    exact .between [] []
  | cons c s ih =>
    rw [encode_cons, List.length_append] at hn
    rw [encode_cons, List.take_append, List.drop_append, cut]
    by_cases h : (String.utf8EncodeChar c).length ≤ n
    · rw [if_pos h, List.take_of_length_le h, List.drop_of_length_le h, List.nil_append]
      exact (ih (by omega)).cons c
    · have hzero : n - (String.utf8EncodeChar c).length = 0 := by omega
      rw [if_neg h, hzero, List.take_zero, List.append_nil, List.drop_zero]
      by_cases h0 : n = 0
      · subst h0
        exact .between [] (c :: s)
      · have hlength : ((String.utf8EncodeChar c).take n).length = n := by
          rw [List.length_take]
          omega
        have hcut : Cuts (c :: s) _ _ _ := .inside [] s (List.take_append_drop n (String.utf8EncodeChar c)).symm
          (List.ne_nil_of_length_pos (by omega)) (List.ne_nil_of_length_pos (by rw [List.length_drop]; omega))
        rwa [hlength] at hcut

end Nerve.Utf8
