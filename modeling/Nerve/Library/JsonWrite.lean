import Nerve.Library.Json
import Nerve.Library.Utf8

/-!
# JSON, written

`write` is the compact text of a value, as `serde_json::to_vec` writes it: no space, and an escape only for a
quote, a backslash and the control characters. No control character is in the text (`write_printable`); where
such a text is written as a string again, each quote and each backslash takes one octet more
(`length_flatMap_escape`).
-/

namespace Nerve.Json

open Utf8

/-- The lower-case hexadecimal digit. -/
def hexOf (n : Nat) : Char := if n < 10 then Char.ofNat (n + '0'.toNat) else Char.ofNat (n - 10 + 'a'.toNat)

/-- A character, as it stands between quotes. -/
def escape (c : Char) : List Char :=
  match c with
  | '"' => ['\\', '"']
  | '\\' => ['\\', '\\']
  | '\x08' => ['\\', 'b']
  | '\t' => ['\\', 't']
  | '\n' => ['\\', 'n']
  | '\x0c' => ['\\', 'f']
  | '\r' => ['\\', 'r']
  | c => if c.toNat < 0x20 then ['\\', 'u', '0', '0', hexOf (c.toNat / 16), hexOf (c.toNat % 16)] else [c]

def quote (s : List Char) : List Char := '"' :: (s.flatMap escape ++ ['"'])

mutual

/-- `serde_json::to_vec`, as characters. -/
def write : Json → List Char
  | null => ['n', 'u', 'l', 'l']
  | bool true => ['t', 'r', 'u', 'e']
  | bool false => ['f', 'a', 'l', 's', 'e']
  | number text => text
  | string s => quote s.toList
  | array items => '[' :: (writeItems items ++ [']'])
  | object members => '\x7b' :: (writeMembers members ++ ['\x7d'])

def writeItems : List Json → List Char
  | [] => []
  | [v] => write v
  | v :: vs => write v ++ ',' :: writeItems vs

def writeMembers : List (String × Json) → List Char
  | [] => []
  | [(k, v)] => quote k.toList ++ ':' :: write v
  | (k, v) :: ms => quote k.toList ++ ':' :: (write v ++ ',' :: writeMembers ms)

end

/-- The octets of a value. -/
def toVec (v : Json) : List UInt8 := encode (write v)

/-- Every number in the value is one. -/
def NumbersOk (v : Json) : Prop := ∀ text, Inside (.number text) v → isNumber text = true

/-- No control character. -/
def Printable (s : List Char) : Prop := ∀ c ∈ s, 0x20 ≤ c.toNat

instance (s : List Char) : Decidable (Printable s) := List.decidableBAll _ s

theorem Printable.append {s t : List Char} (hs : Printable s) (ht : Printable t) : Printable (s ++ t) := fun c hc =>
  (List.mem_append.mp hc).elim (hs c) (ht c)

theorem Printable.cons {c : Char} {s : List Char} (hc : 0x20 ≤ c.toNat) (hs : Printable s) : Printable (c :: s) :=
  List.forall_mem_cons.mpr ⟨hc, hs⟩

theorem hexOf_printable {n : Nat} (h : n < 16) : 0x20 ≤ (hexOf n).toNat := by
  revert h
  revert n
  decide

theorem escape_printable (c : Char) : Printable (escape c) := by
  unfold escape
  split
  iterate 7 decide
  split_ifs with h
  · have hhigh := hexOf_printable (n := c.toNat / 16) (by omega)
    have hlow := hexOf_printable (n := c.toNat % 16) (by omega)
    exact .cons (by decide) (.cons (by decide) (.cons (by decide) (.cons (by decide) (.cons hhigh
      (List.forall_mem_singleton.mpr hlow)))))
  · exact List.forall_mem_singleton.mpr (by omega)

theorem escape_eq_self {c : Char} (hc : 0x20 ≤ c.toNat) (hquote : c ≠ '"') (hslash : c ≠ '\\') : escape c = [c] := by
  unfold escape
  split
  case h_8 => exact if_neg (by omega)
  case h_1 => exact absurd rfl hquote
  case h_2 => exact absurd rfl hslash
  all_goals exact absurd hc (by decide)

theorem quote_printable (s : List Char) : Printable (quote s) := by
  refine .cons (by decide) (.append (fun c hc => ?_) (by decide))
  obtain ⟨d, -, hd⟩ := List.mem_flatMap.mp hc
  exact escape_printable d c hd

theorem isNumber_printable {text : List Char} (h : isNumber text = true) : Printable text := fun c hc => by
  simp only [isNumber, Bool.and_eq_true] at h
  have hchar := List.all_eq_true.mp h.1.1.1 c hc
  simp only [isNumberChar, Bool.or_eq_true, beq_iff_eq, Char.isDigit, Bool.and_eq_true, decide_eq_true_eq] at hchar
  obtain ((((⟨hdigit, -⟩ | rfl) | rfl) | rfl) | rfl) | rfl := hchar
  · exact le_trans (by decide) (UInt32.le_iff_toNat_le.mp hdigit)
  all_goals decide

mutual

theorem write_printable : (v : Json) → NumbersOk v → Printable (write v)
  | .null, _ => by rw [write]; decide
  | .bool true, _ => by rw [write]; decide
  | .bool false, _ => by rw [write]; decide
  | .number text, h => by rw [write]; exact isNumber_printable (h text .self)
  | .string s, _ => by rw [write]; exact quote_printable s.toList
  | .array items, h => by
    rw [write]
    exact .cons (by decide) (.append (writeItems_printable items fun v hv text ht => h text (.item hv ht)) (by decide))
  | .object members, h => by
    rw [write]
    exact .cons (by decide)
      (.append (writeMembers_printable members fun m hm text ht => h text (.member hm ht)) (by decide))

theorem writeItems_printable : (vs : List Json) → (∀ v ∈ vs, NumbersOk v) → Printable (writeItems vs)
  | [], _ => List.forall_mem_nil _
  | [v], h => by rw [writeItems]; exact write_printable v (h v List.mem_cons_self)
  | v :: w :: vs, h => by
    rw [writeItems]
    exact .append (write_printable v (h v List.mem_cons_self))
      (.cons (by decide) (writeItems_printable (w :: vs) fun u hu => h u (List.mem_cons_of_mem v hu)))
    exact fun h => List.cons_ne_nil _ _ h

theorem writeMembers_printable : (ms : List (String × Json)) → (∀ m ∈ ms, NumbersOk m.2) → Printable (writeMembers ms)
  | [], _ => List.forall_mem_nil _
  | [(k, v)], h => by
    rw [writeMembers]
    exact .append (quote_printable _) (.cons (by decide) (write_printable v (h (k, v) List.mem_cons_self)))
  | (k, v) :: n :: ms, h => by
    rw [writeMembers]
    exact .append (quote_printable _) (.cons (by decide) (.append (write_printable v (h (k, v) List.mem_cons_self))
      (.cons (by decide) (writeMembers_printable (n :: ms) fun m hm => h m (List.mem_cons_of_mem (k, v) hm)))))
    exact fun h => List.cons_ne_nil _ _ h

end

/-! ### Written once more -/

/-- The quotes and backslashes. -/
def escapes (bs : List UInt8) : Nat := bs.countP fun b => b == 0x22 || b == 0x5C

theorem escapes_append (bs bs' : List UInt8) : escapes (bs ++ bs') = escapes bs + escapes bs' := List.countP_append

theorem escapes_eq_zero {bs : List UInt8} (h : ∀ b ∈ bs, 0x80 ≤ b.toNat) : escapes bs = 0 := by
  rw [escapes, List.countP_eq_zero]
  intro b hb hbad
  have hle := h b hb
  simp only [Bool.or_eq_true, beq_iff_eq] at hbad
  obtain rfl | rfl := hbad
  all_goals exact absurd hle (by decide)

theorem length_escape {c : Char} (hc : 0x20 ≤ c.toNat) :
    (encode (escape c)).length = (String.utf8EncodeChar c).length + escapes (String.utf8EncodeChar c) := by
  by_cases hquote : c = '"'
  · subst hquote
    decide
  by_cases hslash : c = '\\'
  · subst hslash
    decide
  have hnone : escapes (String.utf8EncodeChar c) = 0 := by
    rw [escapes, List.countP_eq_zero]
    intro b hb hbad
    simp only [Bool.or_eq_true, beq_iff_eq] at hbad
    obtain hb | hb := le_of_mem_encodeChar hb
    · obtain rfl | rfl := hbad
      · exact hquote hb.symm
      · exact hslash hb.symm
    · obtain rfl | rfl := hbad
      all_goals exact absurd hb (by decide)
  rw [escape_eq_self hc hquote hslash, hnone, encode_cons, encode, List.flatMap_nil, List.append_nil, Nat.add_zero]

theorem length_flatMap_escape {s : List Char} (hs : Printable s) :
    (encode (s.flatMap escape)).length = (encode s).length + escapes (encode s) := by
  induction s with
  | nil => rfl
  | cons c s ih =>
    have hc := length_escape (hs c List.mem_cons_self)
    have hs := ih fun d hd => hs d (List.mem_cons_of_mem c hd)
    rw [List.flatMap_cons, encode_append, List.length_append, encode_cons, List.length_append, escapes_append]
    omega

end Nerve.Json
