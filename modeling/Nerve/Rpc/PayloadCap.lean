import Nerve.Library.JsonWrite

/-!
# The payload cap

What `RpcBus::emit` broadcasts: the payload, or where its text is longer than the cap an envelope with the first
and the last 256 octets of it. The two previews are written as strings there, so that a quote or a
backslash takes two octets, and an octet that is no character by itself three. From a cap of 2 KiB on the envelope
always fits; under a cap of 1 KiB it fits when the previews do not grow by too much (`emit_fits_iff`).
-/

namespace Nerve.Rpc

open Text Utf8 Json

/-- A `serde_json::Value`: its numbers are numbers, and a vector can hold its octets. -/
structure Payload where
  value : Json
  numbersOk : NumbersOk value
  holds : (toVec value).length < 2 ^ 63

/-- `PREVIEW`. -/
def preview : Nat := 256

/-- `preview_bytes`. -/
def previewBytes (buf : List UInt8) (start len : Nat) : String :=
  let stop := min (saturatingAdd start len) buf.length
  let slice := (buf.drop start).take (stop - start)
  String.ofList (decode slice)

/-- What is sent in the place of a payload that is too long. A map has its keys in order. -/
def envelope (originalSize : Nat) (head tail : String) : Json :=
  .object [("head", .string head), ("original_size", .number (digits originalSize)), ("tail", .string tail),
    ("truncated", .bool true)]

/-- `enforce_payload_cap`. A value can always be written. -/
def enforcePayloadCap (payload : Json) (capBytes : Nat) : Json :=
  let encoded := toVec payload
  if capBytes = 0 ∨ encoded.length ≤ capBytes then payload
  else
    let originalSize := encoded.length
    let head := previewBytes encoded 0 preview
    let tailStart := encoded.length - preview
    let tail := previewBytes encoded tailStart preview
    envelope originalSize head tail

/-- `RpcBus::emit`: the payload that is broadcast. -/
def emit (payloadCapKib : Nat) (payload : Payload) : Json :=
  let capBytes := saturatingMul payloadCapKib 1024
  enforcePayloadCap payload.value capBytes

/-! ### How long a preview is, written -/

/-- The octets that a string takes between quotes. -/
def writtenLength (s : List Char) : Nat := (encode (s.flatMap escape)).length

/-- What the replacement has more than the octets of a character it stands for. -/
def missing (octets : Nat) : Nat := if octets = 0 then 0 else 3 - octets

/-- What the envelope of a text has beside the names and the previews' own octets: the digits of the size, an
octet for each quote and each backslash, and what the replacements of divided characters add. -/
def growth (text : List Char) : Nat :=
  let encoded := encode text
  let head := encoded.take 256
  let tail := encoded.drop (encoded.length - 256)
  (digits encoded.length).length + (escapes head + missing (cut 256 text)) +
    (escapes tail + 2 * (tail.takeWhile isContinuation).length)

theorem writtenLength_append (s t : List Char) : writtenLength (s ++ t) = writtenLength s + writtenLength t := by
  rw [writtenLength, List.flatMap_append, encode_append, List.length_append]
  rfl

theorem writtenLength_replacement (n : Nat) : writtenLength (List.replicate n replacement) = 3 * n := by
  induction n with
  | zero => rfl
  | succ n ih =>
    have hone : writtenLength [replacement] = 3 := by decide
    have happend := writtenLength_append [replacement] (List.replicate n replacement)
    rw [List.replicate_succ]
    rw [List.singleton_append] at happend
    omega

section preview

variable {text : List Char}

theorem printable_left {u v : List Char} (h : Printable (u ++ v)) : Printable u := fun c hc =>
  h c (List.mem_append_left v hc)

theorem printable_right {u v : List Char} (h : Printable (u ++ v)) : Printable v := fun c hc =>
  h c (List.mem_append_right u hc)

/-- What is in front of a cut, written. -/
theorem writtenLength_decode_take {n : Nat} (h : Printable text) (hn : n ≤ (encode text).length) :
    writtenLength (decode ((encode text).take n)) = n + (escapes ((encode text).take n) + missing (cut n text)) := by
  have hcuts := cuts_encode hn
  have hlength : ((encode text).take n).length = n := List.length_take_of_le hn
  generalize (encode text).take n = head at hcuts hlength
  generalize (encode text).drop n = tail at hcuts
  generalize cut n text = k at hcuts
  cases hcuts with
  | between u v =>
    rw [decode_encode, writtenLength, length_flatMap_escape (printable_left h), hlength]
    rfl
  | @inside u v c piece rest hc hpiece hrest =>
    have hwhole := length_flatMap_escape (printable_left h)
    have hpieceLength := List.length_pos_of_ne_nil hpiece
    have hrestLength := List.length_pos_of_ne_nil hrest
    have hone : writtenLength [replacement] = 3 := writtenLength_replacement 1
    have hfour := length_encodeChar_le c
    have hnone := escapes_eq_zero (octets_of_cut hc hpiece hrest).1
    rw [hc, List.length_append] at hfour
    rw [List.length_append] at hlength
    rw [decode_encode_append, decode_piece hc hpiece hrest, writtenLength_append, hone, writtenLength, hwhole,
      escapes_append, hnone, missing, if_neg (by omega)]
    omega

/-- What is behind a cut, written. -/
theorem writtenLength_decode_drop {n : Nat} (h : Printable text) (hn : n ≤ (encode text).length) :
    writtenLength (decode ((encode text).drop n)) = (encode text).length - n +
      (escapes ((encode text).drop n) + 2 * (((encode text).drop n).takeWhile isContinuation).length) := by
  have hcuts := cuts_encode hn
  have hlength : ((encode text).drop n).length = (encode text).length - n := List.length_drop
  generalize (encode text).length - n = m at hlength
  generalize (encode text).take n = head at hcuts
  generalize (encode text).drop n = tail at hcuts hlength
  generalize cut n text = k at hcuts
  cases hcuts with
  | between u v =>
    rw [decode_encode, writtenLength, length_flatMap_escape (printable_right h), hlength, takeWhile_encode]
    rfl
  | @inside u v c piece rest hc hpiece hrest =>
    have hcontinued := (octets_of_cut hc hpiece hrest).2
    have hv : Printable v := fun d hd => printable_right h d (List.mem_cons_of_mem c hd)
    have hwhole := length_flatMap_escape hv
    have hnone := escapes_eq_zero fun b hb => (of_decide_eq_true (hcontinued b hb)).1
    have hprefix : (rest ++ encode v).takeWhile isContinuation = rest := by
      rw [List.takeWhile_append_of_pos hcontinued, takeWhile_encode, List.append_nil]
    rw [List.length_append] at hlength
    rw [decode_continuation_append hcontinued, decode_encode, writtenLength_append, writtenLength_replacement,
      writtenLength, hwhole, escapes_append, hnone, hprefix]
    omega

end preview

/-! ### How long the envelope is -/

theorem length_encode_ascii {s : List Char} (h : ∀ c ∈ s, c.toNat < 0x80) : (encode s).length = s.length := by
  induction s with
  | nil => rfl
  | cons c s ih =>
    have hc : (String.utf8EncodeChar c).length = 1 := by
      rw [String.length_utf8EncodeChar, Char.utf8Size_eq_one_iff]
      exact UInt32.le_iff_toNat_le.mpr (Nat.lt_succ_iff.mp (h c List.mem_cons_self))
    rw [encode_cons, List.length_append, hc, ih fun d hd => h d (List.mem_cons_of_mem c hd), List.length_cons,
      Nat.add_comm]

theorem length_encode_digits (n : Nat) : (encode (digits n)).length = (digits n).length :=
  length_encode_ascii fun c hc => by
    have hdigit := digits_isDigit hc
    simp only [Char.isDigit, Bool.and_eq_true, decide_eq_true_eq] at hdigit
    exact lt_of_le_of_lt (UInt32.le_iff_toNat_le.mp hdigit.2) (by decide)

theorem write_envelope (originalSize : Nat) (head tail : List Char) :
    write (envelope originalSize (String.ofList head) (String.ofList tail)) =
      "\x7b\"head\":\"".toList ++ (head.flatMap escape ++ ("\",\"original_size\":".toList ++ (digits originalSize ++
        (",\"tail\":\"".toList ++ (tail.flatMap escape ++ "\",\"truncated\":true\x7d".toList))))) := by
  simp [envelope, write, writeMembers, quote, escape, List.append_assoc]

theorem length_toVec_envelope (originalSize : Nat) (head tail : List Char) :
    (toVec (envelope originalSize (String.ofList head) (String.ofList tail))).length =
      55 + (digits originalSize).length + writtenLength head + writtenLength tail := by
  have hhead : (encode "\x7b\"head\":\"".toList).length = 9 := by decide
  have hsize : (encode "\",\"original_size\":".toList).length = 18 := by decide
  have htail : (encode ",\"tail\":\"".toList).length = 9 := by decide
  have hend : (encode "\",\"truncated\":true\x7d".toList).length = 19 := by decide
  have hdigits := length_encode_digits originalSize
  rw [toVec, write_envelope]
  simp only [encode_append, List.length_append, hhead, hsize, htail, hend, hdigits, writtenLength]
  omega

theorem previewBytes_head {buf : List UInt8} (hlong : 256 ≤ buf.length) :
    previewBytes buf 0 preview = String.ofList (decode (buf.take 256)) := by
  have hstop : min (saturatingAdd 0 preview) buf.length - 0 = 256 := by
    rw [saturatingAdd, preview]
    omega
  simp only [previewBytes, hstop, List.drop_zero]

theorem previewBytes_tail {buf : List UInt8} (hlong : 256 ≤ buf.length) (hlt : buf.length < 2 ^ 63) :
    previewBytes buf (buf.length - preview) preview = String.ofList (decode (buf.drop (buf.length - 256))) := by
  have hstop : min (saturatingAdd (buf.length - preview) preview) buf.length - (buf.length - preview) = 256 := by
    rw [saturatingAdd, preview]
    omega
  have hwhole : (buf.drop (buf.length - preview)).length ≤ 256 := by
    rw [List.length_drop, preview]
    omega
  simp only [previewBytes, hstop]
  rw [List.take_of_length_le hwhole, preview]

/-- What is broadcast in the place of a payload that is longer than both previews. -/
theorem length_enforcePayloadCap (payload : Payload) {capBytes : Nat} (hcap : 1024 ≤ capBytes)
    (hlong : capBytes < (toVec payload.value).length) :
    (toVec (enforcePayloadCap payload.value capBytes)).length = 567 + growth (write payload.value) := by
  have hprintable := write_printable payload.value payload.numbersOk
  have hlength : 256 ≤ (toVec payload.value).length := by omega
  have hhead : writtenLength (decode ((toVec payload.value).take 256)) = _ :=
    writtenLength_decode_take hprintable hlength
  have htail : writtenLength (decode ((toVec payload.value).drop ((toVec payload.value).length - 256))) = _ :=
    writtenLength_decode_drop hprintable (Nat.sub_le _ 256)
  have hnot : ¬(capBytes = 0 ∨ (toVec payload.value).length ≤ capBytes) := by omega
  simp only [enforcePayloadCap, if_neg hnot]
  rw [previewBytes_head hlength, previewBytes_tail hlength payload.holds, length_toVec_envelope, hhead, htail]
  simp only [toVec] at hlength
  simp only [growth, toVec]
  omega

theorem growth_le (payload : Payload) (hlong : 256 ≤ (toVec payload.value).length) :
    growth (write payload.value) ≤ 1045 := by
  have hdigits : (digits (toVec payload.value).length).length ≤ 19 :=
    (Nat.length_toDigits_le_iff (by decide) (by decide)).mpr (lt_trans payload.holds (by decide))
  have hhead : escapes ((toVec payload.value).take 256) ≤ 256 :=
    le_trans List.countP_le_length (List.length_take_le _ _)
  have hdrop : ((toVec payload.value).drop ((toVec payload.value).length - 256)).length = 256 := by
    rw [List.length_drop]
    omega
  have htail : escapes ((toVec payload.value).drop ((toVec payload.value).length - 256)) ≤ 256 :=
    le_trans List.countP_le_length hdrop.le
  have hcontinued : (((toVec payload.value).drop ((toVec payload.value).length - 256)).takeWhile
      isContinuation).length ≤ 256 := le_trans (List.takeWhile_prefix _).length_le hdrop.le
  have hmissing : missing (cut 256 (write payload.value)) ≤ 2 := by
    rw [missing]
    split_ifs <;> omega
  simp only [toVec] at hdigits hhead htail hcontinued
  simp only [growth]
  omega

/-- What fits under the cap: from 2 KiB on everything, and under 1 KiB what is no longer than that, or what has
few quotes, backslashes and divided characters where it is cut. -/
def FitsUnder (payloadCapKib : Nat) (payload : Payload) : Prop :=
  2 ≤ payloadCapKib ∨ (toVec payload.value).length ≤ 1024 ∨ growth (write payload.value) ≤ 457

/-- A cap that is not reached. -/
theorem emit_of_le {payload : Payload} {payloadCapKib : Nat}
    (hle : (toVec payload.value).length ≤ payloadCapKib * 1024) : emit payloadCapKib payload = payload.value := by
  have hlt := payload.holds
  have hle : (toVec payload.value).length ≤ saturatingMul payloadCapKib 1024 := by
    rw [saturatingMul]
    omega
  simp only [emit, enforcePayloadCap]
  rw [if_pos (.inr hle)]

/-- A cap that is reached. -/
theorem length_emit {payload : Payload} {payloadCapKib : Nat} (hcap : 1 ≤ payloadCapKib)
    (hlong : payloadCapKib * 1024 < (toVec payload.value).length) :
    (toVec (emit payloadCapKib payload)).length = 567 + growth (write payload.value) := by
  have hlt := payload.holds
  have hone := Nat.mul_le_mul_right 1024 hcap
  refine length_enforcePayloadCap payload ?_ ?_
  all_goals
    rw [saturatingMul]
    omega

theorem length_emit_one {payload : Payload} (hlong : 1024 < (toVec payload.value).length)
    (hmany : 457 < growth (write payload.value)) : ¬(toVec (emit 1 payload)).length ≤ 1 * 1024 := by
  rw [length_emit le_rfl (by omega)]
  omega

theorem emit_fits_iff (payload : Payload) {payloadCapKib : Nat} (hcap : 1 ≤ payloadCapKib) :
    (toVec (emit payloadCapKib payload)).length ≤ payloadCapKib * 1024 ↔ FitsUnder payloadCapKib payload := by
  by_cases hle : (toVec payload.value).length ≤ payloadCapKib * 1024
  · rw [emit_of_le hle]
    refine ⟨fun _ => ?_, fun _ => hle⟩
    by_cases htwo : 2 ≤ payloadCapKib
    · exact .inl htwo
    · exact .inr (.inl (by omega))
  · rw [length_emit hcap (by omega)]
    have hgrowth := growth_le payload (by omega)
    constructor
    · intro hfits
      by_cases htwo : 2 ≤ payloadCapKib
      · exact .inl htwo
      · exact .inr (.inr (by omega))
    · rintro (htwo | hshort | hfew)
      all_goals omega

theorem write_ofList (s : List Char) : write (.string (String.ofList s)) = quote s := by
  rw [write, String.toList_ofList]

/-- A string of backslashes. -/
def backslashes : Payload where
  value := .string (String.ofList (List.replicate 600 '\\'))
  numbersOk := fun text h => nomatch h
  holds := by
    rw [toVec, write_ofList]
    decide +kernel

/-- Each backslash of its text is written as two again. -/
theorem backslashes_exceed_cap :
    ¬ ∀ (payload : Payload) (payloadCapKib : Nat), 1 ≤ payloadCapKib →
      (toVec (emit payloadCapKib payload)).length ≤ payloadCapKib * 1024 := by
  intro hall
  have hlong : 1024 < (toVec backslashes.value).length := by
    rw [toVec, backslashes, write_ofList]
    decide +kernel
  have hmany : 457 < growth (write backslashes.value) := by
    rw [backslashes, write_ofList]
    decide +kernel
  exact length_emit_one hlong hmany (hall backslashes 1 le_rfl)

/-- A string of letters between quotes. -/
def quoted : Payload where
  value := .string (String.ofList ('"' :: List.replicate 1100 'a' ++ ['"']))
  numbersOk := fun text h => nomatch h
  holds := by
    rw [toVec, write_ofList]
    decide +kernel

/-- It is too long for the least cap there is, and what is sent in its place is not. -/
theorem emit_fits_iff_quoted :
    1024 < (toVec quoted.value).length ∧ (toVec (emit 1 quoted)).length ≤ 1 * 1024 := by
  have hlong : 1024 < (toVec quoted.value).length := by
    rw [toVec, quoted, write_ofList]
    decide +kernel
  have hfew : growth (write quoted.value) ≤ 457 := by
    rw [quoted, write_ofList]
    decide +kernel
  exact ⟨hlong, (emit_fits_iff quoted le_rfl).mpr (.inr (.inr hfew))⟩

end Nerve.Rpc
