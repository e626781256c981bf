import Nerve.Library.Text
import Mathlib.Data.List.TakeWhile

/-!
# JSON

Values as a text writes them: an object is the list of its members, in their order and with the
repeated ones. `Denotes` is the grammar of RFC 8259, from values to texts; `readValue` reads the
first value of a text and finds just what the grammar says
(`read_sound`, `read_complete`). Where several members of an object have one name, a map keeps the last
(`get?`).

Numbers are kept as they are written. In strings, a `\u` escape of half a surrogate pair is no character, and
such a text denotes nothing.
-/

namespace Nerve

open Text

inductive Json where
  | null
  | bool (b : Bool)
  | number (text : List Char)
  | string (s : String)
  | array (items : List Json)
  | object (members : List (String × Json))
  deriving Repr

namespace Json

/-- The one value is the other, or somewhere in it. -/
inductive Inside (w : Json) : Json → Prop
  | self : Inside w w
  | item {items : List Json} {v : Json} (hv : v ∈ items) (h : Inside w v) : Inside w (.array items)
  | member {members : List (String × Json)} {m : String × Json} (hm : m ∈ members) (h : Inside w m.2) :
    Inside w (.object members)

@[elab_as_elim] theorem induct {motive : Json → Prop} (null : motive .null) (bool : ∀ b, motive (.bool b))
    (number : ∀ text, motive (.number text)) (string : ∀ s, motive (.string s))
    (array : ∀ items, (∀ v ∈ items, motive v) → motive (.array items))
    (object : ∀ members, (∀ m ∈ members, motive m.2) → motive (.object members)) (v : Json) : motive v :=
  @Json.rec motive (fun items => ∀ v ∈ items, motive v) (fun members => ∀ m ∈ members, motive m.2) (fun m => motive m.2)
    null bool number string array object (List.forall_mem_nil _) (fun _ _ hv hvs => List.forall_mem_cons.mpr ⟨hv, hvs⟩)
    (List.forall_mem_nil _) (fun _ _ hm hms => List.forall_mem_cons.mpr ⟨hm, hms⟩) (fun _ _ hv => hv) v

/-! ### Access -/

/-- The member of the name; of several the last. -/
def get? (name : String) : Json → Option Json
  | object members => (members.reverse.find? fun m => m.1 == name).map Prod.snd
  | _ => none

def asBool : Json → Option Bool
  | bool b => some b
  | _ => none

def asString : Json → Option String
  | string s => some s
  | _ => none

def asArray : Json → Option (List Json)
  | array items => some items
  | _ => none

/-- `Value::as_u64`. -/
def asU64 : Json → Option Nat
  | number text => parseUsize text
  | _ => none

/-- `Value::as_i64`. Zero with a sign is no integer. -/
def asI64 : Json → Option Int
  | number text =>
    match stripPrefix ['-'] text with
    | some digits => (parseUsize digits).bind fun n => if 0 < n ∧ n ≤ 2 ^ 63 then some (-n) else none
    | none => (parseUsize text).bind fun n => if n < 2 ^ 63 then some n else none
  | _ => none

/-! ### Numbers -/

def isNumberChar (c : Char) : Bool := c.isDigit || c == '-' || c == '+' || c == '.' || c == 'e' || c == 'E'

/-- Some digits, and no zero before others. -/
def isWhole (s : List Char) : Bool := !s.isEmpty && s.all Char.isDigit && (s.length == 1 || s.head? != some '0')

/-- Nothing, or the one character before them and some digits. -/
def isTail (s : List Char) : Bool :=
  match s with
  | [] => true
  | _ :: digits => !digits.isEmpty && digits.all Char.isDigit

/-- A sign after the exponent's letter is left out. -/
def dropSign : List Char → List Char
  | e :: sign :: s => if sign = '+' ∨ sign = '-' then e :: s else e :: sign :: s
  | s => s

def isNumber (text : List Char) : Bool :=
  let s := (stripPrefix ['-'] text).getD text
  let mantissa := s.takeWhile fun c => c != 'e' && c != 'E'
  let exponent := s.dropWhile fun c => c != 'e' && c != 'E'
  text.all isNumberChar && isWhole (mantissa.takeWhile (· != '.')) && isTail (mantissa.dropWhile (· != '.')) &&
    isTail (dropSign exponent)

/-! ### Strings -/

/-- What an escape of one letter stands for. -/
def simpleEscape : Char → Option Char
  | '"' => some '"'
  | '\\' => some '\\'
  | '/' => some '/'
  | 'b' => some '\x08'
  | 'f' => some '\x0c'
  | 'n' => some '\n'
  | 'r' => some '\r'
  | 't' => some '\t'
  | _ => none

/-- What can follow a backslash. -/
def isEscapable (c : Char) : Bool := (simpleEscape c).isSome || c == 'u'

/-- A character that stands for itself. -/
def isPlain (c : Char) : Bool := c != '"' && c != '\\' && decide (0x20 ≤ c.toNat)

/-- What stands between quotes. -/
inductive Content : List Char → Prop
  | nil : Content []
  | escape {c : Char} (hc : isEscapable c = true) {s : List Char} (h : Content s) : Content ('\\' :: c :: s)
  | plain {c : Char} (hc : isPlain c = true) {s : List Char} (h : Content s) : Content (c :: s)

def hexDigit (c : Char) : Option Nat :=
  if c.isDigit then some (c.toNat - '0'.toNat)
  else if 'a' ≤ c ∧ c ≤ 'f' then some (c.toNat - 'a'.toNat + 10)
  else if 'A' ≤ c ∧ c ≤ 'F' then some (c.toNat - 'A'.toNat + 10)
  else none

def hex4 (a b c d : Char) : Option Nat := do
  pure (((← hexDigit a) * 16 + (← hexDigit b)) * 256 + ((← hexDigit c) * 16 + (← hexDigit d)))

/-- A character, or a code unit of an escape. -/
inductive CodeUnit where
  | char (c : Char)
  | escaped (n : Nat)

def units : List Char → Option (List CodeUnit)
  | [] => some []
  | '\\' :: 'u' :: a :: b :: c :: d :: s => (hex4 a b c d).bind fun n => (units s).map (.escaped n :: ·)
  | '\\' :: c :: s => (simpleEscape c).bind fun c => (units s).map (.char c :: ·)
  | c :: s => (units s).map (.char c :: ·)

/-- Two halves of a surrogate pair are one character. -/
def joinUnits : List CodeUnit → Option (List Char)
  | [] => some []
  | .char c :: us => (joinUnits us).map (c :: ·)
  | .escaped n :: us =>
    if 0xD800 ≤ n ∧ n < 0xDC00 then
      match us with
      | .escaped m :: us =>
        if 0xDC00 ≤ m ∧ m < 0xE000 then
          (joinUnits us).map (Char.ofNat (0x10000 + (n - 0xD800) * 0x400 + (m - 0xDC00)) :: ·)
        else none
      | _ => none
    else if 0xDC00 ≤ n ∧ n < 0xE000 then none
    else (joinUnits us).map (Char.ofNat n :: ·)

/-- The string between the quotes, without its escapes. -/
def unescape (s : List Char) : Option String := ((units s).bind joinUnits).map String.ofList

/-! ### The grammar -/

def isSpace (c : Char) : Bool := c == ' ' || c == '\t' || c == '\n' || c == '\r'

/-- Nothing but space. -/
def Space (s : List Char) : Prop := ∀ c ∈ s, isSpace c = true

/-- What a stretch of text can be: a value, a value or a member with the space around it, or several of these
with commas between. -/
inductive Part where
  | value (v : Json)
  | item (v : Json)
  | member (m : String × Json)
  | items (vs : List Json)
  | members (ms : List (String × Json))

inductive Denotes : Part → List Char → Prop
  | null : Denotes (.value .null) "null".toList
  | true : Denotes (.value (.bool true)) "true".toList
  | false : Denotes (.value (.bool false)) "false".toList
  | number {text : List Char} (h : isNumber text = true) : Denotes (.value (.number text)) text
  | string {raw : List Char} (hraw : Content raw) {s : String} (hs : unescape raw = some s) :
    Denotes (.value (.string s)) ('"' :: (raw ++ ['"']))
  | emptyArray {space : List Char} (h : Space space) : Denotes (.value (.array [])) ('[' :: (space ++ [']']))
  | array {vs : List Json} {text : List Char} (h : Denotes (.items vs) text) :
    Denotes (.value (.array vs)) ('[' :: (text ++ [']']))
  | emptyObject {space : List Char} (h : Space space) : Denotes (.value (.object [])) ('\x7b' :: (space ++ ['\x7d']))
  | object {ms : List (String × Json)} {text : List Char} (h : Denotes (.members ms) text) :
    Denotes (.value (.object ms)) ('\x7b' :: (text ++ ['\x7d']))
  | item {before after : List Char} (hbefore : Space before) (hafter : Space after) {v : Json} {text : List Char}
    (h : Denotes (.value v) text) : Denotes (.item v) (before ++ (text ++ after))
  | member {before after : List Char} (hbefore : Space before) (hafter : Space after) {key : String} {v : Json}
    {name text : List Char} (hname : Denotes (.value (.string key)) name) (h : Denotes (.item v) text) :
    Denotes (.member (key, v)) (before ++ (name ++ (after ++ ':' :: text)))
  | lastItem {v : Json} {text : List Char} (h : Denotes (.item v) text) : Denotes (.items [v]) text
  | items {v : Json} {vs : List Json} {text texts : List Char} (h : Denotes (.item v) text)
    (hs : Denotes (.items vs) texts) : Denotes (.items (v :: vs)) (text ++ ',' :: texts)
  | lastMember {m : String × Json} {text : List Char} (h : Denotes (.member m) text) : Denotes (.members [m]) text
  | members {m : String × Json} {ms : List (String × Json)} {text texts : List Char} (h : Denotes (.member m) text)
    (hs : Denotes (.members ms) texts) : Denotes (.members (m :: ms)) (text ++ ',' :: texts)

/-! ### The reader -/

def skipSpace (s : List Char) : List Char := s.dropWhile isSpace

/-- What stands before the closing quote, and what after it. -/
def scan : List Char → Option (List Char × List Char)
  | [] => none
  | '"' :: rest => some ([], rest)
  | '\\' :: c :: s => if isEscapable c then (scan s).map fun (raw, rest) => ('\\' :: c :: raw, rest) else none
  | c :: s => if isPlain c then (scan s).map fun (raw, rest) => (c :: raw, rest) else none

def readString (s : List Char) : Option (String × List Char) :=
  (scan s).bind fun (raw, rest) => (unescape raw).map (·, rest)

def readNumber (s : List Char) : Option (Json × List Char) :=
  let text := s.takeWhile isNumberChar
  if isNumber text then some (.number text, s.dropWhile isNumberChar) else none

def readScalar (s : List Char) : Option (Json × List Char) :=
  match s.head? with
  | some 'n' => (stripPrefix "null".toList s).map (.null, ·)
  | some 't' => (stripPrefix "true".toList s).map (.bool .true, ·)
  | some 'f' => (stripPrefix "false".toList s).map (.bool .false, ·)
  | _ => readNumber s

mutual

/-- The value at the beginning of a text, and what comes after it. -/
def readValue : (fuel : Nat) → List Char → Option (Json × List Char)
  | 0, _ => none
  | fuel + 1, s =>
    match skipSpace s with
    | '"' :: s => (readString s).map fun (str, rest) => (.string str, rest)
    | '[' :: s =>
      match skipSpace s with
      | ']' :: rest => some (.array [], rest)
      | _ => (readItems fuel s).map fun (vs, rest) => (.array vs, rest)
    | '\x7b' :: s =>
      match skipSpace s with
      | '\x7d' :: rest => some (.object [], rest)
      | _ => (readMembers fuel s).map fun (ms, rest) => (.object ms, rest)
    | s => readScalar s

/-- The items of an array, up to its end. -/
def readItems : (fuel : Nat) → List Char → Option (List Json × List Char)
  | 0, _ => none
  | fuel + 1, s =>
    match readValue fuel s with
    | none => none
    | some (v, s) =>
      match skipSpace s with
      | ',' :: s => (readItems fuel s).map fun (vs, rest) => (v :: vs, rest)
      | ']' :: rest => some ([v], rest)
      | _ => none

/-- The members of an object, up to its end. -/
def readMembers : (fuel : Nat) → List Char → Option (List (String × Json) × List Char)
  | 0, _ => none
  | fuel + 1, s =>
    match skipSpace s with
    | '"' :: s =>
      match readString s with
      | none => none
      | some (key, s) =>
        match skipSpace s with
        | ':' :: s =>
          match readValue fuel s with
          | none => none
          | some (v, s) =>
            match skipSpace s with
            | ',' :: s => (readMembers fuel s).map fun (ms, rest) => ((key, v) :: ms, rest)
            | '\x7d' :: rest => some ([(key, v)], rest)
            | _ => none
        | _ => none
    | _ => none

end

/-- The fuel for a text of this length. -/
def read (s : List Char) : Option (Json × List Char) := readValue (2 * s.length + 1) s

/-! ### Space -/

theorem space_nil : Space [] := List.forall_mem_nil _

theorem skipSpace_append {space : List Char} (h : Space space) (s : List Char) :
    skipSpace (space ++ s) = skipSpace s :=
  List.dropWhile_append_of_pos h

theorem skipSpace_cons {c : Char} (hc : isSpace c = false) (s : List Char) : skipSpace (c :: s) = c :: s :=
  List.dropWhile_cons_of_neg (by rw [hc]; exact Bool.false_ne_true)

/-- What is skipped is space. -/
theorem exists_space (s : List Char) : ∃ space, Space space ∧ s = space ++ skipSpace s :=
  ⟨s.takeWhile isSpace, fun _ hc => List.mem_takeWhile_imp hc, (List.takeWhile_append_dropWhile).symm⟩

/-! ### What is read is what the grammar says -/

theorem scan_sound {s raw rest : List Char} (h : scan s = some (raw, rest)) :
    s = raw ++ '"' :: rest ∧ Content raw := by
  induction s using scan.induct generalizing raw with
  | case1 => cases h
  | case2 rest' =>
    rw [scan] at h
    cases h
    exact ⟨rfl, .nil⟩
  | case3 c s hc ih =>
    rw [scan, if_pos hc] at h
    obtain ⟨⟨raw', rest'⟩, hscan, heq⟩ := Option.map_eq_some_iff.mp h
    cases heq
    obtain ⟨rfl, hraw⟩ := ih hscan
    exact ⟨rfl, .escape hc hraw⟩
  | case4 c s hc =>
    rw [scan, if_neg hc] at h
    cases h
  | case5 c s hquote hescape hc ih =>
    rw [scan, if_pos hc] at h
    · obtain ⟨⟨raw', rest'⟩, hscan, heq⟩ := Option.map_eq_some_iff.mp h
      cases heq
      obtain ⟨rfl, hraw⟩ := ih hscan
      exact ⟨rfl, .plain hc hraw⟩
    · exact hquote
    · exact hescape
  | case6 c s hquote hescape hc =>
    rw [scan, if_neg hc] at h
    · cases h
    · exact hquote
    · exact hescape

theorem scan_complete {raw : List Char} (h : Content raw) (rest : List Char) :
    scan (raw ++ '"' :: rest) = some (raw, rest) := by
  induction h with
  | nil => rfl
  | escape hc _ ih => rw [List.cons_append, List.cons_append, scan, if_pos hc, ih, Option.map_some]
  | @plain c hc s _ ih =>
    have hplain := hc
    simp only [isPlain, Bool.and_eq_true, bne_iff_ne] at hplain
    rw [List.cons_append, scan, if_pos hc, ih, Option.map_some]
    · exact hplain.1.1
    · exact fun _ _ heq _ => hplain.1.2 heq

theorem readString_eq_some {s rest : List Char} {str : String} :
    readString s = some (str, rest) ↔ ∃ raw, s = raw ++ '"' :: rest ∧ Content raw ∧ unescape raw = some str := by
  unfold readString
  constructor
  · intro h
    obtain ⟨⟨raw, rest'⟩, hscan, heq⟩ := Option.bind_eq_some_iff.mp h
    obtain ⟨str', hstr, heq⟩ := Option.map_eq_some_iff.mp heq
    cases heq
    obtain ⟨rfl, hraw⟩ := scan_sound hscan
    exact ⟨raw, rfl, hraw, hstr⟩
  · rintro ⟨raw, rfl, hraw, hstr⟩
    simp only [scan_complete hraw, Option.bind_some, hstr, Option.map_some]

theorem readNumber_sound {s rest : List Char} {v : Json} (h : readNumber s = some (v, rest)) :
    ∃ text, s = text ++ rest ∧ Denotes (.value v) text := by
  simp only [readNumber] at h
  split_ifs at h with hnumber
  cases h
  exact ⟨_, (List.takeWhile_append_dropWhile).symm, .number hnumber⟩

theorem readScalar_sound {s rest : List Char} {v : Json} (h : readScalar s = some (v, rest)) :
    ∃ text, s = text ++ rest ∧ Denotes (.value v) text := by
  have hword {word : List Char} {w : Json} (hw : Denotes (.value w) word)
      (h : (stripPrefix word s).map (w, ·) = some (v, rest)) : ∃ text, s = text ++ rest ∧ Denotes (.value v) text := by
    obtain ⟨rest', hstrip, heq⟩ := Option.map_eq_some_iff.mp h
    cases heq
    exact ⟨word, eq_append_of_stripPrefix hstrip, hw⟩
  unfold readScalar at h
  split at h
  · exact hword .null h
  · exact hword .true h
  · exact hword .false h
  · exact readNumber_sound h

/-- What is read with this fuel is what the grammar says. -/
structure SoundFor (fuel : Nat) : Prop where
  value : ∀ s v rest, readValue fuel s = some (v, rest) →
    ∃ space text, Space space ∧ s = space ++ (text ++ rest) ∧ Denotes (.value v) text
  items : ∀ s vs rest, readItems fuel s = some (vs, rest) → ∃ text, s = text ++ ']' :: rest ∧ Denotes (.items vs) text
  members : ∀ s ms rest, readMembers fuel s = some (ms, rest) →
    ∃ text, s = text ++ '\x7d' :: rest ∧ Denotes (.members ms) text

namespace SoundFor

variable {fuel : Nat} {s rest : List Char}

theorem readValue (ih : SoundFor fuel) {v : Json} (h : Json.readValue (fuel + 1) s = some (v, rest)) :
    ∃ space text, Space space ∧ s = space ++ (text ++ rest) ∧ Denotes (.value v) text := by
  rw [Json.readValue] at h
  obtain ⟨space, hspace, hs⟩ := exists_space s
  split at h
  · rename_i s' hskip
    obtain ⟨⟨str, rest'⟩, hread, heq⟩ := Option.map_eq_some_iff.mp h
    cases heq
    obtain ⟨raw, rfl, hraw, hstr⟩ := readString_eq_some.mp hread
    exact ⟨space, _, hspace, by rw [hs, hskip]; simp, .string hraw hstr⟩
  · rename_i s' hskip
    obtain ⟨space', hspace', hs'⟩ := exists_space s'
    split at h
    · rename_i rest' hskip'
      cases h
      exact ⟨space, _, hspace, by rw [hs, hskip, hs', hskip']; simp, .emptyArray hspace'⟩
    · obtain ⟨⟨vs, rest'⟩, hread, heq⟩ := Option.map_eq_some_iff.mp h
      cases heq
      obtain ⟨text, rfl, htext⟩ := ih.items _ _ _ hread
      exact ⟨space, _, hspace, by rw [hs, hskip]; simp, .array htext⟩
  · rename_i s' hskip
    obtain ⟨space', hspace', hs'⟩ := exists_space s'
    split at h
    · rename_i rest' hskip'
      cases h
      exact ⟨space, _, hspace, by rw [hs, hskip, hs', hskip']; simp, .emptyObject hspace'⟩
    · obtain ⟨⟨ms, rest'⟩, hread, heq⟩ := Option.map_eq_some_iff.mp h
      cases heq
      obtain ⟨text, rfl, htext⟩ := ih.members _ _ _ hread
      exact ⟨space, _, hspace, by rw [hs, hskip]; simp, .object htext⟩
  · obtain ⟨text, htext, hdenotes⟩ := readScalar_sound h
    exact ⟨space, text, hspace, by rw [← htext, ← hs], hdenotes⟩

theorem readItems (ih : SoundFor fuel) {vs : List Json} (h : Json.readItems (fuel + 1) s = some (vs, rest)) :
    ∃ text, s = text ++ ']' :: rest ∧ Denotes (.items vs) text := by
  rw [Json.readItems] at h
  split at h
  · cases h
  · rename_i v s' hread
    obtain ⟨space, text, hspace, rfl, htext⟩ := ih.value _ _ _ hread
    obtain ⟨space', hspace', hs'⟩ := exists_space s'
    have hitem := Denotes.item hspace hspace' htext
    split at h
    · rename_i s'' hskip
      obtain ⟨⟨vs', rest'⟩, hread', heq⟩ := Option.map_eq_some_iff.mp h
      cases heq
      obtain ⟨texts, rfl, htexts⟩ := ih.items _ _ _ hread'
      exact ⟨_, by rw [hs', hskip]; simp, .items hitem htexts⟩
    · rename_i rest' hskip
      cases h
      exact ⟨_, by rw [hs', hskip]; simp, .lastItem hitem⟩
    · cases h

theorem readMembers (ih : SoundFor fuel) {ms : List (String × Json)}
    (h : Json.readMembers (fuel + 1) s = some (ms, rest)) :
    ∃ text, s = text ++ '\x7d' :: rest ∧ Denotes (.members ms) text := by
  rw [Json.readMembers] at h
  obtain ⟨space₀, hspace₀, hs⟩ := exists_space s
  split at h
  · rename_i s₁ hskip₀
    split at h
    · cases h
    · rename_i key s₂ hkey
      obtain ⟨raw, rfl, hraw, hstr⟩ := readString_eq_some.mp hkey
      obtain ⟨space₁, hspace₁, hs₂⟩ := exists_space s₂
      split at h
      · rename_i s₃ hskip₁
        split at h
        · cases h
        · rename_i v s₄ hread
          obtain ⟨space, text, hspace, rfl, htext⟩ := ih.value _ _ _ hread
          obtain ⟨space', hspace', hs'⟩ := exists_space s₄
          have hmember := Denotes.member hspace₀ hspace₁ (.string hraw hstr) (.item hspace hspace' htext)
          split at h
          · rename_i s₅ hskip
            obtain ⟨⟨ms', rest'⟩, hread', heq⟩ := Option.map_eq_some_iff.mp h
            cases heq
            obtain ⟨texts, rfl, htexts⟩ := ih.members _ _ _ hread'
            refine ⟨_, ?_, .members hmember htexts⟩
            rw [hs, hskip₀, hs₂, hskip₁, hs', hskip]
            simp
          · rename_i rest' hskip
            cases h
            refine ⟨_, ?_, .lastMember hmember⟩
            rw [hs, hskip₀, hs₂, hskip₁, hs', hskip]
            simp
          · cases h
      · cases h
  · cases h

end SoundFor

/-- **What is read is what the grammar says.** -/
theorem read_sound (fuel : Nat) : SoundFor fuel := by
  induction fuel with
  | zero =>
    refine ⟨fun s v rest h => ?_, fun s vs rest h => ?_, fun s ms rest h => ?_⟩
    · rw [readValue] at h
      cases h
    · rw [readItems] at h
      cases h
    · rw [readMembers] at h
      cases h
  | succ fuel ih => exact ⟨fun _ _ _ => ih.readValue, fun _ _ _ => ih.readItems, fun _ _ _ => ih.readMembers⟩

/-! ### What the grammar says is read -/

theorem isSpace_of_isNumberChar {c : Char} (h : isNumberChar c = true) : isSpace c = false := by
  rw [Bool.eq_false_iff]
  intro hspace
  simp only [isSpace, Bool.or_eq_true, beq_iff_eq] at hspace
  rcases hspace with ((rfl | rfl) | rfl) | rfl <;> revert h <;> decide

/-- A number is some of its characters. -/
theorem isNumber_cons {text : List Char} (h : isNumber text = true) :
    (∀ c ∈ text, isNumberChar c = true) ∧ text ≠ [] := by
  constructor
  · simp only [isNumber, Bool.and_eq_true] at h
    exact List.all_eq_true.mp h.1.1.1
  · rintro rfl
    revert h
    decide

/-- A value begins with its first character, and that closes nothing. -/
theorem value_head {v : Json} {text : List Char} (h : Denotes (.value v) text) :
    ∃ c s, text = c :: s ∧ isSpace c = false ∧ c ≠ ']' ∧ c ≠ '\x7d' := by
  cases h with
  | null | true | false | string | emptyArray | array | emptyObject | object =>
    exact ⟨_, _, rfl, by decide, by decide, by decide⟩
  | number h =>
    obtain ⟨hchars, hne⟩ := isNumber_cons h
    obtain ⟨c, s, rfl⟩ := List.exists_cons_of_ne_nil hne
    have hc := hchars c List.mem_cons_self
    refine ⟨c, s, rfl, isSpace_of_isNumberChar hc, ?_, ?_⟩
    · rintro rfl
      revert hc
      decide
    · rintro rfl
      revert hc
      decide

/-- The same of whatever is in an array or an object, behind some space. -/
theorem skipSpace_head {part : Part} {text : List Char} (h : Denotes part text) (rest : List Char) :
    ∃ c s, skipSpace (text ++ rest) = c :: s ∧ c ≠ ']' ∧ c ≠ '\x7d' := by
  have hvalue {before text : List Char} {v : Json} (hbefore : Space before) (h : Denotes (.value v) text)
      (rest : List Char) : ∃ c s, skipSpace (before ++ (text ++ rest)) = c :: s ∧ c ≠ ']' ∧ c ≠ '\x7d' := by
    obtain ⟨c, s, rfl, hspace, hends⟩ := value_head h
    exact ⟨c, s ++ rest, by rw [skipSpace_append hbefore, List.cons_append, skipSpace_cons hspace], hends⟩
  induction h generalizing rest with
  | null => exact hvalue space_nil .null rest
  | true => exact hvalue space_nil .true rest
  | false => exact hvalue space_nil .false rest
  | number h => exact hvalue space_nil (.number h) rest
  | string hraw hs => exact hvalue space_nil (.string hraw hs) rest
  | emptyArray h => exact hvalue space_nil (.emptyArray h) rest
  | array h => exact hvalue space_nil (.array h) rest
  | emptyObject h => exact hvalue space_nil (.emptyObject h) rest
  | object h => exact hvalue space_nil (.object h) rest
  | item hbefore _ h =>
    rw [List.append_assoc, List.append_assoc]
    exact hvalue hbefore h _
  | member hbefore _ hname _ =>
    rw [List.append_assoc, List.append_assoc]
    exact hvalue hbefore hname _
  | lastItem _ ih => exact ih rest
  | items _ _ ih _ =>
    rw [List.append_assoc]
    exact ih _
  | lastMember _ ih => exact ih rest
  | members _ _ ih _ =>
    rw [List.append_assoc]
    exact ih _

/-- What follows a value in an array or an object, behind some space: the next one, or the end. -/
def Follows (rest : List Char) : Prop := ∃ c s, rest = c :: s ∧ isSpace c = false ∧ isNumberChar c = false

/-- The reader finds the part at the beginning of a text, if there is fuel for it and no number goes on. -/
def IsRead : Part → List Char → Prop
  | .value v, text => ∀ space rest fuel, Space space → 2 * text.length < fuel →
      ((∃ number, v = .number number) → ∀ c ∈ rest.head?, isNumberChar c = false) →
      readValue fuel (space ++ (text ++ rest)) = some (v, rest)
  | .item v, text => ∀ rest fuel, Follows rest → 2 * text.length < fuel →
      ∃ s, readValue fuel (text ++ rest) = some (v, s) ∧ skipSpace s = rest
  | .member m, text => ∀ rest fuel, Follows rest → 2 * text.length < fuel →
      readMembers (fuel + 1) (text ++ rest) =
        match rest with
        | ',' :: s => (readMembers fuel s).map fun (ms, rest) => (m :: ms, rest)
        | '\x7d' :: rest => some ([m], rest)
        | _ => none
  | .items vs, text => ∀ rest fuel, 2 * text.length + 1 < fuel →
      readItems fuel (text ++ ']' :: rest) = some (vs, rest)
  | .members ms, text => ∀ rest fuel, 2 * text.length + 1 < fuel →
      readMembers fuel (text ++ '\x7d' :: rest) = some (ms, rest)

theorem readNumber_complete {text rest : List Char} (h : isNumber text = true)
    (hrest : ∀ c ∈ rest.head?, isNumberChar c = false) : readNumber (text ++ rest) = some (.number text, rest) := by
  have hchars := (isNumber_cons h).1
  have htake : rest.takeWhile isNumberChar = [] ∧ rest.dropWhile isNumberChar = rest := by
    cases rest with
    | nil => exact ⟨rfl, rfl⟩
    | cons c rest =>
      have hc : ¬ isNumberChar c = true := by
        rw [hrest c rfl]
        exact Bool.false_ne_true
      exact ⟨List.takeWhile_cons_of_neg hc, List.dropWhile_cons_of_neg hc⟩
  simp only [readNumber]
  rw [List.takeWhile_append_of_pos hchars, List.dropWhile_append_of_pos hchars, htake.1, htake.2, List.append_nil,
    if_pos h]

theorem readScalar_number {c : Char} {s : List Char} (hc : isNumberChar c = true) :
    readScalar (c :: s) = readNumber (c :: s) := by
  unfold readScalar
  split
  · rename_i heq
    cases heq
    exact absurd hc (by decide)
  · rename_i heq
    cases heq
    exact absurd hc (by decide)
  · rename_i heq
    cases heq
    exact absurd hc (by decide)
  · rfl

/-- What a value is that begins as none of the others. -/
theorem readValue_scalar {fuel : Nat} {space : List Char} (hspace : Space space) {c : Char} {s : List Char}
    (hc : isSpace c = false) (hquote : c ≠ '"') (hbracket : c ≠ '[') (hbrace : c ≠ '\x7b') :
    readValue (fuel + 1) (space ++ c :: s) = readScalar (c :: s) := by
  rw [readValue, skipSpace_append hspace, skipSpace_cons hc]
  split
  · rename_i heq
    cases heq
    exact absurd rfl hquote
  · rename_i heq
    cases heq
    exact absurd rfl hbracket
  · rename_i heq
    cases heq
    exact absurd rfl hbrace
  · rfl

theorem exists_fuel {n fuel : Nat} (h : n < fuel) : ∃ f, fuel = f + 1 := ⟨fuel - 1, by omega⟩

theorem isRead_number {text : List Char} (h : isNumber text = true) : IsRead (.value (.number text)) text := by
  intro space rest fuel hspace hlength hrest
  obtain ⟨fuel, rfl⟩ := exists_fuel hlength
  have hread := readNumber_complete h (hrest ⟨text, rfl⟩)
  obtain ⟨hchars, hne⟩ := isNumber_cons h
  obtain ⟨c, s, rfl⟩ := List.exists_cons_of_ne_nil hne
  have hc := hchars c List.mem_cons_self
  have hnot {d : Char} (hd : isNumberChar d = false) : c ≠ d := by
    rintro rfl
    rw [hc] at hd
    cases hd
  rw [List.cons_append] at hread ⊢
  rw [readValue_scalar hspace (isSpace_of_isNumberChar hc) (hnot (by decide)) (hnot (by decide)) (hnot (by decide)),
    readScalar_number hc, hread]

theorem isRead_item {before after : List Char} (hbefore : Space before) (hafter : Space after) {v : Json}
    {text : List Char} (ih : IsRead (.value v) text) : IsRead (.item v) (before ++ (text ++ after)) := by
  intro rest fuel hfollows hlength
  obtain ⟨c, s, rfl, hspace, hnumber⟩ := hfollows
  refine ⟨after ++ c :: s, ?_, by rw [skipSpace_append hafter, skipSpace_cons hspace]⟩
  rw [List.append_assoc, List.append_assoc]
  refine ih before (after ++ c :: s) fuel hbefore (by simp only [List.length_append] at hlength; omega) ?_
  -- a number does not go on in the space behind it, or in what follows
  intro _ d hd
  cases after with
  | nil =>
    cases hd
    exact hnumber
  | cons e after =>
    cases hd
    have he := hafter d List.mem_cons_self
    rw [Bool.eq_false_iff]
    intro hd
    rw [isSpace_of_isNumberChar hd] at he
    cases he

theorem isRead_member {before after : List Char} (hbefore : Space before) (hafter : Space after) {key : String} {v : Json}
    {name text : List Char} (hname : Denotes (.value (.string key)) name) (ih : IsRead (.item v) text) :
    IsRead (.member (key, v)) (before ++ (name ++ (after ++ ':' :: text))) := by
  intro rest fuel hfollows hlength
  obtain ⟨s, hread, hskip⟩ := ih rest fuel hfollows (by
    simp only [List.length_append, List.length_cons] at hlength
    omega)
  cases hname with
  | @string raw hraw _ hs =>
    have hkey : readString (raw ++ '"' :: (after ++ ':' :: (text ++ rest))) =
        some (key, after ++ ':' :: (text ++ rest)) := readString_eq_some.mpr ⟨raw, rfl, hraw, hs⟩
    have hcolon : skipSpace (after ++ ':' :: (text ++ rest)) = ':' :: (text ++ rest) := by
      rw [skipSpace_append hafter, skipSpace_cons (by decide)]
    rw [List.append_assoc, List.append_assoc, List.append_assoc, readMembers, skipSpace_append hbefore,
      List.cons_append, List.cons_append, skipSpace_cons (by decide), List.append_assoc]
    simp only [List.singleton_append, hkey, hcolon, hread, hskip]

/-- **What the grammar says is read.** -/
theorem read_complete {part : Part} {text : List Char} (h : Denotes part text) : IsRead part text := by
  induction h with
  | null =>
    intro space rest fuel hspace hlength _
    obtain ⟨fuel, rfl⟩ := exists_fuel hlength
    exact (readValue_scalar hspace rfl (by decide) (by decide) (by decide)).trans
      (congrArg (Option.map _) (stripPrefix_append "null".toList rest))
  | true =>
    intro space rest fuel hspace hlength _
    obtain ⟨fuel, rfl⟩ := exists_fuel hlength
    exact (readValue_scalar hspace rfl (by decide) (by decide) (by decide)).trans
      (congrArg (Option.map _) (stripPrefix_append "true".toList rest))
  | false =>
    intro space rest fuel hspace hlength _
    obtain ⟨fuel, rfl⟩ := exists_fuel hlength
    exact (readValue_scalar hspace rfl (by decide) (by decide) (by decide)).trans
      (congrArg (Option.map _) (stripPrefix_append "false".toList rest))
  | number h => exact isRead_number h
  | @string raw hraw s hs =>
    intro space rest fuel hspace hlength _
    obtain ⟨fuel, rfl⟩ := exists_fuel hlength
    have hread : readString (raw ++ '"' :: rest) = some (s, rest) := readString_eq_some.mpr ⟨raw, rfl, hraw, hs⟩
    rw [readValue, skipSpace_append hspace, List.cons_append, skipSpace_cons (by decide), List.append_assoc]
    simp only [List.singleton_append, hread, Option.map_some]
  | emptyArray h =>
    intro space rest fuel hspace hlength _
    obtain ⟨fuel, rfl⟩ := exists_fuel hlength
    rw [readValue, skipSpace_append hspace, List.cons_append, skipSpace_cons (by decide), List.append_assoc]
    simp only [skipSpace_append h, List.singleton_append, skipSpace_cons (show isSpace ']' = Bool.false by decide)]
  | array h ih =>
    intro space rest fuel hspace hlength _
    obtain ⟨fuel, rfl⟩ := exists_fuel hlength
    obtain ⟨c, s, hskip, hc, -⟩ := skipSpace_head h (']' :: rest)
    have hread := ih rest fuel (by simp only [List.length_cons, List.length_append, List.length_nil] at hlength; omega)
    rw [readValue, skipSpace_append hspace, List.cons_append, skipSpace_cons (by decide), List.append_assoc]
    simp only [List.singleton_append, hskip, hread, Option.map_some]
    split
    · rename_i heq
      cases heq
      exact absurd rfl hc
    · rfl
  | emptyObject h =>
    intro space rest fuel hspace hlength _
    obtain ⟨fuel, rfl⟩ := exists_fuel hlength
    rw [readValue, skipSpace_append hspace, List.cons_append, skipSpace_cons (by decide), List.append_assoc]
    simp only [skipSpace_append h, List.singleton_append, skipSpace_cons (show isSpace '\x7d' = Bool.false by decide)]
  | object h ih =>
    intro space rest fuel hspace hlength _
    obtain ⟨fuel, rfl⟩ := exists_fuel hlength
    obtain ⟨c, s, hskip, -, hc⟩ := skipSpace_head h ('\x7d' :: rest)
    have hread := ih rest fuel (by simp only [List.length_cons, List.length_append, List.length_nil] at hlength; omega)
    rw [readValue, skipSpace_append hspace, List.cons_append, skipSpace_cons (by decide), List.append_assoc]
    simp only [List.singleton_append, hskip, hread, Option.map_some]
    split
    · rename_i heq
      cases heq
      exact absurd rfl hc
    · rfl
  | item hbefore hafter _ ih => exact isRead_item hbefore hafter ih
  | member hbefore hafter hname _ _ ih => exact isRead_member hbefore hafter hname ih
  | lastItem h ih =>
    intro rest fuel hlength
    obtain ⟨fuel, rfl⟩ := exists_fuel hlength
    obtain ⟨s, hread, hskip⟩ := ih (']' :: rest) fuel ⟨_, _, rfl, by decide, by decide⟩ (by omega)
    rw [readItems, hread]
    simp only [hskip]
  | @items v vs text texts h hs ih ihs =>
    intro rest fuel hlength
    obtain ⟨fuel, rfl⟩ := exists_fuel hlength
    simp only [List.length_append, List.length_cons] at hlength
    obtain ⟨s, hread, hskip⟩ := ih (',' :: (texts ++ ']' :: rest)) fuel ⟨_, _, rfl, by decide, by decide⟩ (by omega)
    rw [List.append_assoc, List.cons_append, readItems, hread]
    simp only [hskip, ihs rest fuel (by omega), Option.map_some]
  | lastMember h ih =>
    intro rest fuel hlength
    obtain ⟨fuel, rfl⟩ := exists_fuel hlength
    exact ih ('\x7d' :: rest) fuel ⟨_, _, rfl, by decide, by decide⟩ (by omega)
  | @members m ms text texts h hs ih ihs =>
    intro rest fuel hlength
    obtain ⟨fuel, rfl⟩ := exists_fuel hlength
    simp only [List.length_append, List.length_cons] at hlength
    rw [List.append_assoc, List.cons_append, ih (',' :: (texts ++ '\x7d' :: rest)) fuel
      ⟨_, _, rfl, by decide, by decide⟩ (by omega)]
    simp only [ihs rest fuel (by omega), Option.map_some]

end Json

end Nerve
