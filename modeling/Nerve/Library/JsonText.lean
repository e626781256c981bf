import Nerve.Library.Json
import Mathlib.Data.Char
import Mathlib.Data.List.Lex
import Mathlib.Data.List.Sort

/-!
# JSON in a longer text

What can be said of a value by its place in a text. An object at some place is the same one however
the text goes on (`denotes_object_unique`). An opening brace within the text of a value begins one
of the objects in it, unless it stands in a string that ends at the next quote (`exists_inside`); so
an object whose first name begins with a letter is in every value that reaches beyond its beginning
(`inside_of_overlap`). The ends of lines, which are only space, may be written otherwise
(`denotes_normalizeNewlines`).

`ReadsFirst` is what is asked of a reader of the first value of a text: it finds what the grammar
says, and whether it takes an object does not depend on how the object is written or on what comes
after it. A reader may so refuse some values, those nested too deeply for example.
-/

namespace Nerve.Json

open Text

/-! ### Maps -/

/-- The last of the members of each name. -/
def lastOnes {β : Type} : List (String × β) → List (String × β)
  | [] => []
  | m :: ms => if m.1 ∈ ms.map Prod.fst then lastOnes ms else m :: lastOnes ms

theorem lastOnes_cons {β : Type} (m : String × β) (ms : List (String × β)) :
    lastOnes (m :: ms) = if m.1 ∈ ms.map Prod.fst then lastOnes ms else m :: lastOnes ms := rfl

/-- What a sorted map keeps of the members, in its order. -/
def entries {β : Type} (members : List (String × β)) : List (String × β) :=
  (lastOnes members).insertionSort fun m n => m.1.toList ≤ n.1.toList

theorem lastOnes_eq_self {β : Type} {members : List (String × β)} (h : (members.map Prod.fst).Nodup) :
    lastOnes members = members := by
  induction members with
  | nil => rfl
  | cons m ms ih =>
    obtain ⟨hm, hms⟩ := List.nodup_cons.mp h
    rw [lastOnes_cons, if_neg hm, ih hms]

theorem lastOnes_map {β γ : Type} (f : β → γ) (members : List (String × β)) :
    lastOnes (members.map fun m => (m.1, f m.2)) = (lastOnes members).map fun m => (m.1, f m.2) := by
  induction members with
  | nil => rfl
  | cons m ms ih =>
    have hnames : (ms.map fun m => (m.1, f m.2)).map Prod.fst = ms.map Prod.fst := by simp
    rw [List.map_cons, lastOnes_cons, lastOnes_cons, hnames, ih]
    split_ifs
    · rfl
    · rw [List.map_cons]

/-- What the names stand for has no part in the order. -/
theorem entries_map {β γ : Type} (f : β → γ) (members : List (String × β)) :
    entries (members.map fun m => (m.1, f m.2)) = (entries members).map fun m => (m.1, f m.2) := by
  rw [entries, entries, lastOnes_map]
  exact (List.map_insertionSort (r := fun m n : String × β => m.1.toList ≤ n.1.toList)
    (s := fun m n : String × γ => m.1.toList ≤ n.1.toList) (fun m => (m.1, f m.2)) _ fun _ _ _ _ => Iff.rfl).symm

theorem mem_of_mem_entries {β : Type} {members : List (String × β)} {m : String × β} (h : m ∈ entries members) :
    m ∈ members := by
  rw [entries, List.mem_insertionSort] at h
  induction members with
  | nil => exact h
  | cons n ms ih =>
    rw [lastOnes_cons] at h
    split_ifs at h
    · exact List.mem_cons_of_mem n (ih h)
    · exact (List.mem_cons.mp h).elim (fun heq => heq ▸ List.mem_cons_self) fun h => List.mem_cons_of_mem n (ih h)

/-- Where no name is repeated, nothing is lost. -/
theorem mem_entries {β : Type} {members : List (String × β)} (h : (members.map Prod.fst).Nodup) {m : String × β} :
    m ∈ entries members ↔ m ∈ members := by
  rw [entries, List.mem_insertionSort, lastOnes_eq_self h]

mutual

/-- Some object in the value has two members of one name. -/
def hasDuplicateKeys : Json → Bool
  | array items => itemsHaveDuplicateKeys items
  | object members => !decide (members.map Prod.fst).Nodup || membersHaveDuplicateKeys members
  | _ => false

def itemsHaveDuplicateKeys : List Json → Bool
  | [] => false
  | v :: vs => hasDuplicateKeys v || itemsHaveDuplicateKeys vs

def membersHaveDuplicateKeys : List (String × Json) → Bool
  | [] => false
  | (_, v) :: ms => hasDuplicateKeys v || membersHaveDuplicateKeys ms

end

theorem itemsHaveDuplicateKeys_eq_false {vs : List Json} (h : itemsHaveDuplicateKeys vs = false) :
    ∀ v ∈ vs, hasDuplicateKeys v = false := by
  induction vs with
  | nil => exact List.forall_mem_nil _
  | cons v vs ih =>
    rw [itemsHaveDuplicateKeys, Bool.or_eq_false_iff] at h
    exact List.forall_mem_cons.mpr ⟨h.1, ih h.2⟩

theorem membersHaveDuplicateKeys_eq_false {ms : List (String × Json)} (h : membersHaveDuplicateKeys ms = false) :
    ∀ m ∈ ms, hasDuplicateKeys m.2 = false := by
  induction ms with
  | nil => exact List.forall_mem_nil _
  | cons m ms ih =>
    rw [membersHaveDuplicateKeys, Bool.or_eq_false_iff] at h
    exact List.forall_mem_cons.mpr ⟨h.1, ih h.2⟩

/-- In a value without repeated names there is none with one. -/
theorem hasDuplicateKeys_inside {v w : Json} (hw : Inside w v) (h : hasDuplicateKeys v = false) :
    hasDuplicateKeys w = false := by
  induction hw with
  | self => exact h
  | item hv _ ih => exact ih (itemsHaveDuplicateKeys_eq_false h _ hv)
  | member hm _ ih =>
    rw [hasDuplicateKeys, Bool.or_eq_false_iff] at h
    exact ih (membersHaveDuplicateKeys_eq_false h.2 _ hm)

/-! ### Readers -/

structure ReadsFirst (parse : List Char → Option (Json × List Char)) : Prop where
  sound : ∀ s v rest, parse s = some (v, rest) →
    ∃ space text, Space space ∧ s = space ++ (text ++ rest) ∧ Denotes (.value v) text
  uniform : ∀ members space text text' rest rest', Space space → Denotes (.value (.object members)) text →
    Denotes (.value (.object members)) text' → parse (space ++ (text ++ rest)) = some (.object members, rest) →
      parse (text' ++ rest') = some (.object members, rest')

/-- The reader that takes whatever the grammar has. -/
theorem readsFirst_read : ReadsFirst read where
  sound s v rest h := (read_sound _).1 s v rest h
  uniform members space text text' rest rest' _ _ h' _ := by
    refine read_complete h' [] rest' _ space_nil ?_ ?_
    · rw [List.length_append]
      omega
    · rintro ⟨number, hnumber⟩
      cases hnumber

/-- The members of the object that the text is. -/
def membersOf (s : List Char) : List (String × Json) :=
  match read s with
  | some (.object members, []) => members
  | _ => []

theorem read_membersOf {s : List Char} (h : membersOf s ≠ []) : read s = some (.object (membersOf s), []) := by
  unfold membersOf at h ⊢
  split at h
  · rename_i members hread
    rw [hread]
  · exact absurd rfl h

/-! ### One object at one place -/

/-- A value and what comes after it are determined by the text, if the value is an object. -/
theorem denotes_object_unique {ms : List (String × Json)} {w : Json} {text text' rest rest' : List Char}
    (h : Denotes (.value (.object ms)) text) (h' : Denotes (.value w) text') (heq : text ++ rest = text' ++ rest') :
    w = .object ms ∧ rest' = rest := by
  have hnumber : ¬ ∃ number, w = .number number := by
    rintro ⟨number, rfl⟩
    cases h' with
    | number hnumber =>
      obtain ⟨hchars, hne⟩ := isNumber_cons hnumber
      obtain ⟨c, s, rfl⟩ := List.exists_cons_of_ne_nil hne
      have hc := hchars c List.mem_cons_self
      cases h with
      | emptyObject | object =>
        obtain rfl : '\x7b' = c := (List.cons.inj heq).1
        exact absurd hc (by decide)
  have hread := read_complete h [] rest (2 * (text ++ rest).length + 1) space_nil (by rw [List.length_append]; omega)
    (by rintro ⟨number, hnumber⟩; cases hnumber)
  have hread' := read_complete h' [] rest' (2 * (text ++ rest).length + 1) space_nil (by rw [heq, List.length_append]; omega)
    (fun hw => absurd hw hnumber)
  rw [← heq, hread] at hread'
  cases hread'
  exact ⟨rfl, rfl⟩

theorem ne_nil_of_denotes {v : Json} {text : List Char} (h : Denotes (.value v) text) : text ≠ [] := by
  obtain ⟨c, s, rfl, -⟩ := value_head h
  exact List.cons_ne_nil c s

/-- What begins with a brace is an object. -/
theorem object_of_brace {v : Json} {s : List Char} (h : Denotes (.value v) ('\x7b' :: s)) : ∃ ms, v = .object ms := by
  cases h with
  | emptyObject | object => exact ⟨_, rfl⟩
  | number h => exact absurd ((isNumber_cons h).1 _ List.mem_cons_self) (by decide)

/-! ### Braces -/

/-- The value is in the part. -/
def InPart (w : Json) : Part → Prop
  | .value v | .item v => Inside w v
  | .member m => Inside w m.2
  | .items vs => ∃ v ∈ vs, Inside w v
  | .members ms => ∃ m ∈ ms, Inside w m.2

theorem append_eq_append_cons {a b p t : List Char} {c : Char} (h : a ++ b = p ++ c :: t) :
    (∃ s, a = p ++ c :: s ∧ t = s ++ b) ∨ ∃ q, b = q ++ c :: t ∧ p = a ++ q := by
  rcases List.append_eq_append_iff.mp h with ⟨q, rfl, rfl⟩ | ⟨s, rfl, hs⟩
  · exact Or.inr ⟨q, rfl, rfl⟩
  · cases s with
    | nil => exact Or.inr ⟨[], hs.symm, by simp⟩
    | cons d s =>
      cases hs
      exact Or.inl ⟨s, rfl, rfl⟩

/-- No brace is a part of an escape. -/
theorem content_of_brace {p s : List Char} (h : Content (p ++ '\x7b' :: s)) : Content s := by
  generalize hwhole : p ++ '\x7b' :: s = whole at h
  induction h generalizing p with
  | nil => simp at hwhole
  | @escape c hc whole h ih =>
    rcases p with _ | ⟨d, _ | ⟨e, p⟩⟩
    · cases hwhole
    · cases hwhole
      exact absurd hc (by decide)
    · cases hwhole
      exact ih rfl
  | @plain c hc whole h ih =>
    rcases p with _ | ⟨d, p⟩
    · cases hwhole
      exact h
    · cases hwhole
      exact ih rfl

/-- A quote is the end of the string, with nothing but space before it. -/
theorem eq_of_content {s space rest tail : List Char} (hs : Content s) (hspace : Space space)
    (heq : s ++ '"' :: rest = space ++ '"' :: tail) : rest = tail := by
  induction space generalizing s with
  | nil =>
    cases s with
    | nil => exact List.tail_eq_of_cons_eq heq
    | cons c s =>
      obtain rfl : c = '"' := (List.cons.inj heq).1
      cases hs with
      | plain hc => exact absurd hc (by decide)
  | cons d space ih =>
    obtain ⟨hd, hspace'⟩ := List.forall_mem_cons.mp hspace
    cases s with
    | nil =>
      obtain rfl : '"' = d := (List.cons.inj heq).1
      exact absurd hd (by decide)
    | cons c s =>
      obtain ⟨rfl, htail⟩ := List.cons.inj heq
      cases hs with
      | escape => exact absurd hd (by decide)
      | plain _ hs => exact ih hs hspace' htail

/-- What follows a value neither in an array nor in an object. -/
def Foreign (k : Char) : Prop := isSpace k = false ∧ k ≠ ',' ∧ k ≠ ':' ∧ k ≠ ']' ∧ k ≠ '\x7d'

/-- Space before it does not count. -/
theorem Foreign.head_of_space {k : Char} (hk : Foreign k) {space s : List Char} (hspace : Space space)
    (h : (space ++ s).head? = some k) : s.head? = some k := by
  rcases space with _ | ⟨c, space⟩
  · exact h
  · obtain rfl : c = k := Option.some.inj h
    exact absurd (hspace c List.mem_cons_self) (Bool.not_eq_true _ ▸ hk.1)

theorem not_brace_of_space {space : List Char} (h : Space space) : '\x7b' ∉ space := fun hmem =>
  absurd (h _ hmem) (by decide)

/-- A value with the property begins here. -/
def BeginsWith (P : Json → Prop) (text : List Char) : Prop :=
  ∃ w text' rest', P w ∧ Denotes (.value w) text' ∧ text = text' ++ rest'

theorem BeginsWith.mono {P Q : Json → Prop} {text : List Char} (h : BeginsWith P text) (hPQ : ∀ w, P w → Q w) :
    BeginsWith Q text := by
  obtain ⟨w, text', rest', hw, h⟩ := h
  exact ⟨w, text', rest', hPQ w hw, h⟩

section Brace

variable {space tail : List Char} {k : Char}

/-- A brace in the text of an object is its own, or among its members. -/
theorem exists_inside_of_members {ms : List (String × Json)} {inner : List Char} (h : Denotes (.members ms) inner)
    (hk : Foreign k)
    (hmembers : ∀ {p s rest : List Char}, inner = p ++ '\x7b' :: s → s ++ rest = space ++ '"' :: k :: tail →
      BeginsWith (InPart · (.members ms)) ('\x7b' :: (s ++ rest)) ∨ rest.head? = some k)
    {p s rest : List Char} (htext : '\x7b' :: (inner ++ ['\x7d']) = p ++ '\x7b' :: s)
    (hs : s ++ rest = space ++ '"' :: k :: tail) : BeginsWith (Inside · (.object ms)) ('\x7b' :: (s ++ rest)) := by
  rcases p with _ | ⟨d, p⟩
  · obtain rfl := (List.cons.inj htext).2
    exact ⟨_, _, rest, .self, .object h, rfl⟩
  · rcases append_eq_append_cons (List.cons.inj htext).2 with ⟨s', rfl, rfl⟩ | ⟨q, hq, -⟩
    · rw [List.append_assoc, List.singleton_append] at hs ⊢
      rcases hmembers rfl hs with ⟨w, text', rest', ⟨m, hm, hw⟩, hdenotes, heq⟩ | hhead
      · exact ⟨w, text', rest', .member hm hw, hdenotes, heq⟩
      · exact absurd (Option.some.inj hhead).symm hk.2.2.2.2
    · rcases q with _ | ⟨d, _ | ⟨e, q⟩⟩ <;> cases hq

/-- A brace in a list is in its first part, which ends before a comma, or behind it. -/
theorem begins_of_cons {P Q : Json → Prop} {inner texts : List Char} (hk : Foreign k)
    (hfirst : ∀ {p s rest : List Char}, inner = p ++ '\x7b' :: s → s ++ rest = space ++ '"' :: k :: tail →
      BeginsWith P ('\x7b' :: (s ++ rest)) ∨ rest.head? = some k)
    (hrest : ∀ {p s rest : List Char}, texts = p ++ '\x7b' :: s → s ++ rest = space ++ '"' :: k :: tail →
      BeginsWith Q ('\x7b' :: (s ++ rest)) ∨ rest.head? = some k)
    {p s rest : List Char} (htext : inner ++ ',' :: texts = p ++ '\x7b' :: s)
    (hs : s ++ rest = space ++ '"' :: k :: tail) :
    BeginsWith (fun w => P w ∨ Q w) ('\x7b' :: (s ++ rest)) ∨ rest.head? = some k := by
  rcases append_eq_append_cons htext with ⟨s', rfl, rfl⟩ | ⟨q, hq, -⟩
  · rw [List.append_assoc] at hs ⊢
    rcases hfirst rfl hs with hbegins | hhead
    · exact Or.inl (hbegins.mono fun _ => Or.inl)
    · exact absurd (Option.some.inj hhead).symm hk.2.1
  · rcases q with _ | ⟨d, q⟩
    · cases hq
    · exact (hrest (List.cons.inj hq).2 hs).imp_left (BeginsWith.mono · fun _ => Or.inr)

/-- **A brace in the text of a part begins an object in it**, if the next thing behind it is a quote
before a foreign character, or it is in a string and that character comes after the part. -/
theorem exists_inside {part : Part} {text : List Char} (h : Denotes part text) (hspace : Space space) (hk : Foreign k)
    {p s rest : List Char} (htext : text = p ++ '\x7b' :: s) (hs : s ++ rest = space ++ '"' :: k :: tail) :
    BeginsWith (InPart · part) ('\x7b' :: (s ++ rest)) ∨ rest.head? = some k := by
  have hnot {text : List Char} (hbrace : '\x7b' ∉ text) {p s : List Char} : text ≠ p ++ '\x7b' :: s := by
    rintro rfl
    exact hbrace (by simp)
  induction h generalizing p s rest with
  | null => exact absurd htext (hnot (by decide))
  | true => exact absurd htext (hnot (by decide))
  | false => exact absurd htext (hnot (by decide))
  | number h =>
    refine absurd htext (hnot fun hmem => ?_)
    exact absurd ((isNumber_cons h).1 _ hmem) (by decide)
  | @string raw hraw str hstr =>
    right
    rcases p with _ | ⟨d, p⟩
    · cases htext
    · rcases append_eq_append_cons (List.cons.inj htext).2 with ⟨s', rfl, rfl⟩ | ⟨q, hq, -⟩
      · rw [List.append_assoc, List.singleton_append] at hs
        rw [eq_of_content (content_of_brace hraw) hspace hs, List.head?_cons]
      · rcases q with _ | ⟨d, _ | ⟨e, q⟩⟩ <;> cases hq
  | emptyArray h =>
    refine absurd htext (hnot ?_)
    simp [not_brace_of_space h]
  | @emptyObject inner h =>
    left
    rcases p with _ | ⟨d, p⟩
    · obtain rfl := (List.cons.inj htext).2
      exact ⟨_, _, rest, .self, .emptyObject h, rfl⟩
    · refine absurd (List.cons.inj htext).2 (hnot ?_)
      simp [not_brace_of_space h]
  | @array vs inner h ih =>
    left
    rcases p with _ | ⟨d, p⟩
    · cases htext
    · rcases append_eq_append_cons (List.cons.inj htext).2 with ⟨s', rfl, rfl⟩ | ⟨q, hq, -⟩
      · rw [List.append_assoc, List.singleton_append] at hs ⊢
        rcases ih rfl hs with ⟨w, text', rest', ⟨v, hv, hw⟩, hdenotes, heq⟩ | hhead
        · exact ⟨w, text', rest', .item hv hw, hdenotes, heq⟩
        · exact absurd (Option.some.inj hhead).symm hk.2.2.2.1
      · rcases q with _ | ⟨d, _ | ⟨e, q⟩⟩ <;> cases hq
  | @object ms inner h ih => exact Or.inl (exists_inside_of_members h hk ih htext hs)
  | @item before after hbefore hafter v inner h ih =>
    rcases append_eq_append_cons htext with ⟨s', rfl, -⟩ | ⟨q, hq, -⟩
    · exact absurd rfl (hnot (not_brace_of_space hbefore))
    rcases append_eq_append_cons hq with ⟨s', rfl, rfl⟩ | ⟨q', rfl, -⟩
    · rw [List.append_assoc] at hs ⊢
      exact (ih rfl hs).imp_right (hk.head_of_space hafter)
    · exact absurd rfl (hnot (not_brace_of_space hafter))
  | @member before after hbefore hafter key v name inner hname h ihname ih =>
    rcases append_eq_append_cons htext with ⟨s', rfl, -⟩ | ⟨q, hq, -⟩
    · exact absurd rfl (hnot (not_brace_of_space hbefore))
    rcases append_eq_append_cons hq with ⟨s', rfl, rfl⟩ | ⟨q', hq', -⟩
    · -- The brace is in the name, which is a string.
      rw [List.append_assoc] at hs
      rcases ihname rfl hs with ⟨w, text', rest', hw, hdenotes, heq⟩ | hhead
      · cases hw
        cases hdenotes
        cases (List.cons.inj heq).1
      · rw [List.append_assoc] at hhead
        exact absurd (Option.some.inj (hk.head_of_space hafter hhead)).symm hk.2.2.1
    rcases append_eq_append_cons hq' with ⟨s', rfl, -⟩ | ⟨q, hq, -⟩
    · exact absurd rfl (hnot (not_brace_of_space hafter))
    rcases q with _ | ⟨d, q⟩
    · cases hq
    · exact ih (List.cons.inj hq).2 hs
  | lastItem h ih => exact (ih htext hs).imp_left (BeginsWith.mono · fun _ hw => ⟨_, List.mem_cons_self, hw⟩)
  | items h hrest ih ihs =>
    exact (begins_of_cons hk ih ihs htext hs).imp_left (BeginsWith.mono · fun _ => by simp [InPart])
  | lastMember h ih => exact (ih htext hs).imp_left (BeginsWith.mono · fun _ hw => ⟨_, List.mem_cons_self, hw⟩)
  | members h hrest ih ihs =>
    exact (begins_of_cons hk ih ihs htext hs).imp_left (BeginsWith.mono · fun _ => by simp [InPart])

/-- After an object comes nothing of it, so the brace is in no string that ends with it. -/
theorem exists_inside_object {ms : List (String × Json)} {text : List Char} (h : Denotes (.value (.object ms)) text)
    (hspace : Space space) (hk : Foreign k) {p s rest : List Char} (htext : text = p ++ '\x7b' :: s)
    (hs : s ++ rest = space ++ '"' :: k :: tail) : BeginsWith (Inside · (.object ms)) ('\x7b' :: (s ++ rest)) := by
  cases h with
  | @emptyObject inner h =>
    rcases p with _ | ⟨d, p⟩
    · obtain rfl := (List.cons.inj htext).2
      exact ⟨_, _, rest, .self, .emptyObject h, rfl⟩
    · have hmem : '\x7b' ∈ inner ++ ['\x7d'] := by
        rw [(List.cons.inj htext).2]
        simp
      simp [not_brace_of_space h] at hmem
  | object h => exact exists_inside_of_members h hk (exists_inside h hspace hk) htext hs

end Brace

/-! ### An object in a longer text -/

/-- The name of the first member begins with a letter. -/
def LeadsWithLetter (ms : List (String × Json)) : Prop :=
  ∃ key v rest c, ms = (key, v) :: rest ∧ key.toList.head? = some c ∧ c.isAlpha = true

theorem leadsWithLetter_iff {ms : List (String × Json)} :
    LeadsWithLetter ms ↔ (ms.head?.bind fun m => m.1.toList.head?).any Char.isAlpha = true := by
  rcases ms with _ | ⟨⟨key, v⟩, rest⟩
  · simp [LeadsWithLetter]
  · simp [LeadsWithLetter, Option.any_eq_true]

theorem foreign_of_isAlpha {c : Char} (h : c.isAlpha = true) : Foreign c := by
  have hne (d : Char) (hd : d.isAlpha = false) : c ≠ d := by
    rintro rfl
    rw [h] at hd
    cases hd
  refine ⟨?_, hne ',' (by decide), hne ':' (by decide), hne ']' (by decide), hne '\x7d' (by decide)⟩
  simp [isSpace, hne ' ' (by decide), hne '\t' (by decide), hne '\n' (by decide), hne '\r' (by decide)]

/-- Between the quotes the name begins with its letter, or with an escape. -/
theorem foreign_of_unescape {raw : List Char} {key : String} (hraw : Content raw) (hkey : unescape raw = some key)
    {c : Char} (hc : key.toList.head? = some c) (halpha : c.isAlpha = true) : ∃ k s, raw = k :: s ∧ Foreign k := by
  cases hraw with
  | nil =>
    obtain rfl : "" = key := by simpa [unescape, units, joinUnits] using hkey
    cases hc
  | @escape d hd s h => exact ⟨'\\', d :: s, rfl, by unfold Foreign; decide⟩
  | @plain d hd s h =>
    refine ⟨d, s, rfl, ?_⟩
    have hslash : d ≠ '\\' := by
      rintro rfl
      exact absurd hd (by decide)
    have hunits : units (d :: s) = (units s).map (.char d :: ·) := by
      rw [units]
      · rintro a b c e t rfl
        exact absurd rfl hslash
      · rintro c t rfl
        exact absurd rfl hslash
    rw [unescape, hunits] at hkey
    obtain ⟨chars, hchars, rfl⟩ := Option.map_eq_some_iff.mp hkey
    obtain ⟨us, hus, hchars⟩ := Option.bind_eq_some_iff.mp hchars
    obtain ⟨vs, -, rfl⟩ := Option.map_eq_some_iff.mp hus
    obtain ⟨t, -, rfl⟩ := Option.map_eq_some_iff.mp hchars
    rw [String.toList_ofList, List.head?_cons] at hc
    cases hc
    exact foreign_of_isAlpha halpha

/-- Such an object opens with a brace, space and a quote. -/
theorem object_opens {ms : List (String × Json)} {obj : List Char} (h : Denotes (.value (.object ms)) obj)
    (hms : LeadsWithLetter ms) :
    ∃ space k tail, obj = '\x7b' :: (space ++ '"' :: k :: tail) ∧ Space space ∧ Foreign k := by
  obtain ⟨key, v, rest, c, rfl, hc, halpha⟩ := hms
  have hmember {text : List Char} (h : Denotes (.member (key, v)) text) :
      ∃ space k tail, text = space ++ '"' :: k :: tail ∧ Space space ∧ Foreign k := by
    cases h with
    | member hbefore hafter hname h =>
      cases hname with
      | string hraw hkey =>
        obtain ⟨k, s, rfl, hk⟩ := foreign_of_unescape hraw hkey hc halpha
        exact ⟨_, k, _, rfl, hbefore, hk⟩
  cases h with
  | object h =>
    cases h with
    | lastMember h =>
      obtain ⟨space, k, tail, rfl, hspace, hk⟩ := hmember h
      exact ⟨space, k, tail ++ ['\x7d'], by simp, hspace, hk⟩
    | members h hs =>
      obtain ⟨space, k, tail, rfl, hspace, hk⟩ := hmember h
      exact ⟨space, k, _, by simp; rfl, hspace, hk⟩

/-- **An object in a longer text is in the value that goes beyond its beginning.** -/
theorem inside_of_overlap {ms vs : List (String × Json)} {obj text p rest tail : List Char}
    (hobj : Denotes (.value (.object ms)) obj) (hms : LeadsWithLetter ms)
    (h : Denotes (.value (.object vs)) text) (heq : text ++ rest = p ++ (obj ++ tail)) (hlength : p.length < text.length) :
    Inside (.object ms) (.object vs) := by
  obtain ⟨space, k, o, hopens, hspace, hk⟩ := object_opens hobj hms
  rw [hopens, List.cons_append] at heq
  rcases append_eq_append_cons heq with ⟨s, rfl, htail⟩ | ⟨q, -, rfl⟩
  · rw [List.append_assoc, List.cons_append, List.cons_append] at htail
    obtain ⟨w, text', rest', hw, hdenotes, hsame⟩ := exists_inside_object h hspace hk rfl htail.symm
    have hwhole : obj ++ tail = text' ++ rest' := by
      rw [hopens, ← hsame, ← htail]
      simp
    obtain ⟨rfl, -⟩ := denotes_object_unique hobj hdenotes hwhole
    exact hw
  · rw [List.length_append] at hlength
    omega

/-! ### Ends of lines -/

theorem space_normalizeNewlines {space : List Char} (h : Space space) : Space (normalizeNewlines space) := by
  induction space using endsOfLines_induction with
  | nil => exact h
  | crlf s ih =>
    rw [normalizeNewlines_crlf]
    exact List.forall_mem_cons.mpr ⟨by decide, ih fun c hc => h c (by simp [hc])⟩
  | single c s hc ih =>
    rw [normalizeNewlines_single hc, normalizeNewline]
    refine List.forall_mem_cons.mpr ⟨?_, ih fun c hc => h c (by simp [hc])⟩
    split_ifs
    · decide
    · exact h c List.mem_cons_self

theorem content_no_return {s : List Char} (h : Content s) : '\r' ∉ s := by
  induction h with
  | nil => exact List.not_mem_nil
  | @escape c hc s h ih =>
    rw [List.mem_cons, List.mem_cons, not_or, not_or]
    refine ⟨by decide, ?_, ih⟩
    rintro rfl
    exact absurd hc (by decide)
  | @plain c hc s h ih =>
    rw [List.mem_cons, not_or]
    refine ⟨?_, ih⟩
    rintro rfl
    exact absurd hc (by decide)

/-- No value begins or ends with the end of a line. -/
theorem value_ends {v : Json} {text : List Char} (h : Denotes (.value v) text) :
    text.head? ≠ some '\n' ∧ text.getLast? ≠ some '\r' := by
  cases h with
  | null | true | false => decide
  | number h =>
    obtain ⟨hchars, -⟩ := isNumber_cons h
    constructor
    · intro hhead
      exact absurd (hchars _ (List.mem_of_head? hhead)) (by decide)
    · intro hlast
      exact absurd (hchars _ (List.mem_of_getLast? hlast)) (by decide)
  | string | emptyArray | array | emptyObject | object => simp [List.getLast?_cons]

/-- **The ends of lines may be written otherwise**: in the text of a value they are only space. -/
theorem denotes_normalizeNewlines {part : Part} {text : List Char} (h : Denotes part text) :
    Denotes part (normalizeNewlines text) := by
  have hclose {open_ close : Char} (hopen : open_ ≠ '\r') (hclose : close ≠ '\n' ∧ close ≠ '\r') (text : List Char) :
      normalizeNewlines (open_ :: (text ++ [close])) = open_ :: (normalizeNewlines text ++ [close]) := by
    rw [normalizeNewlines_cons hopen, normalizeNewlines_append fun _ => by simpa using hclose.1,
      normalizeNewlines_cons hclose.2]
    rfl
  have hmark {mark : Char} (hmark : mark ≠ '\n' ∧ mark ≠ '\r') (text rest : List Char) :
      normalizeNewlines (text ++ mark :: rest) = normalizeNewlines text ++ mark :: normalizeNewlines rest := by
    rw [normalizeNewlines_append fun _ => by simpa using hmark.1, normalizeNewlines_cons hmark.2]
  have hvalue {v : Json} {text : List Char} (h : Denotes (.value v) text) (before after : List Char) :
      normalizeNewlines (before ++ (text ++ after)) =
        normalizeNewlines before ++ (normalizeNewlines text ++ normalizeNewlines after) := by
    obtain ⟨hhead, hlast⟩ := value_ends h
    obtain ⟨c, s, rfl, -⟩ := value_head h
    have hbefore : ((c :: s) ++ after).head? ≠ some '\n' := hhead
    rw [normalizeNewlines_append fun _ => hbefore, normalizeNewlines_append fun hreturn => absurd hreturn hlast]
  induction h with
  | null =>
    rw [normalizeNewlines_eq_self (by decide)]
    exact .null
  | true =>
    rw [normalizeNewlines_eq_self (by decide)]
    exact .true
  | false =>
    rw [normalizeNewlines_eq_self (by decide)]
    exact .false
  | number h =>
    rw [normalizeNewlines_eq_self fun hmem => absurd ((isNumber_cons h).1 _ hmem) (by decide)]
    exact .number h
  | string hraw hs =>
    rw [hclose (by decide) (by decide), normalizeNewlines_eq_self (content_no_return hraw)]
    exact .string hraw hs
  | emptyArray h =>
    rw [hclose (by decide) (by decide)]
    exact .emptyArray (space_normalizeNewlines h)
  | array h ih =>
    rw [hclose (by decide) (by decide)]
    exact .array ih
  | emptyObject h =>
    rw [hclose (by decide) (by decide)]
    exact .emptyObject (space_normalizeNewlines h)
  | object h ih =>
    rw [hclose (by decide) (by decide)]
    exact .object ih
  | @item before after hbefore hafter v text h ih =>
    rw [hvalue h]
    exact .item (space_normalizeNewlines hbefore) (space_normalizeNewlines hafter) ih
  | @member before after hbefore hafter key v name text hname h ihname ih =>
    rw [hvalue hname, hmark (by decide)]
    exact .member (space_normalizeNewlines hbefore) (space_normalizeNewlines hafter) ihname ih
  | lastItem h ih => exact .lastItem ih
  | items h hs ih ihs =>
    rw [hmark (by decide)]
    exact .items ih ihs
  | lastMember h ih => exact .lastMember ih
  | members h hs ih ihs =>
    rw [hmark (by decide)]
    exact .members ih ihs

end Nerve.Json
