import Mathlib.Order.Bounds.Basic
import Nerve.Review.Rejection

/-!
# Which verdict a review gets

What `feedback_from_text` does, said of the text as it is written, with any ends of lines. The free
text has a least verdict, the floor (`Floor`): by the words of rejection that stand by themselves
anywhere in it (`StandsAlone`), else by a word of acceptance that leads its first line (`Leads`),
else it asks for changes. The verdict is the greatest of the floor and the verdicts of the objects
that count (`Counts`), in the order from acceptance to rejection.

That the scan for words, the choice of the first line and the normalized ends of lines come to this
is shown apart (`containsVerdictWord_iff`, `leads_iff`, `standsAlone_normalizeNewlines`).
-/

namespace Nerve.Review

open Nerve Nerve.Run Text Json

/-! ### The floor -/

/-- A character that joins a word. -/
def Joins (c : Char) : Prop := c.isAlpha = true ∨ c.isDigit = true ∨ c = '_'

/-- The word is somewhere in the text, and no neighbour joins it. -/
def StandsAlone (word : String) (text : List Char) : Prop :=
  ∃ before after, text = before ++ (word.toList ++ after) ∧ (∀ c ∈ before.getLast?, ¬ Joins c) ∧
    ∀ c ∈ after.head?, ¬ Joins c

/-- Some word of rejection stands by itself. -/
def Rejects (text : List Char) : Prop :=
  StandsAlone "BLOCK" text ∨ StandsAlone "REQUEST_CHANGES" text ∨ StandsAlone "REQUEST CHANGES" text

/-- What may follow a word of acceptance, besides the end of the line. -/
def Terminates (c : Char) : Prop := isWhitespace c = true ∨ c ∈ ['.', ',', ':', ';', '!']

/-- The first line that is not blank begins with the word, apart from what follows. -/
def Leads (word : String) (text : List Char) : Prop :=
  ∃ line rest, (lines text).find? (fun line => !(trim line).isEmpty) = some line ∧
    trimStart line = word.toList ++ rest ∧ ∀ c ∈ rest.head?, Terminates c

def acceptTokens : List (String × Verdict) :=
  [("ACCEPT_WITH_NITS", .acceptWithNits), ("ACCEPT WITH NITS", .acceptWithNits), ("LGTM", .lgtm)]

/-- The verdict of the text by its words. -/
inductive Floor (text : List Char) : Verdict → Prop
  | block (h : StandsAlone "BLOCK" text) : Floor text .block
  | requestChanges (hblock : ¬ StandsAlone "BLOCK" text)
    (h : StandsAlone "REQUEST_CHANGES" text ∨ StandsAlone "REQUEST CHANGES" text) : Floor text .requestChanges
  | accept (hnone : ¬ Rejects text) {token : String × Verdict} (htoken : token ∈ acceptTokens)
    (h : Leads token.1 text) : Floor text token.2
  | silent (hnone : ¬ Rejects text) (h : ∀ token ∈ acceptTokens, ¬ Leads token.1 text) : Floor text .requestChanges

/-! ### Words -/

theorem joins_iff {c : Char} : Joins c ↔ (c.isAlphanum || c == '_') = true := by
  simp [Joins, Char.isAlphanum, or_assoc]

theorem isBoundary_iff {c : Option Char} : isBoundary c = true ↔ ∀ d ∈ c, ¬ Joins d := by
  cases c with
  | none => simp [isBoundary]
  | some c => simp [isBoundary, joins_iff]

/-- The scan finds the word wherever it stands. -/
theorem containsVerdictWordAfter_iff {word : List Char} (hword : word ≠ []) {previous : Option Char} {text : List Char} :
    containsVerdictWordAfter word previous text = true ↔
      ∃ before after, text = before ++ (word ++ after) ∧ isBoundary (before.getLast?.or previous) = true ∧
        isBoundary after.head? = true := by
  induction text generalizing previous with
  | nil =>
    refine iff_of_false (by simp [containsVerdictWordAfter]) ?_
    rintro ⟨before, after, h, -⟩
    exact hword (List.append_eq_nil_iff.mp (List.append_eq_nil_iff.mp h.symm).2).1
  | cons c s ih =>
    rw [containsVerdictWordAfter, Bool.or_eq_true, Bool.and_eq_true, Bool.and_eq_true, ih]
    constructor
    · rintro (⟨⟨hstart, hbefore⟩, hafter⟩ | ⟨before, after, rfl, hbefore, hafter⟩)
      · obtain ⟨after, hslice⟩ := List.isPrefixOf_iff_prefix.mp hstart
        rw [← hslice, List.drop_left] at hafter
        exact ⟨[], after, by rw [List.nil_append, hslice], hbefore, hafter⟩
      · refine ⟨c :: before, after, rfl, ?_, hafter⟩
        rcases before with _ | ⟨d, before⟩
        · exact hbefore
        · simpa [List.getLast?_cons] using hbefore
    · rintro ⟨before, after, h, hbefore, hafter⟩
      rcases before with _ | ⟨d, before⟩
      · left
        rw [List.nil_append] at h
        refine ⟨⟨?_, hbefore⟩, ?_⟩
        · rw [h]
          exact List.isPrefixOf_iff_prefix.mpr (List.prefix_append _ _)
        · rwa [h, List.drop_left]
      · right
        obtain ⟨rfl, htail⟩ := List.cons.inj h
        refine ⟨before, after, htail, ?_, hafter⟩
        rcases before with _ | ⟨e, before⟩
        · exact hbefore
        · simpa [List.getLast?_cons] using hbefore

theorem containsVerdictWord_iff {word : String} (hword : word.toList ≠ []) {text : List Char} :
    containsVerdictWord text word = true ↔ StandsAlone word text := by
  rw [containsVerdictWord, containsVerdictWordAfter_iff hword, StandsAlone]
  simp only [isBoundary_iff, Option.or_none]

/-! ### The first line -/

/-- A line without its end. -/
def withoutEnd (line : List Char) : List Char :=
  match stripPrefix ['\n'] line.reverse with
  | none => line
  | some line => ((stripPrefix ['\r'] line).getD line).reverse

theorem lines_eq (text : List Char) : lines text = (splitInclusive '\n' text).map withoutEnd := rfl

theorem withoutEnd_line (l : List Char) :
    ∃ lineEnd, (lineEnd = ['\n'] ∨ lineEnd = ['\r', '\n']) ∧ l ++ ['\n'] = withoutEnd (l ++ ['\n']) ++ lineEnd := by
  have hnewline : stripPrefix ['\n'] (l ++ ['\n']).reverse = some l.reverse := by
    rw [List.reverse_append]
    exact stripPrefix_append ['\n'] l.reverse
  rw [withoutEnd, hnewline]
  rcases hreturn : stripPrefix ['\r'] l.reverse with _ | shorter
  · exact ⟨['\n'], Or.inl rfl, by simp [hreturn]⟩
  · refine ⟨['\r', '\n'], Or.inr rfl, ?_⟩
    have hl := congrArg List.reverse (eq_append_of_stripPrefix hreturn)
    rw [List.reverse_reverse] at hl
    simp only [hreturn, Option.getD_some]
    rw [hl]
    simp

theorem withoutEnd_of_open {l : List Char} (hl : '\n' ∉ l) : withoutEnd l = l := by
  rw [withoutEnd, stripPrefix_eq_none (List.cons_ne_nil _ _)]
  rw [List.head?_reverse, List.head?_cons]
  intro hlast
  exact hl (List.mem_of_getLast? hlast)

theorem lines_of_line {l : List Char} (hl : '\n' ∉ l) (rest : List Char) :
    lines (l ++ '\n' :: rest) = withoutEnd (l ++ ['\n']) :: lines rest := by
  rw [lines_eq, lines_eq, splitInclusive_line hl, List.map_cons]

theorem lines_of_open {l : List Char} (hl : '\n' ∉ l) (hne : l ≠ []) : lines l = [l] := by
  have hsplit : splitInclusive '\n' l = [l] := by
    induction l with
    | nil => exact absurd rfl hne
    | cons c l ih =>
      rw [List.mem_cons, not_or] at hl
      rw [splitInclusive, if_neg (Ne.symm hl.1)]
      rcases l with _ | ⟨d, l⟩
      · rfl
      · rw [ih hl.2 (List.cons_ne_nil _ _)]
  rw [lines_eq, hsplit, List.map_singleton, withoutEnd_of_open hl]

/-- A text is its first line and some tail. -/
theorem exists_first_line {text : List Char} (h : text ≠ []) : ∃ line ∈ lines text, ∃ tail, text = line ++ tail := by
  by_cases hnewline : '\n' ∈ text
  · obtain ⟨l, rest, rfl, hl⟩ := List.eq_append_cons_of_mem hnewline
    obtain ⟨lineEnd, -, hline⟩ := withoutEnd_line l
    refine ⟨withoutEnd (l ++ ['\n']), by rw [lines_of_line hl]; exact List.mem_cons_self, lineEnd ++ rest, ?_⟩
    rw [← List.append_assoc, ← hline, List.append_assoc, List.singleton_append]
  · exact ⟨text, by rw [lines_of_open hnewline h]; exact List.mem_singleton_self _, [], (List.append_nil _).symm⟩

/-- The text goes on behind its first line with the line's end. -/
theorem find_line (text : List Char) :
    ((lines text).find? (fun line => !(trim line).isEmpty) = none ∧ trimStart text = []) ∨
      ∃ line tail, (lines text).find? (fun line => !(trim line).isEmpty) = some line ∧ trimStart line ≠ [] ∧
        trimStart text = trimStart line ++ tail ∧ ∀ c ∈ tail.head?, c = '\n' ∨ c = '\r' := by
  induction hlength : text.length using Nat.strong_induction_on generalizing text with
  | _ n ih =>
    by_cases hnewline : '\n' ∈ text
    · obtain ⟨l, rest, rfl, hl⟩ := List.eq_append_cons_of_mem hnewline
      obtain ⟨lineEnd, hend, hline⟩ := withoutEnd_line l
      have htext : l ++ '\n' :: rest = withoutEnd (l ++ ['\n']) ++ (lineEnd ++ rest) := by
        rw [← List.append_assoc, ← hline, List.append_assoc, List.singleton_append]
      rw [lines_of_line hl, List.find?_cons]
      rcases hblank : (trim (withoutEnd (l ++ ['\n']))).isEmpty with _ | _
      · right
        have hne := trimStart_ne_nil_of_trim (List.isEmpty_eq_false_iff.mp hblank)
        refine ⟨_, lineEnd ++ rest, rfl, hne, by rw [htext, trimStart_append_of_ne_nil hne], ?_⟩
        rcases hend with rfl | rfl <;> simp
      · have hspace : trimStart (l ++ '\n' :: rest) = trimStart rest := by
          rw [htext, trimStart_append_of_blank (blank_of_trim (List.isEmpty_iff.mp hblank)), trimStart_append_of_blank]
          rcases hend with rfl | rfl <;> exact List.all_eq_true.mp (by decide)
        rw [hspace]
        refine ih rest.length ?_ rest rfl
        rw [← hlength, List.length_append, List.length_cons]
        omega
    · by_cases hne : text = []
      · subst hne
        exact Or.inl ⟨rfl, rfl⟩
      rw [lines_of_open hnewline hne, List.find?_singleton]
      rcases hblank : (trim text).isEmpty with _ | _
      · right
        have hne := trimStart_ne_nil_of_trim (List.isEmpty_eq_false_iff.mp hblank)
        exact ⟨text, [], rfl, hne, (List.append_nil _).symm, by simp⟩
      · left
        have hall := blank_of_trim (List.isEmpty_iff.mp hblank)
        refine ⟨rfl, ?_⟩
        rw [← List.append_nil text, trimStart_append_of_blank hall]
        rfl

/-- The word leads the first line where it begins the text, space aside. -/
theorem leads_iff {word : String} (hword : '\n' ∉ word.toList ∧ '\r' ∉ word.toList ∧ word.toList ≠ []) {text : List Char} :
    Leads word text ↔ ∃ rest, trimStart text = word.toList ++ rest ∧ ∀ c ∈ rest.head?, Terminates c := by
  constructor
  · rintro ⟨line, rest, hline, hrest, hterminates⟩
    obtain ⟨hnone, -⟩ | ⟨first, tail, hfirst, -, htrim, htail⟩ := find_line text
    · cases hnone.symm.trans hline
    obtain rfl := Option.some.inj (hfirst.symm.trans hline)
    refine ⟨rest ++ tail, by rw [htrim, hrest, List.append_assoc], ?_⟩
    rcases rest with _ | ⟨d, rest⟩
    · intro c hc
      rcases htail c hc with rfl | rfl <;> exact Or.inl rfl
    · exact hterminates
  · rintro ⟨rest, htext, hterminates⟩
    obtain ⟨-, hnil⟩ | ⟨line, tail, hline, -, htrim, htail⟩ := find_line text
    · rw [hnil] at htext
      exact absurd (List.append_eq_nil_iff.mp htext.symm).1 hword.2.2
    rw [htext] at htrim
    rcases List.append_eq_append_iff.mp htrim with ⟨more, hmore, rfl⟩ | ⟨more, hmore, rfl⟩
    · refine ⟨line, more, hline, hmore, ?_⟩
      rcases more with _ | ⟨d, more⟩
      · simp
      · exact hterminates
    · rcases more with _ | ⟨d, more⟩
      · rw [List.append_nil] at hmore
        exact ⟨line, [], hline, by rw [List.append_nil, hmore], by simp⟩
      · -- The end of the line would be in the word.
        have hd : d ∈ word.toList := by
          rw [hmore]
          simp
        rcases htail d rfl with rfl | rfl
        · exact absurd hd hword.1
        · exact absurd hd hword.2.1

theorem isAcceptTerminator_iff {c : Char} : isAcceptTerminator c = true ↔ Terminates c := by
  simp [isAcceptTerminator, Terminates, or_assoc]

theorem join_orElse_eq_some {α : Type} {a b : Option (Option α)} {v : α} (h : (a <|> b).join = some v) :
    a = some (some v) ∨ b.join = some v := by
  rcases a with _ | a
  · exact Or.inr h
  · exact Or.inl (congrArg some h)

/-- The words of acceptance exclude one another, and what follows decides. -/
theorem leadingAcceptToken_iff {line : List Char} {verdict : Verdict} :
    leadingAcceptToken line = some verdict ↔
      ∃ token ∈ acceptTokens, token.2 = verdict ∧
        ∃ rest, line = token.1.toList ++ rest ∧ ∀ c ∈ rest.head?, Terminates c := by
  have hfollow {rest : List Char} : rest.head?.all isAcceptTerminator = true ↔ ∀ c ∈ rest.head?, Terminates c := by
    simp only [Option.all_eq_true, isAcceptTerminator_iff]
    rfl
  constructor
  · intro h
    have htoken {word : String} {found : Verdict}
        (h : ((stripPrefix word.toList line).map fun rest =>
          if rest.head?.all isAcceptTerminator then some found else none) = some (some verdict)) :
        found = verdict ∧ ∃ rest, line = word.toList ++ rest ∧ ∀ c ∈ rest.head?, Terminates c := by
      obtain ⟨rest, hrest, hfound⟩ := Option.map_eq_some_iff.mp h
      split_ifs at hfound with hall
      exact ⟨Option.some.inj hfound, rest, eq_append_of_stripPrefix hrest, hfollow.mp hall⟩
    rcases join_orElse_eq_some h with hfirst | h
    · exact ⟨("ACCEPT_WITH_NITS", .acceptWithNits), by decide, htoken hfirst⟩
    rcases join_orElse_eq_some h with hsecond | h
    · exact ⟨("ACCEPT WITH NITS", .acceptWithNits), by decide, htoken hsecond⟩
    · exact ⟨("LGTM", .lgtm), by decide, htoken (Option.join_eq_some_iff.mp h)⟩
  · rintro ⟨token, htoken, rfl, rest, rfl, hterminates⟩
    rw [← hfollow] at hterminates
    simp only [acceptTokens, List.mem_cons, List.not_mem_nil, or_false] at htoken
    rcases htoken with rfl | rfl | rfl <;> simp [leadingAcceptToken, stripPrefix, hterminates]

/-! ### The ends of lines -/

/-- A property that does not tell the ends of lines apart. -/
theorem forall_mem_normalizeNewline {p : Char → Prop} (hp : p '\n' ↔ p '\r') {c : Option Char} :
    (∀ d ∈ c.map normalizeNewline, p d) ↔ ∀ d ∈ c, p d := by
  cases c with
  | none => simp
  | some c =>
    simp only [Option.map_some, Option.mem_some_iff, forall_eq', normalizeNewline]
    split_ifs with hreturn
    · rw [hreturn, hp]
    · rfl

theorem joins_newline : ¬ Joins '\n' ↔ ¬ Joins '\r' :=
  iff_of_true (by rw [joins_iff]; decide) (by rw [joins_iff]; decide)

/-- A word stands by itself whatever the ends of lines are. -/
theorem standsAlone_normalizeNewlines {word : String} (hword : '\n' ∉ word.toList ∧ '\r' ∉ word.toList ∧ word.toList ≠ [])
    {text : List Char} : StandsAlone word (normalizeNewlines text) ↔ StandsAlone word text := by
  have hhead (s : List Char) : (word.toList ++ s).head? ≠ some '\n' := by
    rw [List.head?_append_of_ne_nil _ hword.2.2]
    intro h
    exact hword.1 (List.mem_of_head? h)
  have hlast : word.toList.getLast? ≠ some '\r' := fun h => hword.2.1 (List.mem_of_getLast? h)
  constructor
  · rintro ⟨before, after, h, hbefore, hafter⟩
    obtain ⟨before', rest, rfl, rfl, hrest⟩ := exists_of_normalizeNewlines h
    obtain ⟨word', after', rfl, hword', rfl⟩ := exists_of_normalizeNewlines hrest
    obtain rfl := eq_of_normalizeNewlines hword' hword.1
    rw [getLast_normalizeNewlines, forall_mem_normalizeNewline joins_newline] at hbefore
    rw [head_normalizeNewlines, forall_mem_normalizeNewline joins_newline] at hafter
    exact ⟨before', after', rfl, hbefore, hafter⟩
  · rintro ⟨before, after, rfl, hbefore, hafter⟩
    refine ⟨normalizeNewlines before, normalizeNewlines after, ?_, ?_, ?_⟩
    · rw [normalizeNewlines_append fun _ => hhead after, normalizeNewlines_append fun h => absurd h hlast,
        normalizeNewlines_eq_self hword.2.1]
    · rwa [getLast_normalizeNewlines, forall_mem_normalizeNewline joins_newline]
    · rwa [head_normalizeNewlines, forall_mem_normalizeNewline joins_newline]

/-- A word leads whatever the ends of lines are. -/
theorem leads_normalizeNewlines {word : String} (hword : '\n' ∉ word.toList ∧ '\r' ∉ word.toList ∧ word.toList ≠ [])
    {text : List Char} : Leads word (normalizeNewlines text) ↔ Leads word text := by
  have hlast : word.toList.getLast? ≠ some '\r' := fun h => hword.2.1 (List.mem_of_getLast? h)
  have hterminates : Terminates '\n' ↔ Terminates '\r' := iff_of_true (Or.inl rfl) (Or.inl rfl)
  rw [leads_iff hword, leads_iff hword, trimStart_normalizeNewlines]
  constructor
  · rintro ⟨rest, h, hrest⟩
    obtain ⟨word', rest', hslice, hword', rfl⟩ := exists_of_normalizeNewlines h
    obtain rfl := eq_of_normalizeNewlines hword' hword.1
    rw [head_normalizeNewlines, forall_mem_normalizeNewline hterminates] at hrest
    exact ⟨rest', hslice, hrest⟩
  · rintro ⟨rest, h, hrest⟩
    refine ⟨normalizeNewlines rest, ?_, ?_⟩
    · rw [h, normalizeNewlines_append fun h => absurd h hlast, normalizeNewlines_eq_self hword.2.1]
    · rwa [head_normalizeNewlines, forall_mem_normalizeNewline hterminates]

/-! ### The floor of a text -/

/-- The ends of lines are in no word of a verdict. -/
theorem plain_acceptTokens : ∀ token ∈ acceptTokens,
    '\n' ∉ token.1.toList ∧ '\r' ∉ token.1.toList ∧ token.1.toList ≠ [] := by
  simp [acceptTokens]

theorem containsVerdictWord_normalizeNewlines {word : String}
    (hword : '\n' ∉ word.toList ∧ '\r' ∉ word.toList ∧ word.toList ≠ []) {text : List Char} :
    containsVerdictWord (normalizeNewlines text) word = true ↔ StandsAlone word text := by
  rw [containsVerdictWord_iff hword.2.2, standsAlone_normalizeNewlines hword]

/-- The rejection of a text is that of its words. -/
theorem rejectionSignal_normalizeNewlines (text : List Char) :
    (StandsAlone "BLOCK" text ∧ rejectionSignal (normalizeNewlines text) = some .block) ∨
      (¬ StandsAlone "BLOCK" text ∧ (StandsAlone "REQUEST_CHANGES" text ∨ StandsAlone "REQUEST CHANGES" text) ∧
        rejectionSignal (normalizeNewlines text) = some .requestChanges) ∨
      (¬ Rejects text ∧ rejectionSignal (normalizeNewlines text) = none) := by
  have hblock := @containsVerdictWord_normalizeNewlines "BLOCK" (by decide) text
  have hunderscore := @containsVerdictWord_normalizeNewlines "REQUEST_CHANGES" (by decide) text
  have hspace := @containsVerdictWord_normalizeNewlines "REQUEST CHANGES" (by decide) text
  have hrequest : (containsVerdictWord (normalizeNewlines text) "REQUEST_CHANGES" ||
      containsVerdictWord (normalizeNewlines text) "REQUEST CHANGES") = true ↔
      StandsAlone "REQUEST_CHANGES" text ∨ StandsAlone "REQUEST CHANGES" text := by
    rw [Bool.or_eq_true, hunderscore, hspace]
  rw [rejectionSignal]
  by_cases h : StandsAlone "BLOCK" text
  · exact Or.inl ⟨h, if_pos (hblock.mpr h)⟩
  rw [if_neg (hblock.not.mpr h)]
  by_cases h' : StandsAlone "REQUEST_CHANGES" text ∨ StandsAlone "REQUEST CHANGES" text
  · exact Or.inr (Or.inl ⟨h, h', if_pos (hrequest.mpr h')⟩)
  · exact Or.inr (Or.inr ⟨not_or.mpr ⟨h, h'⟩, if_neg (hrequest.not.mpr h')⟩)

/-- Without a rejection the free text accepts where a word of acceptance leads. -/
theorem parseVerdictToken_normalizeNewlines {text : List Char}
    (h : rejectionSignal (normalizeNewlines text) = none) {verdict : Verdict} :
    parseVerdictToken (normalizeNewlines text) = some verdict ↔
      ∃ token ∈ acceptTokens, token.2 = verdict ∧ Leads token.1 text := by
  rw [parseVerdictToken, h]
  simp only [Option.bind_eq_some_iff, leadingAcceptToken_iff]
  constructor
  · rintro ⟨line, hline, token, htoken, hverdict, rest, hrest, hterminates⟩
    exact ⟨token, htoken, hverdict,
      (leads_normalizeNewlines (plain_acceptTokens token htoken)).mp ⟨line, rest, hline, hrest, hterminates⟩⟩
  · rintro ⟨token, htoken, hverdict, hleads⟩
    obtain ⟨line, rest, hline, hrest, hterminates⟩ :=
      (leads_normalizeNewlines (plain_acceptTokens token htoken)).mpr hleads
    exact ⟨line, hline, token, htoken, hverdict, rest, hrest, hterminates⟩

/-- The free text says the floor, or nothing and the floor is a request for changes. -/
theorem floor_parseVerdictToken (text : List Char) :
    Floor text ((parseVerdictToken (normalizeNewlines text)).getD .requestChanges) := by
  rcases rejectionSignal_normalizeNewlines text with ⟨hblock, h⟩ | ⟨hblock, hrequest, h⟩ | ⟨hnone, h⟩
  · rw [parseVerdictToken, h]
    exact .block hblock
  · rw [parseVerdictToken, h]
    exact .requestChanges hblock hrequest
  · rcases htoken : parseVerdictToken (normalizeNewlines text) with _ | verdict
    · refine .silent hnone fun token hmem hleads => ?_
      have := (parseVerdictToken_normalizeNewlines h).mpr ⟨token, hmem, rfl, hleads⟩
      cases htoken.symm.trans this
    · obtain ⟨token, hmem, rfl, hleads⟩ := (parseVerdictToken_normalizeNewlines h).mp htoken
      exact .accept hnone hmem hleads

/-- A text has one floor. -/
theorem Floor.unique {text : List Char} {a b : Verdict} (ha : Floor text a) (hb : Floor text b) : a = b := by
  have hvalue {verdict : Verdict} (hfloor : Floor text verdict) :
      (parseVerdictToken (normalizeNewlines text)).getD .requestChanges = verdict := by
    rcases rejectionSignal_normalizeNewlines text with ⟨hblock, h⟩ | ⟨hblock, hrequest, h⟩ | ⟨hnone, h⟩
    · rw [parseVerdictToken, h]
      cases hfloor with
      | block => rfl
      | requestChanges hno => exact absurd hblock hno
      | accept hno | silent hno => exact absurd (Or.inl hblock) hno
    · rw [parseVerdictToken, h]
      cases hfloor with
      | block hyes => exact absurd hyes hblock
      | requestChanges | silent => rfl
      | accept hno => exact absurd (Or.inr hrequest) hno
    · cases hfloor with
      | block hyes => exact absurd (Or.inl hyes) hnone
      | requestChanges _ hyes => exact absurd (Or.inr hyes) hnone
      | @accept _ token hmem hleads => rw [(parseVerdictToken_normalizeNewlines h).mpr ⟨token, hmem, rfl, hleads⟩]; rfl
      | silent _ hsilent =>
        rcases htoken : parseVerdictToken (normalizeNewlines text) with _ | verdict
        · rfl
        · obtain ⟨token, hmem, -, hleads⟩ := (parseVerdictToken_normalizeNewlines h).mp htoken
          exact absurd hleads (hsilent token hmem)
  exact (hvalue ha).symm.trans (hvalue hb)

/-! ### The verdict -/

/-- From acceptance to rejection. -/
instance : PartialOrder Verdict :=
  PartialOrder.lift blockSeverityRank fun a b h => by cases a <;> cases b <;> first | rfl | cases h

/-- The verdicts that accept. -/
def IsAcceptance (verdict : Verdict) : Prop := verdict = .lgtm ∨ verdict = .acceptWithNits

section Counts

variable (parse : List Char → Option (Json × List Char))

/-- Some object in the text has the verdict. -/
def Found (text : List Char) (verdict : Verdict) : Prop :=
  ∃ o ∈ allJsonObjects parse (normalizeNewlines text), ∃ sv, verdictOfScanned o = some sv ∧ sv.verdict = verdict

/-- A verdict found counts, an acceptance only above a floor that is one. -/
def Counts (text : List Char) (floor verdict : Verdict) : Prop :=
  Found parse text verdict ∧ (IsAcceptance verdict → IsAcceptance floor)

end Counts

theorem isAcceptance_iff {verdict : Verdict} : IsAcceptance verdict ↔ verdict ≤ .acceptWithNits := by
  have hrank : (verdict = .lgtm ∨ verdict = .acceptWithNits) ↔
      blockSeverityRank verdict ≤ blockSeverityRank .acceptWithNits := by
    cases verdict <;> decide
  exact hrank

/-- A floor that accepts is a word's. -/
theorem Floor.accepts {text : List Char} {floor : Verdict} (h : Floor text floor) (hfloor : IsAcceptance floor) :
    (∃ token ∈ acceptTokens, Leads token.1 text) ∧ ¬ Rejects text := by
  cases h with
  | block | requestChanges | silent => rcases hfloor with hfloor | hfloor <;> cases hfloor
  | accept hnone hmem hleads => exact ⟨⟨_, hmem, hleads⟩, hnone⟩

section Counts

variable {parse : List Char → Option (Json × List Char)} {usage : List Char → Option UsageStats} {reviewerId : String}
  {text : List Char} {floor : Verdict}

/-- What is below the verdict is below the floor or below some verdict found. -/
theorem le_feedback_iff (hfloor : Floor text floor) {bound : Verdict} :
    bound ≤ (feedbackFromText parse usage reviewerId text).verdict ↔
      bound ≤ floor ∨ ∃ verdict, Found parse text verdict ∧ bound ≤ verdict := by
  obtain rfl := hfloor.unique (floor_parseVerdictToken text)
  refine le_rank_feedbackFromText.trans (or_congr_right ?_)
  constructor
  · rintro ⟨sv, hsv, hle⟩
    obtain ⟨o, ho, hscanned⟩ := List.mem_filterMap.mp hsv
    exact ⟨sv.verdict, ⟨o, ho, sv, hscanned, rfl⟩, hle⟩
  · rintro ⟨_, ⟨o, ho, sv, hscanned, rfl⟩, hle⟩
    exact ⟨sv, List.mem_filterMap.mpr ⟨o, ho, hscanned⟩, hle⟩

/-- The verdict is the floor or one that was found. -/
theorem feedback_mem (hfloor : Floor text floor) :
    (feedbackFromText parse usage reviewerId text).verdict = floor ∨
      Found parse text (feedbackFromText parse usage reviewerId text).verdict := by
  rcases (le_feedback_iff hfloor).mp (le_refl (feedbackFromText parse usage reviewerId text).verdict) with
    hle | ⟨verdict, hfound, hle⟩
  · exact Or.inl (le_antisymm hle ((le_feedback_iff hfloor).mpr (Or.inl le_rfl)))
  · right
    have hge := (@le_feedback_iff parse usage reviewerId text floor hfloor verdict).mpr (Or.inr ⟨verdict, hfound, le_rfl⟩)
    rwa [le_antisymm hle hge]

end Counts

/-- **The verdict is the greatest of the floor and of what counts.** An acceptance is one by its
words, with no rejection anywhere, and what accepts with nits is never taken for more. -/
theorem feedbackFromText_isGreatest (parse : List Char → Option (Json × List Char))
    (usage : List Char → Option UsageStats) (reviewerId : String) (rawText : List Char) :
    ∃ floor, Floor rawText floor ∧ (∀ other, Floor rawText other → other = floor) ∧
      IsGreatest ({floor} ∪ {verdict | Counts parse rawText floor verdict})
        (feedbackFromText parse usage reviewerId rawText).verdict ∧
      (IsAcceptance (feedbackFromText parse usage reviewerId rawText).verdict →
        (∃ token ∈ acceptTokens, Leads token.1 rawText) ∧ ¬ Rejects rawText ∧
          ∀ verdict, Found parse rawText verdict → IsAcceptance verdict) ∧
      (floor = .acceptWithNits → (feedbackFromText parse usage reviewerId rawText).verdict ≠ .lgtm) := by
  have hfloor := floor_parseVerdictToken rawText
  generalize (parseVerdictToken (normalizeNewlines rawText)).getD .requestChanges = floor at hfloor
  generalize hverdict : (feedbackFromText parse usage reviewerId rawText).verdict = verdict
  have hle {bound : Verdict} : bound ≤ verdict ↔ bound ≤ floor ∨ ∃ found, Found parse rawText found ∧ bound ≤ found := by
    rw [← hverdict]
    exact le_feedback_iff hfloor
  have hfloor_le : floor ≤ verdict := hle.mpr (Or.inl le_rfl)
  have hfound_le {found : Verdict} (h : Found parse rawText found) : found ≤ verdict := hle.mpr (Or.inr ⟨found, h, le_rfl⟩)
  refine ⟨floor, hfloor, fun other hother => hother.unique hfloor, ⟨?_, ?_⟩, ?_, ?_⟩
  · -- An acceptance that was found is the verdict only above a floor that is one.
    rcases hverdict ▸ feedback_mem hfloor with rfl | hfound
    · exact Or.inl rfl
    · exact Or.inr ⟨hfound, fun haccept => isAcceptance_iff.mpr (hfloor_le.trans (isAcceptance_iff.mp haccept))⟩
  · rintro other (rfl | ⟨hfound, -⟩)
    · exact hfloor_le
    · exact hfound_le hfound
  · intro haccept
    have hbound := isAcceptance_iff.mp haccept
    obtain ⟨hleads, hnone⟩ := hfloor.accepts (isAcceptance_iff.mpr (hfloor_le.trans hbound))
    exact ⟨hleads, hnone, fun found hfound => isAcceptance_iff.mpr ((hfound_le hfound).trans hbound)⟩
  · rintro rfl rfl
    exact absurd hfloor_le (by decide : ¬ blockSeverityRank .acceptWithNits ≤ blockSeverityRank .lgtm)

end Nerve.Review
