import Nerve.Review.Verdict

/-!
# A rejection cannot be talked away

Whatever stands before and after it, an object that rejects is found by the scan
(`scanObjects_finds`), and the verdict is at least as severe as the object demands
(`rejection_survives`). The scan starts again after each value it has read, and the induction is on
the turns it takes: as long as it has not come to the object, what is left of the text still has the
object in it, and a value that reaches beyond the object's beginning has the object inside.

What an object demands is `Demands`. One that names its verdict `request_changes` demands no more,
whatever its issues are (`blocking_issue_beside_request_changes`).
-/

namespace Nerve.Review

open Nerve Nerve.Run Text Json

/-! ### What an object demands -/

/-- Among the issues there is a blocking one. -/
def HasBlockingIssue (value : Json) : Prop :=
  ∃ items, value.get? "issues" = some (.array items) ∧ ∃ item ∈ items, ∃ severity,
    item.get? "severity" = some (.string severity) ∧ lower severity = "blocking".toList

/-- The verdict that the object names. -/
def NamesVerdict (value : Json) (verdict : Verdict) : Prop :=
  ∃ name, value.get? "verdict" = some (.string name) ∧ parseVerdictValue name = some verdict

inductive Demands (value : Json) : Verdict → Prop
  | duplicate (h : value.hasDuplicateKeys = true) : Demands value .block
  | block (h : NamesVerdict value .block) : Demands value .block
  | requestChanges (h : NamesVerdict value .requestChanges) : Demands value .requestChanges
  | blockingIssue (h : HasBlockingIssue value) (hverdict : ¬ NamesVerdict value .requestChanges) : Demands value .block

theorem asString_eq_some {v : Json} {name : String} : v.asString = some name ↔ v = .string name := by
  cases v <;> simp [asString]

theorem asArray_eq_some {v : Json} {items : List Json} : v.asArray = some items ↔ v = .array items := by
  cases v <;> simp [asArray]

theorem namesVerdict_iff {value : Json} {verdict : Verdict} :
    NamesVerdict value verdict ↔ ((value.get? "verdict").bind asString).bind parseVerdictValue = some verdict := by
  simp only [NamesVerdict, Option.bind_eq_some_iff, asString_eq_some, exists_eq_right]

theorem isBlockingIssue_iff {item : Json} :
    isBlockingIssue item = true ↔
      ∃ severity, item.get? "severity" = some (.string severity) ∧ lower severity = "blocking".toList := by
  simp only [isBlockingIssue, Option.any_eq_true, Option.bind_eq_some_iff, asString_eq_some, exists_eq_right, beq_iff_eq]

theorem hasBlockingIssue_iff {value : Json} :
    HasBlockingIssue value ↔
      ((value.get? "issues").bind asArray).any (fun items => items.any isBlockingIssue) = true := by
  simp only [HasBlockingIssue, Option.any_eq_true, Option.bind_eq_some_iff, asArray_eq_some, exists_eq_right,
    List.any_eq_true, isBlockingIssue_iff]

/-- Without repeated names the object itself says what it demands. -/
theorem structuredVerdictFromObject_of_demands {value : Json} {verdict : Verdict} (h : Demands value verdict)
    (hkeys : value.hasDuplicateKeys = false) :
    ∃ sv, structuredVerdictFromObject value = some sv ∧ blockSeverityRank verdict ≤ blockSeverityRank sv.verdict := by
  unfold structuredVerdictFromObject
  dsimp only
  cases h with
  | duplicate h =>
    rw [hkeys] at h
    cases h
  | block h =>
    rw [namesVerdict_iff.mp h]
    simp
  | requestChanges h =>
    rw [namesVerdict_iff.mp h]
    simp
  | blockingIssue h hverdict =>
    rw [hasBlockingIssue_iff.mp h]
    rcases hparsed : ((value.get? "verdict").bind asString).bind parseVerdictValue with _ | named
    · simp
    · cases named with
      | requestChanges => exact absurd (namesVerdict_iff.mpr hparsed) hverdict
      | lgtm | acceptWithNits | block => simp

/-! ### The objects in a value -/

theorem mem_collectFromItems {keys : Bool} {items : List Json} {o : ScannedObject} :
    o ∈ collectFromItems keys items ↔ ∃ v ∈ items, o ∈ collectObjects keys v := by
  induction items with
  | nil => simp [collectFromItems]
  | cons v vs ih => simp [collectFromItems, ih]

theorem mem_collectFromMembers {keys : Bool} {members : List (String × Json)} {m : String × Json} (hm : m ∈ members) :
    (m.1, collectObjects keys m.2) ∈ collectFromMembers keys members := by
  induction members with
  | nil => cases hm
  | cons n ms ih =>
    rw [collectFromMembers]
    rcases List.mem_cons.mp hm with rfl | hm
    · exact List.mem_cons_self
    · exact List.mem_cons_of_mem _ (ih hm)

theorem names_collectFromMembers (keys : Bool) (members : List (String × Json)) :
    (collectFromMembers keys members).map Prod.fst = members.map Prod.fst := by
  induction members with
  | nil => rfl
  | cons m ms ih => rw [collectFromMembers, List.map_cons, List.map_cons, ih]

/-- Of a value without repeated names every object is collected. -/
theorem mem_collectObjects {keys : Bool} {members : List (String × Json)} {v : Json}
    (hw : Inside (.object members) v) (hkeys : v.hasDuplicateKeys = false) :
    ⟨.object members, keys⟩ ∈ collectObjects keys v := by
  induction hw with
  | self =>
    rw [collectObjects]
    exact List.mem_cons_self
  | item hv _ ih =>
    rw [collectObjects]
    exact mem_collectFromItems.mpr ⟨_, hv, ih (itemsHaveDuplicateKeys_eq_false hkeys _ hv)⟩
  | @member ms m hm _ ih =>
    rw [hasDuplicateKeys, Bool.or_eq_false_iff, Bool.not_eq_false', decide_eq_true_iff] at hkeys
    rw [collectObjects]
    refine List.mem_cons_of_mem _ (List.mem_flatten.mpr ⟨_, ?_, ih (membersHaveDuplicateKeys_eq_false hkeys.2 _ hm)⟩)
    refine List.mem_map.mpr ⟨_, (mem_entries ?_).mpr (mem_collectFromMembers hm), rfl⟩
    rw [names_collectFromMembers]
    exact hkeys.1

/-! ### The scan -/

/-- A value with repeated names is among the objects, or the one that is looked for, without any. -/
def Finds (members : List (String × Json)) (objects : List ScannedObject) : Prop :=
  (∃ o ∈ objects, o.hasDuplicateKeys = true) ∨
    (hasDuplicateKeys (.object members) = false ∧ ⟨.object members, false⟩ ∈ objects)

theorem Finds.append_left {members : List (String × Json)} {objects : List ScannedObject} (h : Finds members objects)
    (rest : List ScannedObject) : Finds members (objects ++ rest) := by
  rcases h with ⟨o, ho, hkeys⟩ | ⟨hkeys, hmem⟩
  · exact Or.inl ⟨o, List.mem_append_left _ ho, hkeys⟩
  · exact Or.inr ⟨hkeys, List.mem_append_left _ hmem⟩

theorem Finds.append_right {members : List (String × Json)} {objects : List ScannedObject} (h : Finds members objects)
    (before : List ScannedObject) : Finds members (before ++ objects) := by
  rcases h with ⟨o, ho, hkeys⟩ | ⟨hkeys, hmem⟩
  · exact Or.inl ⟨o, List.mem_append_right _ ho, hkeys⟩
  · exact Or.inr ⟨hkeys, List.mem_append_right _ hmem⟩

/-- An object is found with the value it is in. -/
theorem finds_collectObjects {members ms : List (String × Json)} (hw : Inside (.object members) (.object ms)) :
    Finds members (collectObjects (hasDuplicateKeys (.object ms)) (.object ms)) := by
  rcases hkeys : hasDuplicateKeys (.object ms) with _ | _
  · exact Or.inr ⟨hasDuplicateKeys_inside hw hkeys, mem_collectObjects hw hkeys⟩
  · refine Or.inl ⟨⟨.object ms, true⟩, ?_, rfl⟩
    rw [collectObjects]
    exact List.mem_cons_self

theorem dropWhile_brace {before : List Char} (h : '\x7b' ∉ before) (s : List Char) :
    (before ++ '\x7b' :: s).dropWhile (· != '\x7b') = '\x7b' :: s := by
  have hskip : ∀ c ∈ before, (c != '\x7b') = true := by
    intro c hc
    refine bne_iff_ne.mpr ?_
    rintro rfl
    exact h hc
  rw [List.dropWhile_append_of_pos hskip]
  rfl

section Scan

variable {parse : List Char → Option (Json × List Char)} {members : List (String × Json)} {obj : List Char}

/-- What is read at a brace is an object. -/
theorem exists_object_of_parse (hparse : ReadsFirst parse) {s rest : List Char} {value : Json}
    (h : parse ('\x7b' :: s) = some (value, rest)) :
    ∃ ms text, value = .object ms ∧ Denotes (.value (.object ms)) text ∧ '\x7b' :: s = text ++ rest := by
  obtain ⟨space, text, hspace, hslice, hvalue⟩ := hparse.sound _ _ _ h
  obtain rfl : space = [] := by
    rcases space with _ | ⟨c, space⟩
    · rfl
    · obtain rfl : '\x7b' = c := (List.cons.inj hslice).1
      exact absurd (hspace _ List.mem_cons_self) (by decide)
  obtain ⟨c, s', rfl, -⟩ := value_head hvalue
  obtain rfl : '\x7b' = c := (List.cons.inj hslice).1
  obtain ⟨ms, rfl⟩ := object_of_brace hvalue
  exact ⟨ms, _, rfl, hvalue, hslice⟩

/-- **The scan finds the object**, after any text and before any. -/
theorem scanObjects_finds (hparse : ReadsFirst parse) (hobj : Denotes (.value (.object members)) obj)
    (hmembers : LeadsWithLetter members) (htaken : ∀ rest, parse (obj ++ rest) = some (.object members, rest))
    {turns : Nat} {before after : List Char} (hturns : before.length < turns) :
    Finds members (scanObjects parse turns (before ++ (obj ++ after))) := by
  induction turns generalizing before with
  | zero => omega
  | succ turns ih =>
    obtain ⟨space, k, tail, hopens, -, -⟩ := object_opens hobj hmembers
    by_cases hbrace : '\x7b' ∈ before
    · obtain ⟨skipped, between, rfl, hskipped⟩ := List.eq_append_cons_of_mem hbrace
      rw [List.length_append, List.length_cons] at hturns
      rw [List.append_assoc, List.cons_append, scanObjects, dropWhile_brace hskipped]
      have hwhole : '\x7b' :: (between ++ (obj ++ after)) = ('\x7b' :: between) ++ (obj ++ after) := rfl
      rcases hread : parse ('\x7b' :: (between ++ (obj ++ after))) with _ | ⟨value, rest⟩
      · -- The brace begins no value, and is passed over.
        have hnext := @ih between (by omega)
        simpa only [hread] using hnext
      obtain ⟨ms, text, rfl, hvalue, htext⟩ := exists_object_of_parse hparse hread
      simp only [hread, isObject, if_true]
      rw [hwhole] at htext
      rcases List.append_eq_append_iff.mp htext with ⟨beyond, hbeyond, hrest⟩ | ⟨left_, hleft, hrest⟩
      · rcases beyond with _ | ⟨c, beyond⟩
        · -- The value ends where the object begins.
          have hnext := @ih [] (by simp; omega)
          rw [List.nil_append] at hrest hnext
          rw [← hrest]
          exact hnext.append_right _
        · -- The value reaches beyond the beginning of the object.
          have hlength : ('\x7b' :: between).length < text.length := by
            rw [hbeyond]
            simp
          exact (finds_collectObjects (inside_of_overlap hobj hmembers hvalue htext.symm hlength)).append_left _
      · -- The value ends before the object begins.
        have hnext := @ih left_ ?_
        · rw [hrest]
          exact hnext.append_right _
        · have hlength := congrArg List.length hleft
          have hpos := List.length_pos_of_ne_nil (ne_nil_of_denotes hvalue)
          rw [List.length_cons, List.length_append] at hlength
          omega
    · rw [hopens, List.cons_append, scanObjects, dropWhile_brace hbrace]
      have hread : parse ('\x7b' :: (space ++ '"' :: k :: tail ++ after)) = some (.object members, after) := by
        have := htaken after
        rwa [hopens, List.cons_append] at this
      simp only [hread, isObject, if_true]
      exact (finds_collectObjects .self).append_left _

end Scan

/-! ### The most severe -/

theorem le_mostSevere {svs : List StructuredVerdict} {sv : StructuredVerdict} (h : sv ∈ svs) :
    ∃ best, mostSevere svs = some best ∧ blockSeverityRank sv.verdict ≤ blockSeverityRank best.verdict := by
  have hfold (svs : List StructuredVerdict) (first : StructuredVerdict) : ∀ sv ∈ first :: svs,
      blockSeverityRank sv.verdict ≤ blockSeverityRank (svs.foldl (fun best sv =>
        if blockSeverityRank best.verdict ≤ blockSeverityRank sv.verdict then sv else best) first).verdict := by
    induction svs generalizing first with
    | nil => simp
    | cons second svs ih =>
      rw [List.foldl_cons]
      have hnext := ih (if blockSeverityRank first.verdict ≤ blockSeverityRank second.verdict then second else first)
      obtain ⟨hbest, hrest⟩ := List.forall_mem_cons.mp hnext
      refine List.forall_mem_cons.mpr ⟨le_trans ?_ hbest, List.forall_mem_cons.mpr ⟨le_trans ?_ hbest, hrest⟩⟩
      · split_ifs with hle
        · exact hle
        · exact le_rfl
      · split_ifs with hle
        · exact le_rfl
        · omega
  cases svs with
  | nil => cases h
  | cons first svs => exact ⟨_, rfl, hfold svs first sv h⟩

theorem mem_of_mostSevere {svs : List StructuredVerdict} {best : StructuredVerdict} (h : mostSevere svs = some best) :
    best ∈ svs := by
  have hfold (svs : List StructuredVerdict) (first : StructuredVerdict) : svs.foldl (fun best sv =>
      if blockSeverityRank best.verdict ≤ blockSeverityRank sv.verdict then sv else best) first ∈ first :: svs := by
    induction svs generalizing first with
    | nil => exact List.mem_cons_self
    | cons second svs ih =>
      rw [List.foldl_cons]
      split_ifs
      · exact List.mem_cons_of_mem _ (ih second)
      · rcases List.mem_cons.mp (ih first) with hfirst | hrest
        · rw [hfirst]
          exact List.mem_cons_self
        · exact List.mem_cons_of_mem _ (List.mem_cons_of_mem _ hrest)
  cases svs with
  | nil => cases h
  | cons first svs =>
    obtain rfl := Option.some.inj h
    exact hfold svs first

theorem blockSeverityRank_maxVerdict (a b : Verdict) :
    blockSeverityRank (maxVerdict a b) = max (blockSeverityRank a) (blockSeverityRank b) := by
  unfold maxVerdict
  split_ifs with h
  · exact (max_eq_right h.le).symm
  · exact (max_eq_left (not_lt.mp h)).symm

/-- An acceptance is not honored only where the free text is more severe anyway. -/
theorem rank_of_not_honored {verdict : Verdict} {freeText : Option Verdict}
    (h : honorBlockVerdict verdict freeText = false) :
    blockSeverityRank verdict ≤ blockSeverityRank (freeText.getD .requestChanges) := by
  cases verdict with
  | requestChanges | block => cases h
  | lgtm | acceptWithNits =>
    rcases freeText with _ | floor
    · decide
    · cases floor <;> revert h <;> decide

/-- **The verdict is the most severe of all**: of the free text's, or without one `request_changes`,
and the objects'. -/
theorem le_rank_feedbackFromText {parse : List Char → Option (Json × List Char)}
    {usage : List Char → Option UsageStats} {reviewerId : String} {rawText : List Char} {n : Nat} :
    n ≤ blockSeverityRank (feedbackFromText parse usage reviewerId rawText).verdict ↔
      n ≤ blockSeverityRank ((parseVerdictToken (normalizeNewlines rawText)).getD .requestChanges) ∨
        ∃ sv ∈ (allJsonObjects parse (normalizeNewlines rawText)).filterMap verdictOfScanned,
          n ≤ blockSeverityRank sv.verdict := by
  simp only [feedbackFromText]
  generalize (allJsonObjects parse (normalizeNewlines rawText)).filterMap verdictOfScanned = svs
  generalize parseVerdictToken (normalizeNewlines rawText) = freeText
  rcases hsevere : mostSevere svs with _ | best
  · rcases svs with _ | ⟨sv, svs⟩
    · simp
    · cases hsevere
  have hbest : (∃ sv ∈ svs, n ≤ blockSeverityRank sv.verdict) ↔ n ≤ blockSeverityRank best.verdict := by
    constructor
    · rintro ⟨sv, hsv, hrank⟩
      obtain ⟨best', hbest', hle⟩ := le_mostSevere hsv
      obtain rfl := Option.some.inj (hsevere.symm.trans hbest')
      exact hrank.trans hle
    · intro hrank
      exact ⟨best, mem_of_mostSevere hsevere, hrank⟩
  rw [hbest]
  rcases hhonor : honorBlockVerdict best.verdict freeText with _ | _
  · have hfloor := rank_of_not_honored hhonor
    simp only [hhonor, Bool.false_eq_true, if_false]
    omega
  · simp only [hhonor, if_true, blockSeverityRank_maxVerdict]
    omega

/-- The feedback is as severe as each object. -/
theorem le_feedbackFromText {parse : List Char → Option (Json × List Char)} {usage : List Char → Option UsageStats}
    {reviewerId : String} {rawText : List Char} {o : ScannedObject} {sv : StructuredVerdict}
    (ho : o ∈ allJsonObjects parse (normalizeNewlines rawText)) (hsv : verdictOfScanned o = some sv) :
    blockSeverityRank sv.verdict ≤ blockSeverityRank (feedbackFromText parse usage reviewerId rawText).verdict :=
  le_rank_feedbackFromText.mpr (Or.inr ⟨sv, List.mem_filterMap.mpr ⟨o, ho, hsv⟩, le_rfl⟩)

/-! ### The law -/

/-- **A rejection survives every text around it.** -/
theorem rejection_survives {parse : List Char → Option (Json × List Char)} {usage : List Char → Option UsageStats}
    (hparse : ReadsFirst parse) {obj rest : List Char} {members : List (String × Json)}
    (hobj : parse obj = some (.object members, rest)) (hmembers : LeadsWithLetter members)
    {verdict : Verdict} (hdemands : Demands (.object members) verdict) (reviewerId : String) (before after : List Char) :
    blockSeverityRank verdict ≤
      blockSeverityRank (feedbackFromText parse usage reviewerId (before ++ (obj ++ after))).verdict := by
  obtain ⟨space, text, hspace, rfl, hdenotes⟩ := hparse.sound _ _ _ hobj
  obtain ⟨hhead, hlast⟩ := value_ends hdenotes
  have htext : (text ++ (rest ++ after)).head? ≠ some '\n' := by
    rwa [List.head?_append_of_ne_nil _ (ne_nil_of_denotes hdenotes)]
  have hnormalized : normalizeNewlines (before ++ (space ++ (text ++ rest) ++ after)) =
      normalizeNewlines (before ++ space) ++ (normalizeNewlines text ++ normalizeNewlines (rest ++ after)) := by
    rw [← normalizeNewlines_append fun h => absurd h hlast, ← normalizeNewlines_append fun _ => htext]
    simp only [List.append_assoc]
  have hdenotes' := denotes_normalizeNewlines hdenotes
  have hfinds : Finds members (allJsonObjects parse (normalizeNewlines (before ++ (space ++ (text ++ rest) ++ after)))) := by
    rw [allJsonObjects, hnormalized]
    refine scanObjects_finds hparse hdenotes' hmembers (fun r => ?_) (by simp only [List.length_append]; omega)
    exact hparse.uniform members space text _ rest r hspace hdenotes hdenotes' hobj
  rcases hfinds with ⟨o, ho, hkeys⟩ | ⟨hkeys, hmem⟩
  · have hblock : verdictOfScanned o = some ⟨.block, none, [duplicateKeyIssue]⟩ := by
      rw [verdictOfScanned, hkeys, if_pos rfl]
    refine le_trans ?_ (le_feedbackFromText ho hblock)
    cases verdict <;> decide
  · obtain ⟨sv, hsv, hle⟩ := structuredVerdictFromObject_of_demands hdemands hkeys
    exact le_trans hle (le_feedbackFromText hmem hsv)

def quotedBlock : List Char := "\x7b\"verdict\": \"Block\"\x7d".toList

/-- An object that names `block`, quoted in an object of a text that begins with an acceptance. -/
theorem rejection_survives_quoted :
    blockSeverityRank .block ≤ blockSeverityRank (feedbackFromText read (fun _ => none) "codex"
      ("LGTM \x7b\"lead\": [".toList ++ (quotedBlock ++ "]\x7d and so on".toList))).verdict :=
  rejection_survives readsFirst_read (read_membersOf (by decide +kernel)) (leadsWithLetter_iff.mpr (by decide +kernel))
    (.block (namesVerdict_iff.mpr (by decide +kernel))) "codex" _ _

def requestWithBlockingIssue : List Char :=
  "\x7b\"verdict\":\"request_changes\",\"issues\":[\x7b\"severity\":\"blocking\"\x7d]\x7d".toList

/-- **A blocking issue beside `request_changes`** is no more than that. -/
theorem blocking_issue_beside_request_changes :
    read requestWithBlockingIssue = some (.object (membersOf requestWithBlockingIssue), []) ∧
      LeadsWithLetter (membersOf requestWithBlockingIssue) ∧
      HasBlockingIssue (.object (membersOf requestWithBlockingIssue)) ∧
      ¬ blockSeverityRank .block ≤
        blockSeverityRank (feedbackFromText read (fun _ => none) "codex" requestWithBlockingIssue).verdict :=
  ⟨read_membersOf (by decide +kernel), leadsWithLetter_iff.mpr (by decide +kernel),
    hasBlockingIssue_iff.mpr (by decide +kernel), by decide +kernel⟩

end Nerve.Review
