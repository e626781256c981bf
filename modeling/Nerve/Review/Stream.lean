import Nerve.Patch.ParseDiff
import Nerve.Review.Floor

/-!
# The verdict of a stream

The providers write their events as lines of JSON, and what the reviewer says is in some of the
strings. `extract_patch_candidate_text` takes the assistant's text out of the events before a patch
is looked for in it; the verdict is read off the stream as it is.

So nothing that a reviewer says in a stream is an acceptance (`not_leadsWithAccept_of_lines`): the
stream begins with a JSON value, and an acceptance has to come first. What is left is whether the
verdict is `block`, and that may be so of the message and not of the stream, or the other way round:
a letter of an escape before the word hides it, and what other events say counts as well. When the
two verdicts agree is `stream_agrees_iff`.
-/

namespace Nerve.Review

open Nerve Nerve.Run Nerve.Patch Text Json

/-! ### The assistant's text -/

section Feedback

variable (parse : List Char → Option (Json × List Char)) (usage : List Char → Option UsageStats)

/-- `serde_json::from_str`: a value, and nothing after it but space. -/
def fromStr (text : List Char) : Option Json :=
  (parse text).bind fun (value, rest) => if rest.all isSpace then some value else none

/-- `value[name]`, which is null where there is no such member. -/
def index (value : Json) (name : String) : Json := (value.get? name).getD .null

def pushCandidateText (out : List Char) (text : String) : List Char :=
  (if out.isEmpty then out else out ++ ['\n']) ++ text.toList

/-- The text, if there is one. -/
def pushText (out : List Char) (text : Option String) : List Char := text.elim out (pushCandidateText out)

/-- The text of an item of type `text`. -/
def itemText (item : Json) : Option String :=
  if (item.get? "type").bind asString = some "text" then (item.get? "text").bind asString else none

def collectContentText (out : List Char) : Json → List Char
  | .string text => pushCandidateText out text
  | .array items => items.foldl (fun out item => pushText out (itemText item)) out
  | .object members => pushText out (itemText (.object members))
  | .null | .bool _ | .number _ => out

def collectAdapterMessageText (value : Json) (out : List Char) : List Char :=
  let typeName := (value.get? "type").bind asString
  let item := index value "item"
  if typeName = some "assistant" then collectContentText out (index (index value "message") "content")
  else if typeName = some "item.completed" then
    collectContentText (pushText out (index item "text").asString) (index item "content")
  else
    let out :=
      if (value.get? "role").bind asString = some "assistant" then
        collectContentText (pushText out ((value.get? "text").bind asString)) (index value "content")
      else out
    if ((value.get? "item").bind (get? "role")).bind asString = some "assistant" then
      collectContentText (pushText out (index item "text").asString) (index item "content")
    else out

/-- What the assistant says in the events of a stream. -/
def collectedText (rawText : List Char) : List Char :=
  (lines rawText).foldl (fun out line => (fromStr parse line).elim out fun value => collectAdapterMessageText value out) []

def extractPatchCandidateText (rawText : List Char) : List Char :=
  let out := collectedText parse rawText
  if out.isEmpty then rawText else out

/-- The patch has an identifier of its own, and is read on the tree as it is. -/
def feedbackFromRawText (sha256Hex : String → String) (id : String) (cwd : FsTree) (reviewerId : String)
    (rawText : List Char) : DiffResult ReviewerFeedback := do
  let feedback := feedbackFromText parse usage reviewerId rawText
  let patchInput := extractPatchCandidateText parse rawText
  match ← NvPatch.fromUnifiedDiff sha256Hex id cwd (String.ofList patchInput) with
  | none => pure feedback
  | some patch => pure (if patch.isEmpty then feedback else { feedback with suggestedPatch := some patch })

/-- Every line of the stream is an event, and this is what the assistant says in them. -/
structure Carries (rawText message : List Char) : Prop where
  events : ∀ line ∈ lines rawText, (fromStr parse line).isSome = true
  text : collectedText parse rawText = message

/-- The word stands in the text, or a verdict of an object in it is `block`. -/
def Blocks (text : List Char) : Prop :=
  containsVerdictWord (normalizeNewlines text) "BLOCK" = true ∨
    ∃ o ∈ allJsonObjects parse (normalizeNewlines text), ∃ sv, verdictOfScanned o = some sv ∧ sv.verdict = .block

end Feedback

/-- The first line that is not blank begins with a word of acceptance, and nowhere is one of rejection. -/
def LeadsWithAccept (text : List Char) : Prop :=
  rejectionSignal text = none ∧
    ∃ line, (lines text).find? (fun line => !(trim line).isEmpty) = some line ∧
      (leadingAcceptToken (trimStart line)).isSome = true

/-- An acceptance, and no object that rejects. -/
def Accepts (parse : List Char → Option (Json × List Char)) (text : List Char) : Prop :=
  LeadsWithAccept (normalizeNewlines text) ∧
    ∀ o ∈ allJsonObjects parse (normalizeNewlines text), ∀ sv, verdictOfScanned o = some sv →
      sv.verdict = .lgtm ∨ sv.verdict = .acceptWithNits

/-! ### The free text's verdict -/

/-- An acceptance begins with one of two letters. -/
theorem leadingAcceptToken_eq_some {line : List Char} {verdict : Verdict} (h : leadingAcceptToken line = some verdict) :
    (verdict = .lgtm ∨ verdict = .acceptWithNits) ∧ (line.head? = some 'A' ∨ line.head? = some 'L') := by
  obtain ⟨token, htoken, rfl, rest, rfl, -⟩ := leadingAcceptToken_iff.mp h
  simp only [acceptTokens, List.mem_cons, List.not_mem_nil, or_false] at htoken
  rcases htoken with rfl | rfl | rfl
  · exact ⟨Or.inr rfl, Or.inl rfl⟩
  · exact ⟨Or.inr rfl, Or.inl rfl⟩
  · exact ⟨Or.inl rfl, Or.inr rfl⟩

theorem parseVerdictToken_of_rejection {text : List Char} {rejection : Verdict}
    (h : rejectionSignal text = some rejection) : parseVerdictToken text = some rejection := by
  rw [parseVerdictToken, h]

/-- The free text is an acceptance where it leads with one. -/
theorem parseVerdictToken_of_rejectionSignal {text : List Char} (hsignal : rejectionSignal text = none) :
    parseVerdictToken text = none ∧ ¬ LeadsWithAccept text ∨
      (parseVerdictToken text = some .lgtm ∨ parseVerdictToken text = some .acceptWithNits) ∧ LeadsWithAccept text := by
  unfold parseVerdictToken LeadsWithAccept
  rw [hsignal]
  rcases (lines text).find? fun line => !(trim line).isEmpty with _ | line
  · simp
  rcases hleading : leadingAcceptToken (trimStart line) with _ | verdict
  · simp [hleading]
  · obtain ⟨rfl | rfl, -⟩ := leadingAcceptToken_eq_some hleading <;> simp [hleading]

/-- The free text asks for changes at least, unless it leads with an acceptance. -/
theorem two_le_rank_iff {text : List Char} :
    2 ≤ blockSeverityRank ((parseVerdictToken text).getD .requestChanges) ↔ ¬ LeadsWithAccept text := by
  rcases hsignal : rejectionSignal text with _ | rejection
  · rcases parseVerdictToken_of_rejectionSignal hsignal with ⟨hnone, hnot⟩ | ⟨hsome | hsome, haccept⟩
    · exact iff_of_true (by rw [hnone]; decide) hnot
    · exact iff_of_false (by rw [hsome]; decide) (not_not.mpr haccept)
    · exact iff_of_false (by rw [hsome]; decide) (not_not.mpr haccept)
  · refine iff_of_true ?_ fun h => by cases hsignal.symm.trans h.1
    rw [parseVerdictToken_of_rejection hsignal]
    unfold rejectionSignal at hsignal
    split_ifs at hsignal <;> cases hsignal <;> decide

/-- The free text blocks where the word stands in it. -/
theorem three_le_rank_iff {text : List Char} :
    3 ≤ blockSeverityRank ((parseVerdictToken text).getD .requestChanges) ↔
      containsVerdictWord text "BLOCK" = true := by
  by_cases hblock : containsVerdictWord text "BLOCK" = true
  · refine iff_of_true ?_ hblock
    rw [parseVerdictToken_of_rejection (if_pos hblock)]
    decide
  refine iff_of_false ?_ hblock
  rcases hsignal : rejectionSignal text with _ | rejection
  · rcases parseVerdictToken_of_rejectionSignal hsignal with ⟨h, -⟩ | ⟨h | h, -⟩ <;> rw [h] <;> decide
  · rw [parseVerdictToken_of_rejection hsignal]
    rw [rejectionSignal, if_neg hblock] at hsignal
    split_ifs at hsignal
    cases hsignal
    decide

/-! ### The verdict of a text -/

section Feedback

variable {parse : List Char → Option (Json × List Char)} {usage : List Char → Option UsageStats} {reviewerId : String}
  {text : List Char}

theorem exists_scanned_iff {p : Verdict → Prop} {objects : List ScannedObject} :
    (∃ sv ∈ objects.filterMap verdictOfScanned, p sv.verdict) ↔
      ∃ o ∈ objects, ∃ sv, verdictOfScanned o = some sv ∧ p sv.verdict := by
  simp only [List.mem_filterMap]
  constructor
  · rintro ⟨sv, ⟨o, ho, hsv⟩, hverdict⟩
    exact ⟨o, ho, sv, hsv, hverdict⟩
  · rintro ⟨o, ho, sv, hsv, hverdict⟩
    exact ⟨sv, ⟨o, ho, hsv⟩, hverdict⟩

/-- The feedback is no acceptance, unless the text accepts. -/
theorem two_le_rank_feedbackFromText :
    2 ≤ blockSeverityRank (feedbackFromText parse usage reviewerId text).verdict ↔ ¬ Accepts parse text := by
  have hrank (verdict : Verdict) :
      2 ≤ blockSeverityRank verdict ↔ ¬ (verdict = .lgtm ∨ verdict = .acceptWithNits) := by
    cases verdict <;> decide
  rw [le_rank_feedbackFromText, two_le_rank_iff, Accepts, not_and_or,
    exists_scanned_iff (p := fun verdict => 2 ≤ blockSeverityRank verdict)]
  simp only [hrank, not_forall, exists_prop]

/-- The feedback blocks where the text does. -/
theorem three_le_rank_feedbackFromText :
    3 ≤ blockSeverityRank (feedbackFromText parse usage reviewerId text).verdict ↔ Blocks parse text := by
  have hrank (verdict : Verdict) : 3 ≤ blockSeverityRank verdict ↔ verdict = .block := by
    cases verdict <;> decide
  rw [le_rank_feedbackFromText, three_le_rank_iff, Blocks,
    exists_scanned_iff (p := fun verdict => 3 ≤ blockSeverityRank verdict)]
  simp only [hrank]

end Feedback

/-! ### The first line -/

theorem isWhitespace_of_isSpace {c : Char} (h : isSpace c = true) : isWhitespace c = true := by
  simp only [isSpace, Bool.or_eq_true, beq_iff_eq] at h
  rcases h with ((rfl | rfl) | rfl) | rfl <;> decide

/-- A value begins neither with space nor with a letter that an acceptance begins with. -/
theorem value_opens {v : Json} {text : List Char} (h : Denotes (.value v) text) :
    ∃ c s, text = c :: s ∧ isWhitespace c = false ∧ c ≠ 'A' ∧ c ≠ 'L' := by
  cases h with
  | null | true | false | string | emptyArray | array | emptyObject | object =>
    exact ⟨_, _, rfl, by decide, by decide, by decide⟩
  | number h =>
    obtain ⟨hchars, hne⟩ := isNumber_cons h
    obtain ⟨c, s, rfl⟩ := List.exists_cons_of_ne_nil hne
    have hc := hchars c List.mem_cons_self
    refine ⟨c, s, rfl, ?_, ?_, ?_⟩
    · refine (isWord_of_isDigit (List.cons_ne_nil c []) fun d hd => ?_).2 c List.mem_cons_self
      obtain rfl := List.mem_singleton.mp hd
      simp only [isNumberChar, Bool.or_eq_true, beq_iff_eq] at hc
      rcases hc with ((((hdigit | rfl) | rfl) | rfl) | rfl) | rfl
      · exact Or.inl hdigit
      all_goals exact Or.inr (by decide)
    · rintro rfl
      exact absurd hc (by decide)
    · rintro rfl
      exact absurd hc (by decide)

/-- **A stream does not lead with an acceptance**, whatever is said in it. -/
theorem not_leadsWithAccept_of_lines {parse : List Char → Option (Json × List Char)} (hparse : ReadsFirst parse)
    {rawText : List Char} (h : ∀ line ∈ lines rawText, (fromStr parse line).isSome = true) :
    ¬ LeadsWithAccept (normalizeNewlines rawText) := by
  rintro ⟨-, line, hline, haccept⟩
  obtain ⟨verdict, hverdict⟩ := Option.isSome_iff_exists.mp haccept
  obtain ⟨hnone, -⟩ | ⟨first, tail, hfirst, hne, htrim, -⟩ := find_line (normalizeNewlines rawText)
  · cases hnone.symm.trans hline
  obtain rfl := Option.some.inj (hfirst.symm.trans hline)
  have hhead : (trimStart (normalizeNewlines rawText)).head? = (trimStart first).head? := by
    rw [htrim, List.head?_append_of_ne_nil _ hne]
  have hraw : rawText ≠ [] := by
    rintro rfl
    cases hline
  -- The first line is a value, with nothing but space before it.
  obtain ⟨line, hmem, rest, rfl⟩ := exists_first_line hraw
  obtain ⟨value, hvalue⟩ := Option.isSome_iff_exists.mp (h _ hmem)
  obtain ⟨⟨v, after⟩, hread, -⟩ := Option.bind_eq_some_iff.mp hvalue
  obtain ⟨space, text, hspace, rfl, hdenotes⟩ := hparse.sound _ _ _ hread
  obtain ⟨c, s, rfl, hc, hA, hL⟩ := value_opens hdenotes
  simp only [List.append_assoc, List.cons_append] at hhead
  have hletter : (trimStart (normalizeNewlines (space ++ c :: (s ++ (after ++ rest))))).head? = some c := by
    have hreturn : c ≠ '\r' := by
      rintro rfl
      cases hc
    rw [trimStart_normalizeNewlines, trimStart_append_of_blank fun d hd => isWhitespace_of_isSpace (hspace d hd),
      trimStart_of_head hc, normalizeNewlines_cons hreturn, List.head?_cons]
  rw [hletter] at hhead
  rcases (leadingAcceptToken_eq_some hverdict).2 with haccept | haccept
  · exact hA (Option.some.inj (hhead.trans haccept))
  · exact hL (Option.some.inj (hhead.trans haccept))

/-! ### When the two agree -/

/-- The verdict that is fed back is that of the stream, if a patch can be read or there is none. -/
theorem feedbackFromRawText_eq_ok {parse : List Char → Option (Json × List Char)}
    {usage : List Char → Option UsageStats} {sha256Hex : String → String} {id : String} {cwd : FsTree}
    {reviewerId : String} {rawText : List Char} {verdict : Verdict} :
    (∃ feedback, feedbackFromRawText parse usage sha256Hex id cwd reviewerId rawText = .ok feedback ∧
        feedback.verdict = verdict) ↔
      (∃ patch, NvPatch.fromUnifiedDiff sha256Hex id cwd (String.ofList (extractPatchCandidateText parse rawText)) =
          .ok patch) ∧
        (feedbackFromText parse usage reviewerId rawText).verdict = verdict := by
  simp only [feedbackFromRawText]
  rcases NvPatch.fromUnifiedDiff sha256Hex id cwd (String.ofList (extractPatchCandidateText parse rawText))
    with e | _ | patch
  · refine iff_of_false ?_ ?_
    · rintro ⟨feedback, hfeedback, -⟩
      cases hfeedback
    · rintro ⟨⟨patch, hpatch⟩, -⟩
      cases hpatch
  · constructor
    · rintro ⟨feedback, hfeedback, hverdict⟩
      cases hfeedback
      exact ⟨⟨none, rfl⟩, hverdict⟩
    · rintro ⟨-, hverdict⟩
      exact ⟨_, rfl, hverdict⟩
  · constructor
    · rintro ⟨feedback, hfeedback, hverdict⟩
      refine ⟨⟨some patch, rfl⟩, ?_⟩
      cases hfeedback
      split_ifs at hverdict <;> exact hverdict
    · rintro ⟨-, hverdict⟩
      refine ⟨_, rfl, ?_⟩
      split_ifs <;> exact hverdict

/-- **When a stream has the verdict of its message**: a patch can be read or there is none, the message is no
acceptance, and both block or neither does. -/
theorem stream_agrees_iff {parse : List Char → Option (Json × List Char)} {usage : List Char → Option UsageStats}
    (hparse : ReadsFirst parse) {rawText message : List Char} (hcarries : Carries parse rawText message)
    (sha256Hex : String → String) (id : String) (cwd : FsTree) (reviewerId : String) :
    (∃ feedback, feedbackFromRawText parse usage sha256Hex id cwd reviewerId rawText = .ok feedback ∧
        feedback.verdict = (feedbackFromText parse usage reviewerId message).verdict) ↔
      (∃ patch, NvPatch.fromUnifiedDiff sha256Hex id cwd
          (String.ofList (if message.isEmpty then rawText else message)) = .ok patch) ∧
        ¬ Accepts parse message ∧ (Blocks parse rawText ↔ Blocks parse message) := by
  have hraw : 2 ≤ blockSeverityRank (feedbackFromText parse usage reviewerId rawText).verdict :=
    two_le_rank_feedbackFromText.mpr fun h => not_leadsWithAccept_of_lines hparse hcarries.events h.1
  have hverdicts (a b : Verdict) (ha : 2 ≤ blockSeverityRank a) :
      a = b ↔ 2 ≤ blockSeverityRank b ∧ (3 ≤ blockSeverityRank a ↔ 3 ≤ blockSeverityRank b) := by
    cases a <;> cases b <;> revert ha <;> decide
  rw [feedbackFromRawText_eq_ok, extractPatchCandidateText, hcarries.text, hverdicts _ _ hraw,
    two_le_rank_feedbackFromText, three_le_rank_feedbackFromText, three_le_rank_feedbackFromText]

/-- The stream of one message, with its escapes. -/
def assistantStream (content : String) : List Char :=
  ("\x7b\"type\":\"assistant\",\"message\":\x7b\"content\":[\x7b\"type\":\"text\",\"text\":\"" ++ content ++
    "\"\x7d]\x7d\x7d\n").toList

theorem toList_between {a m b : String} {x y z : List Char} (ha : a.toList = x) (hm : m.toList = y) (hb : b.toList = z) :
    (a ++ m ++ b).toList = x ++ y ++ z := by
  rw [String.toList_append, String.toList_append, ha, hm, hb]

theorem carries_of_all {rawText message : List Char}
    (h : ((lines rawText).all fun line => (fromStr read line).isSome) = true ∧ collectedText read rawText = message) :
    Carries read rawText message :=
  ⟨List.all_eq_true.mp h.1, h.2⟩

/-- The verdict of a text as the reader of the whole grammar finds it. -/
def verdictOf (text : List Char) : Verdict := (feedbackFromText read (fun _ => none) "codex" text).verdict

/-- A message that asks for changes on its first line, with a patch. -/
def requestWithPatch : List Char := "REQUEST_CHANGES\n--- /dev/null\n+++ b/a\n@@ -0,0 +1 @@\n+text\n".toList

def requestStream : List Char := assistantStream "REQUEST_CHANGES\\n--- /dev/null\\n+++ b/a\\n@@ -0,0 +1 @@\\n+text\\n"

/-- The stream of a request has its verdict, and its patch can be read. -/
theorem stream_agrees_on_request :
    ∃ feedback, feedbackFromRawText read (fun _ => none) sampleSha256Hex "patch" FileTree.Tree.empty "codex"
        requestStream = .ok feedback ∧ feedback.verdict = verdictOf requestWithPatch := by
  -- The characters are read off the literals by lemmas: to evaluate `toList` on them is slow.
  have hstream : requestStream = _ :=
    toList_between String.toList_ofList String.toList_ofList String.toList_ofList
  have hrequest : requestWithPatch = _ := String.toList_ofList
  rw [hstream, hrequest]
  refine (stream_agrees_iff readsFirst_read (carries_of_all (by decide +kernel)) _ _ _ _).mpr ⟨?_, ?_, ?_⟩
  · exact ⟨some ⟨"patch", none, [.create sampleSha256Hex ⟨"a"⟩ "text\n"]⟩, by decide +kernel⟩
  · have hrank : 2 ≤ blockSeverityRank (verdictOf requestWithPatch) := by
      rw [hrequest]
      decide +kernel
    exact two_le_rank_feedbackFromText.mp (hrequest ▸ hrank)
  · have hrank : 3 ≤ blockSeverityRank (verdictOf requestStream) ↔ 3 ≤ blockSeverityRank (verdictOf requestWithPatch) := by
      rw [hstream, hrequest]
      decide +kernel
    rw [hstream, hrequest] at hrank
    exact (three_le_rank_feedbackFromText.symm.trans hrank).trans three_le_rank_feedbackFromText

/-- **An acceptance is not one in a stream, and an escape hides the word behind it.** -/
theorem stream_disagrees :
    (Carries read (assistantStream "LGTM") "LGTM".toList ∧ verdictOf "LGTM".toList = .lgtm ∧
      ¬ ∃ feedback, feedbackFromRawText read (fun _ => none) sampleSha256Hex "patch" FileTree.Tree.empty "codex"
          (assistantStream "LGTM") = .ok feedback ∧ feedback.verdict = verdictOf "LGTM".toList) ∧
    (Carries read (assistantStream "Leak.\\nBLOCK") "Leak.\nBLOCK".toList ∧
      verdictOf "Leak.\nBLOCK".toList = .block ∧
      ¬ ∃ feedback, feedbackFromRawText read (fun _ => none) sampleSha256Hex "patch" FileTree.Tree.empty "codex"
          (assistantStream "Leak.\\nBLOCK") = .ok feedback ∧
        feedback.verdict = verdictOf "Leak.\nBLOCK".toList) := by
  have haccepts : assistantStream "LGTM" = _ :=
    toList_between String.toList_ofList String.toList_ofList String.toList_ofList
  have hblocks : assistantStream "Leak.\\nBLOCK" = _ :=
    toList_between String.toList_ofList String.toList_ofList String.toList_ofList
  refine ⟨⟨carries_of_all ?_, by decide +kernel, ?_⟩, ⟨carries_of_all ?_, by decide +kernel, ?_⟩⟩
  · rw [haccepts]
    decide +kernel
  · intro h
    have hverdict : verdictOf (assistantStream "LGTM") = verdictOf "LGTM".toList := (feedbackFromRawText_eq_ok.mp h).2
    rw [haccepts] at hverdict
    exact absurd hverdict (by decide +kernel)
  · rw [hblocks]
    decide +kernel
  · intro h
    have hverdict : verdictOf (assistantStream "Leak.\\nBLOCK") = verdictOf "Leak.\nBLOCK".toList :=
      (feedbackFromRawText_eq_ok.mp h).2
    rw [hblocks] at hverdict
    exact absurd hverdict (by decide +kernel)

end Nerve.Review
