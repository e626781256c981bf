import Nerve.Library.JsonText
import Nerve.Run.Types

/-!
# The verdict of a review

What a reviewer writes is text, and the verdict is read off it twice over. The free text counts by
its words in capitals: a word of rejection anywhere, or an acceptance at the beginning of the first
line. And wherever in the text a JSON object stands, by itself or in others, its members `verdict`
and `issues` count. The most severe object may make the free text's verdict more severe, never less.

The reader of the first JSON value of a text (`parse`) and the one of token usage (`usage`) are
given. An object read is kept with all its members, and looked at as a map.
-/

namespace Nerve.Review

open Nerve.Run Text

/-! ### The free text -/

/-- No letter, digit or underscore is there. -/
def isBoundary : Option Char → Bool
  | none => true
  | some c => !c.isAlphanum && c != '_'

/-- The word stands by itself somewhere in a text, with this character before it. -/
def containsVerdictWordAfter (word : List Char) : Option Char → List Char → Bool
  | _, [] => false
  | before, c :: s =>
    word.isPrefixOf (c :: s) && isBoundary before && isBoundary ((c :: s).drop word.length).head? ||
      containsVerdictWordAfter word (some c) s

def containsVerdictWord (text : List Char) (word : String) : Bool := containsVerdictWordAfter word.toList none text

/-- A word of rejection anywhere. -/
def rejectionSignal (text : List Char) : Option Verdict :=
  if containsVerdictWord text "BLOCK" then some .block
  else if containsVerdictWord text "REQUEST_CHANGES" || containsVerdictWord text "REQUEST CHANGES" then
    some .requestChanges
  else none

def isAcceptTerminator (c : Char) : Bool :=
  isWhitespace c || c == '.' || c == ',' || c == ':' || c == ';' || c == '!'

/-- A word of acceptance at the beginning of a line, by itself. -/
def leadingAcceptToken (line : List Char) : Option Verdict :=
  let token (word : String) (verdict : Verdict) : Option (Option Verdict) :=
    (stripPrefix word.toList line).map fun rest =>
      if rest.head?.all isAcceptTerminator then some verdict else none
  (token "ACCEPT_WITH_NITS" .acceptWithNits <|> token "ACCEPT WITH NITS" .acceptWithNits <|>
    token "LGTM" .lgtm).join

/-- `str::lines`. -/
def lines (text : List Char) : List (List Char) :=
  (splitInclusive '\n' text).map fun line =>
    match stripPrefix ['\n'] line.reverse with
    | none => line
    | some line => ((stripPrefix ['\r'] line).getD line).reverse

/-- The verdict of the free text, if it has one. -/
def parseVerdictToken (rawText : List Char) : Option Verdict :=
  match rejectionSignal rawText with
  | some rejection => some rejection
  | none => ((lines rawText).find? fun line => !(trim line).isEmpty).bind fun line => leadingAcceptToken (trimStart line)

/-! ### Issues the text stands for -/

def severityForVerdict : Verdict → Option IssueSeverity
  | .lgtm => none
  | .acceptWithNits => some .info
  | .requestChanges => some .warning
  | .block => some .blocking

/-- The character a letter's capital begins with, as far as that is an ASCII one. -/
def capital (c : Char) : Char :=
  match c with
  | 'ß' | 'ſ' | 'ﬅ' | 'ﬆ' => 'S'
  | 'ı' => 'I'
  | 'ǰ' => 'J'
  | 'ẖ' => 'H'
  | 'ẗ' => 'T'
  | 'ẘ' => 'W'
  | 'ẙ' => 'Y'
  | 'ẚ' => 'A'
  | 'ﬀ' | 'ﬁ' | 'ﬂ' | 'ﬃ' | 'ﬄ' => 'F'
  | c => c.toUpper

/-- What comes after a word of a verdict in any letter case, with the punctuation skipped. -/
def stripVerdictPrefix (line : List Char) : Option (List Char) :=
  let trimmed := trimStart line
  let strip (word : String) : Option (List Char) :=
    let start := trimmed.take word.length
    let rest := trimmed.drop word.length
    if start.map Char.toUpper = word.toList ∧ isBoundary (rest.head?.map capital) then
      some (rest.dropWhile fun c => c == ':' || c == '-' || c == ' ')
    else none
  ["ACCEPT WITH NITS", "ACCEPT_WITH_NITS", "REQUEST_CHANGES", "REQUEST CHANGES", "BLOCK", "LGTM"].findSome? strip

/-- The first line that says something besides the verdict. -/
def issueSummaryFromText (rawText : List Char) : String :=
  let none_ := "review requested changes"
  match ((lines rawText).map trim).filter fun line => !line.isEmpty with
  | [] => none_
  | first :: rest =>
    match stripVerdictPrefix first with
    | none => String.ofList first
    | some [] => (rest.head?.map String.ofList).getD none_
    | some summary => String.ofList summary

def issuesForVerdict (verdict : Verdict) (rawText : List Char) : List Issue :=
  match severityForVerdict verdict with
  | none => []
  | some severity => [⟨severity, issueSummaryFromText rawText⟩]

def ensureIssuesForVerdict (verdict : Verdict) (issues : List Issue) (summary : Option String) (rawText : List Char) :
    List Issue :=
  if !issues.isEmpty || verdict = .lgtm then issues
  else
    match severityForVerdict verdict with
    | none => issues
    | some severity =>
      let summary := summary.filter fun s => !(trim s.toList).isEmpty
      issues ++ [⟨severity, summary.getD (issueSummaryFromText rawText)⟩]

/-! ### The objects -/

structure StructuredVerdict where
  verdict : Verdict
  summary : Option String
  issues : List Issue
  deriving DecidableEq, Repr

def lower (s : String) : List Char := (trim s.toList).map Char.toLower

/-- The verdict a string names, in any letter case. -/
def parseVerdictValue (value : String) : Option Verdict :=
  let value := lower value
  if value = "lgtm".toList then some .lgtm
  else if value = "accept_with_nits".toList then some .acceptWithNits
  else if value = "request_changes".toList then some .requestChanges
  else if value = "block".toList then some .block
  else none

def severityFromName (name : String) : Option IssueSeverity :=
  if name = "info" then some .info
  else if name = "warning" then some .warning
  else if name = "blocking" then some .blocking
  else none

/-- A severity is its name, or an object of that one name with nothing in it. -/
def severityFromValue : Json → Option IssueSeverity
  | .string name => severityFromName name
  | .object members =>
    match Json.entries members with
    | [(name, .null)] => severityFromName name
    | _ => none
  | _ => none

/-- `serde_json::from_value` at an issue: an object with its fields, or the array of their values. -/
def issueFromValue (value : Json) : Option Issue :=
  match value with
  | .array [severity, message] =>
    (severityFromValue severity).bind fun severity => message.asString.map fun message => ⟨severity, message⟩
  | .object _ =>
    ((value.get? "severity").bind severityFromValue).bind fun severity =>
      ((value.get? "message").bind Json.asString).map fun message => ⟨severity, message⟩
  | _ => none

def isBlockingIssue (item : Json) : Bool :=
  ((item.get? "severity").bind Json.asString).any fun severity => lower severity == "blocking".toList

def structuredVerdictFromObject (value : Json) : Option StructuredVerdict :=
  let rawIssues := (value.get? "issues").bind Json.asArray
  let hasBlocking := rawIssues.any fun items => items.any isBlockingIssue
  let parsed := ((value.get? "verdict").bind Json.asString).bind parseVerdictValue
  let verdict : Option Verdict := match parsed with
    | some v => if hasBlocking && (v == .lgtm || v == .acceptWithNits) then some .block else some v
    | none => if hasBlocking then some .block else none
  verdict.map fun verdict =>
    { verdict := verdict
      summary := (value.get? "summary").bind Json.asString
      issues := (rawIssues.getD []).filterMap issueFromValue }

/-- An object in the text, and whether a name is repeated in the value it was found in. -/
structure ScannedObject where
  value : Json
  hasDuplicateKeys : Bool

mutual

/-- The objects in a value, those of a map in its order. -/
def collectObjects (hasDuplicateKeys : Bool) : Json → List ScannedObject
  | .object members =>
    ⟨.object members, hasDuplicateKeys⟩ ::
      ((Json.entries (collectFromMembers hasDuplicateKeys members)).map Prod.snd).flatten
  | .array items => collectFromItems hasDuplicateKeys items
  | _ => []

def collectFromItems (hasDuplicateKeys : Bool) : List Json → List ScannedObject
  | [] => []
  | v :: vs => collectObjects hasDuplicateKeys v ++ collectFromItems hasDuplicateKeys vs

def collectFromMembers (hasDuplicateKeys : Bool) : List (String × Json) → List (String × List ScannedObject)
  | [] => []
  | (name, v) :: ms => (name, collectObjects hasDuplicateKeys v) :: collectFromMembers hasDuplicateKeys ms

end

def isObject : Json → Bool
  | .object _ => true
  | _ => false

section Feedback

variable (parse : List Char → Option (Json × List Char)) (usage : List Char → Option UsageStats)

/-- Scan from brace to brace; each turn takes at least a character. -/
def scanObjects : (turns : Nat) → List Char → List ScannedObject
  | 0, _ => []
  | turns + 1, text =>
    match text.dropWhile (· != '\x7b') with
    | [] => []
    | brace :: tail =>
      match parse (brace :: tail) with
      | some (value, rest) =>
        (if isObject value then collectObjects value.hasDuplicateKeys value else []) ++ scanObjects turns rest
      | none => scanObjects turns tail

def allJsonObjects (text : List Char) : List ScannedObject := scanObjects parse (text.length + 1) text

def duplicateKeyIssue : Issue where
  severity := .blocking
  message := "reviewer verdict JSON contained duplicate keys; failing closed " ++
    "(a duplicate key can silently erase a blocking issue or rejection verdict via last-wins collapse)"

/-! ### Both together -/

def blockSeverityRank : Verdict → Nat
  | .lgtm => 0
  | .acceptWithNits => 1
  | .requestChanges => 2
  | .block => 3

def maxVerdict (a b : Verdict) : Verdict := if blockSeverityRank a < blockSeverityRank b then b else a

def honorBlockVerdict (verdict : Verdict) (freeText : Option Verdict) : Bool :=
  match verdict with
  | .requestChanges | .block => true
  | .lgtm | .acceptWithNits => freeText == some .lgtm || freeText == some .acceptWithNits

def verdictOfScanned (scanned : ScannedObject) : Option StructuredVerdict :=
  if scanned.hasDuplicateKeys then some ⟨.block, none, [duplicateKeyIssue]⟩
  else structuredVerdictFromObject scanned.value

/-- The most severe; of equals the last. -/
def mostSevere : List StructuredVerdict → Option StructuredVerdict
  | [] => none
  | sv :: svs => some (svs.foldl (fun best sv =>
      if blockSeverityRank best.verdict ≤ blockSeverityRank sv.verdict then sv else best) sv)

def feedbackFromText (reviewerId : String) (rawText : List Char) : ReviewerFeedback :=
  let normalized := normalizeNewlines rawText
  let freeText := parseVerdictToken normalized
  let structured := mostSevere ((allJsonObjects parse normalized).filterMap verdictOfScanned)
  let floor := freeText.getD .requestChanges
  let (verdict, issues) := match structured with
    | some sv =>
      if honorBlockVerdict sv.verdict freeText then
        let verdict := maxVerdict floor sv.verdict
        (verdict, ensureIssuesForVerdict verdict sv.issues sv.summary normalized)
      else (floor, issuesForVerdict floor normalized)
    | none => (floor, issuesForVerdict floor normalized)
  { reviewerId := reviewerId
    verdict := verdict
    issues := issues
    suggestedPatch := none
    cost := usage rawText
    rawText := String.ofList rawText }

end Feedback

end Nerve.Review
