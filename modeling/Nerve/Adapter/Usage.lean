import Nerve.Review.Stream

/-!
# The usage of an output

What a call of a provider has used is said in its events, which are lines of JSON: any object in any of them may name
tokens or a cost. `usage_from_raw_text` goes through all objects and keeps the last one that does
(`usageFromRawText_eq`), a map in the order of its names. So the events that come later decide alone
(`usage_of_later_events`). An object that names no tokens but zero ones of input and output is passed over; one that
names a total of zero is not, and takes away what others said.
-/

namespace Nerve.Adapter

open Nerve.Run Nerve.Patch Nerve.Review Text Json

section usage

variable (parse : List Char → Option (Json × List Char)) (castF64 : List Char → Option Nat)

/-- The amount that a value is, if it is one. What is written otherwise than a `u64` is so by `Value::as_f64` and the cast
from there, unless it is negative. -/
def amount : Json → Option Nat
  | .number text => asU64 (.number text) <|> castF64 text
  | _ => none

def firstU64 (members : List (String × Json)) (keys : List String) : Option Nat :=
  keys.findSome? fun key => ((Json.object members).get? key).bind (amount castF64)

def inputKeys : List String := ["input_tokens", "prompt_tokens", "total_input_tokens", "cached_input_tokens"]

def outputKeys : List String := ["output_tokens", "completion_tokens", "total_output_tokens", "response_tokens"]

def costKeys : List String := ["estimated_cost_microusd", "cost_microusd", "microusd"]

def parseUsageObject (members : List (String × Json)) : Option UsageStats :=
  let inputTokens := (firstU64 castF64 members inputKeys).getD 0
  let outputTokens := (firstU64 castF64 members outputKeys).getD 0
  let totalTokens := firstU64 castF64 members ["total_tokens"]
  let estimatedCostMicrousd := firstU64 castF64 members costKeys
  if inputTokens = 0 ∧ outputTokens = 0 ∧ totalTokens = none ∧ estimatedCostMicrousd = none then none
  else if inputTokens = 0 ∧ outputTokens = 0 then some ⟨totalTokens.getD 0, 0, estimatedCostMicrousd⟩
  else some ⟨inputTokens, outputTokens, estimatedCostMicrousd⟩

mutual

def collectLatestUsage : Json → Option UsageStats → Option UsageStats
  | .object members, latest =>
    (Json.entries (collectUsageOfMembers members)).foldl (fun latest m => m.2 latest)
      ((parseUsageObject castF64 members).or latest)
  | .array items, latest => collectUsageOfItems items latest
  | _, latest => latest

def collectUsageOfItems : List Json → Option UsageStats → Option UsageStats
  | [], latest => latest
  | v :: vs, latest => collectUsageOfItems vs (collectLatestUsage v latest)

/-- For each member what going through it does; the map decides the order. -/
def collectUsageOfMembers : List (String × Json) → List (String × (Option UsageStats → Option UsageStats))
  | [] => []
  | (name, v) :: ms => (name, collectLatestUsage v) :: collectUsageOfMembers ms

end

/-- Something was used, as far as the object says. -/
def UsageStats.counts (u : UsageStats) : Bool := decide (0 < u.totalTokens) || u.estimatedCostMicrousd.isSome

def usageFromRawText (rawText : List Char) : Option UsageStats :=
  let latest := (lines rawText).foldl (fun latest line =>
    (fromStr parse line).elim latest fun value => collectLatestUsage castF64 value latest) none
  latest.filter UsageStats.counts

/-- The patch has an identifier of its own, and is read on the tree as it is. -/
def outputFromRawText (sha256Hex : String → String) (id : String) (cwd : FsTree) (agentId : String)
    (rawText : List Char) : DiffResult AgentOutput := do
  let usage := usageFromRawText parse castF64 rawText
  let patchInput := extractPatchCandidateText parse rawText
  let patch ← NvPatch.fromUnifiedDiff sha256Hex id cwd (String.ofList patchInput)
  pure { agentId := agentId
         rawText := String.ofList rawText
         proposedPatch := patch.filter fun patch => !patch.isEmpty
         toolCalls := []
         cost := usage }

/-! ### The last object -/

def usageOfScanned (o : ScannedObject) : Option UsageStats :=
  match o.value with
  | .object members => parseUsageObject castF64 members
  | _ => none

/-- What the objects in a value say, in the order they are gone through. -/
def usagesIn (v : Json) : List UsageStats := (collectObjects false v).filterMap (usageOfScanned castF64)

/-- What the objects in the events say. -/
def usages (rawText : List Char) : List UsageStats :=
  (lines rawText).flatMap fun line => (fromStr parse line).elim [] (usagesIn castF64)

/-- Going through a list keeps the last, if going through each of it does. -/
theorem foldl_latest {α β : Type} {visit : α → Option β → Option β} {found : α → List β} {xs : List α}
    (h : ∀ x ∈ xs, ∀ latest, visit x latest = (found x).getLast?.or latest) (latest : Option β) :
    xs.foldl (fun latest x => visit x latest) latest = (xs.flatMap found).getLast?.or latest := by
  induction xs generalizing latest with
  | nil => rfl
  | cons x xs ih =>
    obtain ⟨hx, hxs⟩ := List.forall_mem_cons.mp h
    rw [List.foldl_cons, hx, ih hxs, List.flatMap_cons, List.getLast?_append, Option.or_assoc]

theorem collectUsageOfItems_eq (items : List Json) (latest : Option UsageStats) :
    collectUsageOfItems castF64 items latest = items.foldl (fun latest v => collectLatestUsage castF64 v latest) latest := by
  induction items generalizing latest with
  | nil => rfl
  | cons v vs ih => rw [collectUsageOfItems, ih, List.foldl_cons]

theorem collectUsageOfMembers_eq (members : List (String × Json)) :
    collectUsageOfMembers castF64 members = members.map fun m => (m.1, collectLatestUsage castF64 m.2) := by
  induction members with
  | nil => rfl
  | cons m ms ih => rw [collectUsageOfMembers, ih, List.map_cons]

theorem collectFromMembers_eq (keys : Bool) (members : List (String × Json)) :
    collectFromMembers keys members = members.map fun m => (m.1, collectObjects keys m.2) := by
  induction members with
  | nil => rfl
  | cons m ms ih => rw [collectFromMembers, ih, List.map_cons]

theorem usagesIn_array (items : List Json) : usagesIn castF64 (.array items) = items.flatMap (usagesIn castF64) := by
  have hitems : ∀ vs : List Json, collectFromItems false vs = vs.flatMap (collectObjects false) := fun vs => by
    induction vs with
    | nil => rfl
    | cons v vs ih => rw [collectFromItems, ih, List.flatMap_cons]
  rw [usagesIn, collectObjects, hitems, List.filterMap_flatMap]
  rfl

theorem usagesIn_object (members : List (String × Json)) : usagesIn castF64 (.object members) =
    (parseUsageObject castF64 members).toList ++ (Json.entries members).flatMap fun m => usagesIn castF64 m.2 := by
  have hflat : (((Json.entries (collectFromMembers false members)).map Prod.snd).flatten).filterMap (usageOfScanned castF64) =
      (Json.entries members).flatMap fun m => usagesIn castF64 m.2 := by
    rw [collectFromMembers_eq, Json.entries_map, List.map_map, ← List.flatMap_def, List.filterMap_flatMap]
    rfl
  have hfirst : usageOfScanned castF64 ⟨.object members, false⟩ = parseUsageObject castF64 members := rfl
  rw [usagesIn, collectObjects, List.filterMap_cons, hflat, hfirst]
  cases parseUsageObject castF64 members <;> rfl

/-- **Going through a value** keeps the last of what its objects say. -/
theorem collectLatestUsage_eq (v : Json) (latest : Option UsageStats) :
    collectLatestUsage castF64 v latest = (usagesIn castF64 v).getLast?.or latest := by
  induction v using Json.induct generalizing latest with
  | null => rfl
  | bool b => rfl
  | number text => rfl
  | string s => rfl
  | array items ih => rw [collectLatestUsage, collectUsageOfItems_eq, usagesIn_array, foldl_latest ih]
  | object members ih =>
    rw [collectLatestUsage, collectUsageOfMembers_eq, Json.entries_map, List.foldl_map, usagesIn_object,
      foldl_latest fun m hm => ih m (Json.mem_of_mem_entries hm), List.getLast?_append, Option.or_assoc]
    cases parseUsageObject castF64 members <;> rfl

/-- **The usage of an output** is what the last object says that says any, unless that is nothing. -/
theorem usageFromRawText_eq (rawText : List Char) :
    usageFromRawText parse castF64 rawText = (usages parse castF64 rawText).getLast?.filter UsageStats.counts := by
  have hline : ∀ line ∈ lines rawText, ∀ latest,
      ((fromStr parse line).elim latest fun value => collectLatestUsage castF64 value latest) =
        ((fromStr parse line).elim [] (usagesIn castF64)).getLast?.or latest := fun line _ latest => by
    cases fromStr parse line with
    | none => rfl
    | some value => exact collectLatestUsage_eq castF64 value latest
  rw [usageFromRawText, usages, foldl_latest hline, Option.or_none]

end usage

/-! ### Events after events -/

theorem lines_append (a b : List Char) : lines (a ++ ['\n'] ++ b) = lines (a ++ ['\n']) ++ lines b := by
  rw [lines_eq, lines_eq, lines_eq, List.append_assoc, List.singleton_append, splitInclusive_append, List.map_append]

/-- Each object that is gone through stands in the value. -/
theorem inside_of_mem_collectObjects {keys : Bool} {v : Json} {o : ScannedObject} (h : o ∈ collectObjects keys v) :
    ∃ members, o.value = .object members ∧ Inside (.object members) v := by
  induction v using Json.induct with
  | null => cases h
  | bool b => cases h
  | number text => cases h
  | string s => cases h
  | array items ih =>
    rw [collectObjects] at h
    obtain ⟨v, hv, ho⟩ := mem_collectFromItems.mp h
    obtain ⟨members, heq, hinside⟩ := ih v hv ho
    exact ⟨members, heq, .item hv hinside⟩
  | object ms ih =>
    rw [collectObjects] at h
    rcases List.mem_cons.mp h with rfl | h
    · exact ⟨ms, rfl, .self⟩
    · rw [collectFromMembers_eq, Json.entries_map, List.map_map, ← List.flatMap_def] at h
      obtain ⟨m, hm, ho⟩ := List.mem_flatMap.mp h
      obtain ⟨members, heq, hinside⟩ := ih m (Json.mem_of_mem_entries hm) ho
      exact ⟨members, heq, .member (Json.mem_of_mem_entries hm) hinside⟩

section events

variable {parse : List Char → Option (Json × List Char)} {castF64 : List Char → Option Nat}

/-- The object names what was used: tokens of input or output that are not zero, a total or a cost, zero or not. -/
def NamesUsage (castF64 : List Char → Option Nat) (members : List (String × Json)) : Prop :=
  (∃ keys ∈ [inputKeys, outputKeys], ∃ tokens, firstU64 castF64 members keys = some tokens ∧ 0 < tokens) ∨
    ∃ keys ∈ [["total_tokens"], costKeys], firstU64 castF64 members keys ≠ none

theorem parseUsageObject_isSome {members : List (String × Json)} :
    (parseUsageObject castF64 members).isSome = true ↔ NamesUsage castF64 members := by
  have hzero (tokens : Option Nat) : tokens.getD 0 = 0 ↔ ¬∃ n, tokens = some n ∧ 0 < n := by
    cases tokens <;> simp
  rw [← not_iff_not, Bool.not_eq_true, Option.isSome_eq_false_iff, Option.isNone_iff_eq_none]
  simp only [parseUsageObject, NamesUsage, List.mem_cons, List.not_mem_nil, or_false, exists_eq_or_imp, exists_eq_left,
    hzero, not_or, ne_eq, not_not]
  split_ifs <;> simp_all

/-- Some object somewhere in a value of an event says what was used. -/
def Tells (parse : List Char → Option (Json × List Char)) (castF64 : List Char → Option Nat) (line : List Char) : Prop :=
  ∃ v members, fromStr parse line = some v ∧ Inside (.object members) v ∧ NamesUsage castF64 members

theorem usages_append (earlier later : List Char) : usages parse castF64 (earlier ++ ['\n'] ++ later) =
    usages parse castF64 (earlier ++ ['\n']) ++ usages parse castF64 later := by
  rw [usages, lines_append, List.flatMap_append]
  rfl

theorem tells_of_usagesIn {line : List Char} {v : Json} (hv : fromStr parse line = some v) (h : usagesIn castF64 v ≠ []) :
    Tells parse castF64 line := by
  obtain ⟨u, hu⟩ := List.exists_mem_of_ne_nil _ h
  obtain ⟨o, ho, husage⟩ := List.mem_filterMap.mp hu
  obtain ⟨members, heq, hinside⟩ := inside_of_mem_collectObjects ho
  rw [usageOfScanned, heq] at husage
  exact ⟨v, members, hv, hinside, parseUsageObject_isSome.mp (Option.isSome_of_eq_some husage)⟩

/-- Where no name is repeated, each object is gone through. -/
theorem usages_eq_nil_iff {text : List Char}
    (hplain : ∀ line ∈ lines text, ∀ v, fromStr parse line = some v → v.hasDuplicateKeys = false) :
    usages parse castF64 text = [] ↔ ∀ line ∈ lines text, ¬Tells parse castF64 line := by
  rw [usages, List.flatMap_eq_nil_iff]
  refine forall₂_congr fun line hline => ?_
  constructor
  · rintro h ⟨v, members, hv, hinside, hnames⟩
    rw [hv] at h
    obtain ⟨u, hu⟩ := Option.isSome_iff_exists.mp (parseUsageObject_isSome.mpr hnames)
    have hmem : u ∈ usagesIn castF64 v :=
      List.mem_filterMap.mpr ⟨_, mem_collectObjects hinside (hplain line hline v hv), hu⟩
    exact List.ne_nil_of_mem hmem h
  · intro h
    cases hv : fromStr parse line with
    | none => rfl
    | some v =>
      by_contra hne
      exact h (tells_of_usagesIn hv hne)

/-- **Later events decide alone** what was used, if any of them says so, also if it says that in total it was nothing;
otherwise what was said before stands. -/
theorem usage_of_later_events {earlier later : List Char}
    (hplain : ∀ line ∈ lines later, ∀ v, fromStr parse line = some v → v.hasDuplicateKeys = false) :
    ((∃ line ∈ lines later, Tells parse castF64 line) →
      usageFromRawText parse castF64 (earlier ++ ['\n'] ++ later) = usageFromRawText parse castF64 later) ∧
    ((∀ line ∈ lines later, ¬Tells parse castF64 line) →
      usageFromRawText parse castF64 (earlier ++ ['\n'] ++ later) = usageFromRawText parse castF64 (earlier ++ ['\n'])) := by
  have hempty : usages parse castF64 later = [] ↔ ∀ line ∈ lines later, ¬Tells parse castF64 line :=
    usages_eq_nil_iff hplain
  simp only [usageFromRawText_eq, usages_append, List.getLast?_append]
  constructor
  · rintro ⟨line, hline, htells⟩
    have hne : usages parse castF64 later ≠ [] := fun hnil => hempty.mp hnil line hline htells
    rw [List.getLast?_eq_some_getLast hne, Option.some_or]
  · intro h
    rw [hempty.mpr h, List.getLast?_nil, Option.none_or]

end events

/-- An event that says that something was used, and one that says that in total nothing was. -/
def spent : List Char := "\x7b\"output_tokens\": 9\x7d".toList

def unspent : List Char := "\x7b\"total_tokens\": 0\x7d".toList

theorem usage_of_later_events_unspent :
    usageFromRawText read (fun _ => none) (spent ++ ['\n']) = some ⟨0, 9, none⟩ ∧
    usageFromRawText read (fun _ => none) (spent ++ ['\n'] ++ unspent) = none := by
  have hread : fromStr read unspent = some (.object (membersOf unspent)) := by
    rw [fromStr, read_membersOf (by decide +kernel)]
    rfl
  have hlines : lines unspent = [unspent] := by decide +kernel
  have hplain : ∀ line ∈ lines unspent, ∀ v, fromStr read line = some v → v.hasDuplicateKeys = false := by
    rw [hlines]
    intro line hline v hv
    obtain rfl := List.mem_singleton.mp hline
    rw [hread] at hv
    cases hv
    decide +kernel
  refine ⟨by decide +kernel, ?_⟩
  have htells : ∃ line ∈ lines unspent, Tells read (fun _ => none) line := by
    refine ⟨unspent, ?_, _, _, hread, .self, parseUsageObject_isSome.mp (by decide +kernel)⟩
    rw [hlines]
    exact List.mem_singleton_self _
  rw [(usage_of_later_events hplain).1 htells]
  decide +kernel

end Nerve.Adapter
