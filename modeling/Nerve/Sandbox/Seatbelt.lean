import Nerve.Library.SExpr
import Mathlib.Data.List.GetD
import Mathlib.Data.List.Range

/-!
# The Seatbelt profile

The text that `sandbox-exec` gets, and what it means there. `seatbeltProfile` is the text, and `readProfile` reads a
text as directives; what the text is read as is a template that is chosen by the flags and by how many paths there
are, with the paths in it (`readProfile_seatbeltProfile`). The directives are read so that the last one that matches an
operation decides. When a path is below another one is for the system to say, and is a parameter here.
-/

namespace Nerve.Sandbox

open SExpr

/-! ### The text -/

/-- `sbpl_string`. -/
def sbplString (s : List Char) : List Char :=
  '"' :: (s.flatMap (fun c => if c = '"' ∨ c = '\\' then ['\\', c] else [c]) ++ ['"'])

/-- One line of a list of paths. -/
def subpathLine (path : List Char) : List Char := "    (subpath ".toList ++ (sbplString path ++ ")\n".toList)

/-- `seatbelt_profile`. -/
def seatbeltProfile (writableRoots : List (List Char)) (allowNetwork strict : Bool)
    (sensitiveReadPaths : List (List Char)) : List Char :=
  "(version 1)\n(allow default)\n(deny file-write*)\n".toList ++
  (if writableRoots.isEmpty then []
    else "(allow file-write*\n".toList ++ (writableRoots.flatMap subpathLine ++ ")\n".toList)) ++
  (if allowNetwork then [] else "(deny network*)\n".toList) ++
  if strict then
    ("(deny mach-lookup\n    (global-name \"com.apple.cfprefsd.agent\")\n    " ++
      "(global-name \"com.apple.cfprefsd.daemon\"))\n").toList ++
    (if allowNetwork then []
      else ("(deny mach-lookup\n    (global-name \"com.apple.mDNSResponder\")\n    " ++
        "(global-name \"com.apple.mDNSResponder.dnsproxy\"))\n").toList) ++
    (if sensitiveReadPaths.isEmpty then []
      else "(deny file-read*\n".toList ++ (sensitiveReadPaths.flatMap subpathLine ++ ")\n".toList))
  else []

/-! ### What it says -/

inductive Action where
  | allow
  | deny
  deriving DecidableEq, Repr

/-- What a directive is restricted to, over any kind of strings. -/
inductive Filter (σ : Type) where
  | subpath (path : σ)
  | globalName (name : σ)
  deriving DecidableEq, Repr

inductive Directive (σ : Type) where
  | version (v : List Char)
  | rule (action : Action) (operation : List Char) (filters : List (Filter σ))
  deriving DecidableEq, Repr

def readFilter : SExpr → Option (Filter (List Char))
  | .list [.atom kind, .str s] =>
    if kind = "subpath".toList then some (.subpath s)
    else if kind = "global-name".toList then some (.globalName s)
    else none
  | _ => none

def readAction (name : List Char) : Option Action :=
  if name = "allow".toList then some .allow else if name = "deny".toList then some .deny else none

def readDirective : SExpr → Option (Directive (List Char))
  | .list (.atom head :: .atom argument :: filters) =>
    if head = "version".toList ∧ filters.isEmpty then some (.version argument)
    else do
      let action ← readAction head
      let filters ← filters.mapM readFilter
      pure (.rule action argument filters)
  | _ => none

/-- A text, read as directives. -/
def readProfile (text : List Char) : Option (List (Directive (List Char))) :=
  (SExpr.read text).bind fun items => items.mapM readDirective

def Filter.expr : Filter (List Char) → SExpr
  | .subpath path => .list [.atom "subpath".toList, .str path]
  | .globalName name => .list [.atom "global-name".toList, .str name]

def Action.name : Action → List Char
  | .allow => "allow".toList
  | .deny => "deny".toList

def Directive.expr : Directive (List Char) → SExpr
  | .version v => .list [.atom "version".toList, .atom v]
  | .rule action operation filters => .list (.atom action.name :: .atom operation :: filters.map Filter.expr)

theorem readFilter_expr (f : Filter (List Char)) : readFilter f.expr = some f := by
  cases f <;> rfl

theorem mapM_map {α β : Type} {f : α → Option β} {g : β → α} (h : ∀ b, f (g b) = some b) (bs : List β) :
    (bs.map g).mapM f = some bs := by
  induction bs with
  | nil => rfl
  | cons b bs ih => rw [List.map_cons, List.mapM_cons, h, ih]; rfl

theorem readDirective_expr (d : Directive (List Char)) : readDirective d.expr = some d := by
  cases d with
  | version v => rfl
  | rule action operation filters =>
    have hfilters := mapM_map readFilter_expr filters
    cases action
    all_goals
      simp only [Directive.expr, readDirective, hfilters]
      rfl

/-- The directives of a profile. -/
def directives (writableRoots : List (List Char)) (allowNetwork strict : Bool)
    (sensitiveReadPaths : List (List Char)) : List (Directive (List Char)) :=
  [.version "1".toList, .rule .allow "default".toList [], .rule .deny "file-write*".toList []] ++
  (if writableRoots.isEmpty then [] else [.rule .allow "file-write*".toList (writableRoots.map .subpath)]) ++
  (if allowNetwork then [] else [.rule .deny "network*".toList []]) ++
  if strict then
    [.rule .deny "mach-lookup".toList
      [.globalName "com.apple.cfprefsd.agent".toList, .globalName "com.apple.cfprefsd.daemon".toList]] ++
    (if allowNetwork then []
      else [.rule .deny "mach-lookup".toList
        [.globalName "com.apple.mDNSResponder".toList, .globalName "com.apple.mDNSResponder.dnsproxy".toList]]) ++
    (if sensitiveReadPaths.isEmpty then [] else [.rule .deny "file-read*".toList (sensitiveReadPaths.map .subpath)])
  else []

/-! ### Reading the text -/

theorem lexRun_escaped (read s : List Char) :
    lexRun (.str read) (s.flatMap (fun c => if c = '"' ∨ c = '\\' then ['\\', c] else [c]) ++ ['"']) =
      ([.str (read ++ s)], .blank) := by
  induction s generalizing read with
  | nil => simp [lexRun, lexStep]
  | cons c s ih =>
    rw [List.flatMap_cons, List.append_assoc, lexRun_append]
    by_cases hc : c = '"' ∨ c = '\\'
    · have hstep : lexRun (.str read) ['\\', c] = ([], .str (read ++ [c])) := rfl
      rw [if_pos hc, hstep, ih, List.append_assoc]
      rfl
    · have hstep : lexRun (.str read) [c] = ([], .str (read ++ [c])) := by
        rw [not_or] at hc
        rw [lexRun, lexStep, if_neg hc.1, if_neg hc.2]
        rfl
      rw [if_neg hc, hstep, ih, List.append_assoc]
      rfl

theorem lexes_sbplString (s : List Char) : Lexes (sbplString s) [.str s] := lexRun_escaped [] s

theorem lexes_subpathLine (path : List Char) : Lexes (subpathLine path) (tokens (Filter.subpath path).expr) := by
  have hopen : Lexes "    (subpath ".toList [.opening, .atom "subpath".toList] := by decide
  have hclose : Lexes ")\n".toList [.closing] := by decide
  exact hopen.append ((lexes_sbplString path).append hclose)

/-- The text is that of the directives. -/
def Says (text : List Char) (ds : List (Directive (List Char))) : Prop := Lexes text (tokensOf (ds.map Directive.expr))

instance (text : List Char) (ds : List (Directive (List Char))) : Decidable (Says text ds) :=
  inferInstanceAs (Decidable (Lexes _ _))

theorem Says.nil : Says [] [] := Lexes.nil

theorem Says.append {s t : List Char} {ds es : List (Directive (List Char))} (hs : Says s ds) (ht : Says t es) :
    Says (s ++ t) (ds ++ es) := by
  rw [Says, List.map_append, tokensOf_append]
  exact Lexes.append hs ht

theorem Says.ite {s t : List Char} {ds es : List (Directive (List Char))} {b : Bool} (hs : Says s ds) (ht : Says t es) :
    Says (if b then s else t) (if b then ds else es) := by
  cases b
  · exact ht
  · exact hs

/-- A rule with a line for each path. -/
theorem says_pathRule {heading operation : List Char} {action : Action}
    (h : Lexes heading [.opening, .atom action.name, .atom operation]) (paths : List (List Char)) :
    Says (heading ++ (paths.flatMap subpathLine ++ ")\n".toList)) [.rule action operation (paths.map .subpath)] := by
  have hlines : Lexes (paths.flatMap subpathLine) (tokensOf ((paths.map Filter.subpath).map Filter.expr)) := by
    rw [List.map_map, tokensOf_map]
    exact Lexes.flatMap lexes_subpathLine paths
  have hclose : Lexes ")\n".toList [.closing] := by decide
  rw [Says, List.map_singleton, tokensOf, tokensOf, List.append_nil]
  exact Lexes.append h (hlines.append hclose)

theorem says_seatbeltProfile (writableRoots : List (List Char)) (allowNetwork strict : Bool)
    (sensitiveReadPaths : List (List Char)) :
    Says (seatbeltProfile writableRoots allowNetwork strict sensitiveReadPaths)
      (directives writableRoots allowNetwork strict sensitiveReadPaths) := by
  have hbase : Says "(version 1)\n(allow default)\n(deny file-write*)\n".toList
      [.version "1".toList, .rule .allow "default".toList [], .rule .deny "file-write*".toList []] := by
    -- The characters are read off the literals by a lemma: to evaluate `toList` on them is slow.
    repeat rw [String.toList_ofList]
    decide
  have hroots : Says _ [.rule .allow "file-write*".toList (writableRoots.map .subpath)] :=
    says_pathRule (by decide : Lexes "(allow file-write*\n".toList _) writableRoots
  have hnetwork : Says "(deny network*)\n".toList [.rule .deny "network*".toList []] := by
    repeat rw [String.toList_ofList]
    decide
  have hpreferences : Says ("(deny mach-lookup\n    (global-name \"com.apple.cfprefsd.agent\")\n    " ++
      "(global-name \"com.apple.cfprefsd.daemon\"))\n").toList [.rule .deny "mach-lookup".toList
        [.globalName "com.apple.cfprefsd.agent".toList, .globalName "com.apple.cfprefsd.daemon".toList]] := by
    rw [String.toList_append]
    repeat rw [String.toList_ofList]
    decide
  have hresolver : Says ("(deny mach-lookup\n    (global-name \"com.apple.mDNSResponder\")\n    " ++
      "(global-name \"com.apple.mDNSResponder.dnsproxy\"))\n").toList [.rule .deny "mach-lookup".toList
        [.globalName "com.apple.mDNSResponder".toList, .globalName "com.apple.mDNSResponder.dnsproxy".toList]] := by
    rw [String.toList_append]
    repeat rw [String.toList_ofList]
    decide
  have hreads : Says _ [.rule .deny "file-read*".toList (sensitiveReadPaths.map .subpath)] :=
    says_pathRule (by decide : Lexes "(deny file-read*\n".toList _) sensitiveReadPaths
  exact ((hbase.append (Says.nil.ite hroots)).append (Says.nil.ite hnetwork)).append
    (((hpreferences.append (Says.nil.ite hresolver)).append (Says.nil.ite hreads)).ite Says.nil)

theorem readProfile_of_says {text : List Char} {ds : List (Directive (List Char))} (h : Says text ds) :
    readProfile text = some ds := by
  rw [readProfile, read_of_lexes h]
  exact mapM_map readDirective_expr ds

/-! ### The template -/

/-- The shape of a profile, with a number in the place of each path. -/
def template (allowNetwork strict : Bool) (roots sensitive : Nat) : List (Directive (List Char ⊕ Nat)) :=
  [.version "1".toList, .rule .allow "default".toList [], .rule .deny "file-write*".toList []] ++
  (if roots = 0 then []
    else [.rule .allow "file-write*".toList ((List.range roots).map fun i => .subpath (.inr i))]) ++
  (if allowNetwork then [] else [.rule .deny "network*".toList []]) ++
  if strict then
    [.rule .deny "mach-lookup".toList [.globalName (.inl "com.apple.cfprefsd.agent".toList),
      .globalName (.inl "com.apple.cfprefsd.daemon".toList)]] ++
    (if allowNetwork then []
      else [.rule .deny "mach-lookup".toList [.globalName (.inl "com.apple.mDNSResponder".toList),
        .globalName (.inl "com.apple.mDNSResponder.dnsproxy".toList)]]) ++
    (if sensitive = 0 then []
      else [.rule .deny "file-read*".toList ((List.range sensitive).map fun i => .subpath (.inr (roots + i)))])
  else []

def Filter.map {σ τ : Type} (f : σ → τ) : Filter σ → Filter τ
  | .subpath path => .subpath (f path)
  | .globalName name => .globalName (f name)

def Directive.map {σ τ : Type} (f : σ → τ) : Directive σ → Directive τ
  | .version v => .version v
  | .rule action operation filters => .rule action operation (filters.map (Filter.map f))

/-- The strings of a directive, in their order. -/
def Directive.strings {σ : Type} : Directive σ → List σ
  | .version _ => []
  | .rule _ _ filters => filters.map fun
    | .subpath path => path
    | .globalName name => name

/-- A constant as it is, and a number as the path that it is the number of. -/
def fill (paths : List (List Char)) : List Char ⊕ Nat → List Char
  | .inl s => s
  | .inr i => paths.getD i []

theorem map_fill_range (before paths after : List (List Char)) :
    ((List.range paths.length).map fun i => Filter.subpath (.inr (before.length + i))).map
      (Filter.map (fill (before ++ (paths ++ after)))) = paths.map .subpath := by
  refine List.ext_getElem (by simp) fun i hi hi' => ?_
  have hlt : i < paths.length := by simpa using hi'
  simp only [List.getElem_map, List.getElem_range, Filter.map, fill]
  rw [List.getD_append_right _ _ _ _ (Nat.le_add_right _ _), Nat.add_sub_cancel_left, List.getD_append _ _ _ _ hlt,
    List.getD_eq_getElem _ _ hlt]

/-- A rule for the paths, if there are any. -/
theorem ite_paths_eq {paths : List (List Char)} {f : List Char ⊕ Nat → List Char} {d : Directive (List Char ⊕ Nat)}
    {e : Directive (List Char)} (h : d.map f = e) :
    (if paths.isEmpty then [] else [e]) = (if paths.length = 0 then [] else [d]).map (Directive.map f) := by
  subst h
  cases paths <;> rfl

theorem directives_eq_template (writableRoots : List (List Char)) (allowNetwork strict : Bool)
    (sensitiveReadPaths : List (List Char)) :
    directives writableRoots allowNetwork strict sensitiveReadPaths =
      (template allowNetwork strict writableRoots.length sensitiveReadPaths.length).map
        (Directive.map (fill (writableRoots ++ sensitiveReadPaths))) := by
  have hroots := map_fill_range [] writableRoots sensitiveReadPaths
  have hsensitive := map_fill_range writableRoots sensitiveReadPaths []
  rw [List.append_nil] at hsensitive
  simp only [List.nil_append, List.length_nil, Nat.zero_add] at hroots
  rw [directives, template, List.map_append, List.map_append, List.map_append]
  refine congrArg₂ _ (congrArg₂ _ (congrArg₂ _ rfl (ite_paths_eq ?_)) ?_) ?_
  · rw [Directive.map, hroots]
  · cases allowNetwork <;> rfl
  · cases strict
    · rfl
    · simp only [if_true, List.map_append]
      refine congrArg₂ _ (congrArg₂ _ rfl ?_) (ite_paths_eq ?_)
      · cases allowNetwork <;> rfl
      · rw [Directive.map, hsensitive]

/-- The numbers in a template, in their order. -/
def numbers (ds : List (Directive (List Char ⊕ Nat))) : List Nat :=
  (ds.flatMap Directive.strings).filterMap Sum.getRight?

theorem numbers_append (ds es : List (Directive (List Char ⊕ Nat))) : numbers (ds ++ es) = numbers ds ++ numbers es := by
  rw [numbers, List.flatMap_append, List.filterMap_append]
  rfl

theorem numbers_paths (action : Action) (operation : List Char) (k n : Nat) :
    numbers (if n = 0 then [] else [.rule action operation ((List.range n).map fun i => .subpath (.inr (k + i)))]) =
      (List.range n).map (k + ·) := by
  by_cases h : n = 0
  · rw [if_pos h, h]
    rfl
  · rw [if_neg h, numbers, List.flatMap_singleton, Directive.strings, List.map_map, List.filterMap_map]
    exact congrFun (List.filterMap_eq_map (f := (k + ·))) _

theorem numbers_template (allowNetwork strict : Bool) (roots sensitive : Nat) :
    numbers (template allowNetwork strict roots sensitive) = List.range (if strict then roots + sensitive else roots) := by
  have hroots := numbers_paths .allow "file-write*".toList 0 roots
  have hsensitive := numbers_paths .deny "file-read*".toList roots sensitive
  simp only [Nat.zero_add, List.map_id'] at hroots
  have hnetwork : numbers (if allowNetwork then [] else [.rule .deny "network*".toList []]) = [] := by
    cases allowNetwork <;> rfl
  rw [template, numbers_append, numbers_append, numbers_append, hroots, hnetwork, List.append_nil]
  cases strict
  · exact List.append_nil _
  · simp only [if_true, numbers_append, hsensitive, List.range_add]
    cases allowNetwork <;> rfl

/-! ### What a profile permits -/

/-- What an operation is done to. -/
inductive Object where
  | path (p : List Char)
  | service (name : List Char)
  | other
  deriving DecidableEq, Repr

structure Request where
  operation : List Char
  object : Object

/-- A star at the end stands for any ending, and `default` for any operation. -/
def operationMatches (pattern operation : List Char) : Bool :=
  pattern == "default".toList ||
    if pattern.getLast? = some '*' then pattern.dropLast.isPrefixOf operation else pattern == operation

section permits

variable (under : List Char → List Char → Bool)

def Filter.holds (object : Object) : Filter (List Char) → Bool
  | .subpath root => match object with
    | .path p => under root p
    | _ => false
  | .globalName name => object == .service name

/-- The directive decides about the request, as far as it is concerned. -/
def Directive.applies (request : Request) : Directive (List Char) → Option Action
  | .version _ => none
  | .rule action operation filters =>
    if operationMatches operation request.operation && (filters.isEmpty || filters.any (Filter.holds under request.object))
    then some action
    else none

/-- The last directive that applies decides. -/
def ruling (ds : List (Directive (List Char))) (request : Request) : Option Action :=
  (ds.filterMap (Directive.applies under request)).getLast?

def Permits (ds : List (Directive (List Char))) (request : Request) : Prop := ruling under ds request = some .allow

variable {under}

theorem ruling_append (ds es : List (Directive (List Char))) (request : Request) :
    ruling under (ds ++ es) request = (ruling under es request).or (ruling under ds request) := by
  rw [ruling, List.filterMap_append, List.getLast?_append]
  rfl

theorem ruling_eq_none {ds : List (Directive (List Char))} {request : Request}
    (h : ∀ d ∈ ds, d.applies under request = none) : ruling under ds request = none := by
  rw [ruling, List.filterMap_eq_nil_iff.mpr h]
  rfl

theorem applies_of_not_matches {action : Action} {pattern : List Char} {filters : List (Filter (List Char))}
    {request : Request} (h : operationMatches pattern request.operation = false) :
    (Directive.rule action pattern filters).applies under request = none := by
  rw [Directive.applies, h]
  rfl

theorem applies_paths {action : Action} {pattern p : List Char} {request : Request} {paths : List (List Char)}
    (h : operationMatches pattern request.operation = true) (hpath : request.object = .path p) (hne : paths.isEmpty = false) :
    (Directive.rule action pattern (paths.map .subpath)).applies under request =
      if paths.any (under · p) then some action else none := by
  have hany : (paths.map Filter.subpath).any (Filter.holds under request.object) = paths.any (under · p) := by
    rw [List.any_map, hpath]
    rfl
  rw [Directive.applies, h, hany, List.isEmpty_map, hne, Bool.false_or, Bool.true_and]

/-- The rules of the strict mode. -/
def strictRules (allowNetwork : Bool) (sensitiveReadPaths : List (List Char)) : List (Directive (List Char)) :=
  [.rule .deny "mach-lookup".toList
    [.globalName "com.apple.cfprefsd.agent".toList, .globalName "com.apple.cfprefsd.daemon".toList]] ++
  (if allowNetwork then []
    else [.rule .deny "mach-lookup".toList
      [.globalName "com.apple.mDNSResponder".toList, .globalName "com.apple.mDNSResponder.dnsproxy".toList]]) ++
  (if sensitiveReadPaths.isEmpty then [] else [.rule .deny "file-read*".toList (sensitiveReadPaths.map .subpath)])

/-- The rules of every mode. -/
def commonRules (writableRoots : List (List Char)) (allowNetwork : Bool) : List (Directive (List Char)) :=
  [.version "1".toList, .rule .allow "default".toList [], .rule .deny "file-write*".toList []] ++
  (if writableRoots.isEmpty then [] else [.rule .allow "file-write*".toList (writableRoots.map .subpath)]) ++
  (if allowNetwork then [] else [.rule .deny "network*".toList []])

theorem directives_eq (writableRoots : List (List Char)) (allowNetwork strict : Bool)
    (sensitiveReadPaths : List (List Char)) :
    directives writableRoots allowNetwork strict sensitiveReadPaths =
      commonRules writableRoots allowNetwork ++ if strict then strictRules allowNetwork sensitiveReadPaths else [] := rfl

section pieces

variable {action : Action} {pattern : List Char} {request : Request}

theorem ruling_paths {p : List Char} (h : operationMatches pattern request.operation = true)
    (hpath : request.object = .path p) (paths : List (List Char)) :
    ruling under (if paths.isEmpty then [] else [.rule action pattern (paths.map .subpath)]) request =
      if paths.any (under · p) then some action else none := by
  cases hempty : paths.isEmpty with
  | true =>
    rw [List.isEmpty_iff.mp hempty]
    rfl
  | false =>
    rw [ruling, if_neg Bool.false_ne_true, List.filterMap_cons, applies_paths h hpath hempty]
    split_ifs <;> rfl

theorem ruling_paths_none (h : operationMatches pattern request.operation = false) (paths : List (List Char)) :
    ruling under (if paths.isEmpty then [] else [.rule action pattern (paths.map .subpath)]) request = none := by
  refine ruling_eq_none fun d hd => ?_
  split_ifs at hd
  · cases hd
  · rw [List.mem_singleton.mp hd]
    exact applies_of_not_matches h

theorem ruling_network_none (h : operationMatches "network*".toList request.operation = false) (allowNetwork : Bool) :
    ruling under (if allowNetwork then [] else [.rule .deny "network*".toList []]) request = none := by
  refine ruling_eq_none fun d hd => ?_
  split_ifs at hd
  · cases hd
  · rw [List.mem_singleton.mp hd]
    exact applies_of_not_matches h

theorem mem_strictRules {d : Directive (List Char)} {allowNetwork : Bool} {sensitiveReadPaths : List (List Char)}
    (h : d ∈ strictRules allowNetwork sensitiveReadPaths) :
    ∃ pattern filters, d = .rule .deny pattern filters ∧ (pattern = "mach-lookup".toList ∨ pattern = "file-read*".toList) := by
  obtain h | h := List.mem_append.mp h
  · obtain h | h := List.mem_append.mp h
    · exact ⟨_, _, List.mem_singleton.mp h, .inl rfl⟩
    · split_ifs at h
      · cases h
      · exact ⟨_, _, List.mem_singleton.mp h, .inl rfl⟩
  · split_ifs at h
    · cases h
    · exact ⟨_, _, List.mem_singleton.mp h, .inr rfl⟩

/-- The strict mode permits nothing. -/
theorem ruling_strictRules (allowNetwork : Bool) (sensitiveReadPaths : List (List Char)) :
    ruling under (strictRules allowNetwork sensitiveReadPaths) request ≠ some .allow := by
  intro h
  have hmem := List.mem_of_getLast? h
  obtain ⟨d, hd, happlies⟩ := List.mem_filterMap.mp hmem
  obtain ⟨pattern, filters, rfl, -⟩ := mem_strictRules hd
  rw [Directive.applies] at happlies
  split_ifs at happlies
  cases happlies

theorem ruling_strict_none (hlookup : operationMatches "mach-lookup".toList request.operation = false)
    (hread : operationMatches "file-read*".toList request.operation = false) (allowNetwork strict : Bool)
    (sensitiveReadPaths : List (List Char)) :
    ruling under (if strict then strictRules allowNetwork sensitiveReadPaths else []) request = none := by
  refine ruling_eq_none fun d hd => ?_
  split_ifs at hd
  · obtain ⟨pattern, filters, rfl, rfl | rfl⟩ := mem_strictRules hd
    · exact applies_of_not_matches hlookup
    · exact applies_of_not_matches hread
  · cases hd

end pieces

section families

variable (writableRoots sensitiveReadPaths : List (List Char)) (allowNetwork strict : Bool) (rest p : List Char)

/-- Writes are permitted under the roots. -/
theorem permits_write :
    Permits under (directives writableRoots allowNetwork strict sensitiveReadPaths) ⟨"file-write".toList ++ rest, .path p⟩ ↔
      ∃ root ∈ writableRoots, under root p = true := by
  have hbase : ruling under
      [.version "1".toList, .rule .allow "default".toList [], .rule .deny "file-write*".toList []]
      ⟨"file-write".toList ++ rest, .path p⟩ = some .deny := rfl
  rw [Permits, directives_eq, commonRules, ruling_append, ruling_append, ruling_append, hbase,
    ruling_strict_none rfl rfl, ruling_network_none rfl, ruling_paths rfl rfl, ← List.any_eq_true]
  cases writableRoots.any (under · p) <;> decide

/-- The network is permitted if it is allowed. -/
theorem permits_network (object : Object) :
    Permits under (directives writableRoots allowNetwork strict sensitiveReadPaths) ⟨"network".toList ++ rest, object⟩ ↔
      allowNetwork = true := by
  have hbase : ruling under
      [.version "1".toList, .rule .allow "default".toList [], .rule .deny "file-write*".toList []]
      ⟨"network".toList ++ rest, object⟩ = some .allow := rfl
  rw [Permits, directives_eq, commonRules, ruling_append, ruling_append, ruling_append, hbase,
    ruling_strict_none rfl rfl, ruling_paths_none rfl]
  cases allowNetwork
  · exact iff_of_false (fun h => by cases h) Bool.false_ne_true
  · exact iff_of_true rfl rfl

/-- Reads are forbidden under the sensitive paths, in the strict mode. -/
theorem permits_read :
    Permits under (directives writableRoots allowNetwork strict sensitiveReadPaths) ⟨"file-read".toList ++ rest, .path p⟩ ↔
      ¬(strict = true ∧ ∃ path ∈ sensitiveReadPaths, under path p = true) := by
  have hbase : ruling under
      [.version "1".toList, .rule .allow "default".toList [], .rule .deny "file-write*".toList []]
      ⟨"file-read".toList ++ rest, .path p⟩ = some .allow := rfl
  have hlookups : ruling under ([.rule .deny "mach-lookup".toList
      [.globalName "com.apple.cfprefsd.agent".toList, .globalName "com.apple.cfprefsd.daemon".toList]] ++
      if allowNetwork then []
      else [.rule .deny "mach-lookup".toList
        [.globalName "com.apple.mDNSResponder".toList, .globalName "com.apple.mDNSResponder.dnsproxy".toList]])
      ⟨"file-read".toList ++ rest, .path p⟩ = none := by
    cases allowNetwork <;> rfl
  rw [Permits, directives_eq, commonRules, ruling_append, ruling_append, ruling_append, hbase, ruling_network_none rfl,
    ruling_paths_none rfl]
  cases strict
  · exact iff_of_true rfl fun h => Bool.false_ne_true h.1
  · rw [if_pos rfl, strictRules, ruling_append, hlookups, ruling_paths rfl rfl, ← List.any_eq_true]
    cases sensitiveReadPaths.any (under · p) <;> decide

/-- The strict mode takes away only. -/
theorem permits_of_strict {request : Request}
    (h : Permits under (directives writableRoots allowNetwork true sensitiveReadPaths) request) :
    Permits under (directives writableRoots allowNetwork false sensitiveReadPaths) request := by
  rw [Permits, directives_eq, ruling_append] at h ⊢
  obtain h | ⟨-, h⟩ := Option.or_eq_some_iff.mp h
  · exact absurd h (ruling_strictRules _ _)
  · exact h

end families

end permits

/-- **The profile means what was asked.** Whatever the paths are, its text is read as the directives of a template that
is chosen by the flags and by how many paths there are, with the paths in it one after the other. It permits writes
under the given roots only, and the network if it is allowed, and it forbids to read what is under the sensitive
paths in the strict mode, which permits nothing that the other one forbids. -/
theorem seatbeltProfile_means (under : List Char → List Char → Bool) (writableRoots sensitiveReadPaths : List (List Char))
    (allowNetwork strict : Bool) :
    ∃ ds, readProfile (seatbeltProfile writableRoots allowNetwork strict sensitiveReadPaths) = some ds ∧
      ds = (template allowNetwork strict writableRoots.length sensitiveReadPaths.length).map
        (Directive.map (fill (writableRoots ++ sensitiveReadPaths))) ∧
      numbers (template allowNetwork strict writableRoots.length sensitiveReadPaths.length) =
        List.range (if strict then writableRoots.length + sensitiveReadPaths.length else writableRoots.length) ∧
      (∀ rest p, Permits under ds ⟨"file-write".toList ++ rest, .path p⟩ ↔ ∃ root ∈ writableRoots, under root p = true) ∧
      (∀ rest object, ¬Permits under ds ⟨"network".toList ++ rest, object⟩ ↔ allowNetwork = false) ∧
      (∀ rest p, ¬Permits under ds ⟨"file-read".toList ++ rest, .path p⟩ ↔
        strict = true ∧ ∃ path ∈ sensitiveReadPaths, under path p = true) ∧
      ∃ lax, readProfile (seatbeltProfile writableRoots allowNetwork false sensitiveReadPaths) = some lax ∧
        ∀ request, Permits under ds request → Permits under lax request := by
  refine ⟨_, readProfile_of_says (says_seatbeltProfile _ _ _ _), directives_eq_template _ _ _ _, numbers_template _ _ _ _,
    permits_write _ _ _ _, fun rest object => ?_, fun rest p => ?_, _, readProfile_of_says (says_seatbeltProfile _ _ _ _),
    fun request h => ?_⟩
  · rw [permits_network, Bool.not_eq_true]
  · rw [permits_read, not_not]
  · cases strict
    · exact h
    · exact permits_of_strict _ _ _ h

end Nerve.Sandbox
