import Nerve.Mcp.Allowlist
import Nerve.Mcp.Registry

/-!
# Restrictions only restrict

Three things narrow what the tools of a server can be called with, beside the server's own list: the global
list, the patterns of names that write, and the rules for arguments. Fewer patterns, or fewer
rules, never stop a call. But the global list is put where the server's own belongs, and there membership is
evidence that a tool only reads, and an empty list is no list. So a tool can be callable because of the global
list: `onlyRestricts_iff` says of every call when, and that this is all that goes wrong.
-/

namespace Nerve.Mcp

open Nerve.Patch

/-- The rules are among those of `rules`: no more paths, no more texts. -/
def McpToolArgRules.Among (rules' rules : McpToolArgRules) : Prop :=
  rules'.pathArgs ⊆ rules.pathArgs ∧ ∀ key needles', (key, needles') ∈ rules'.denySubstrings →
    ∃ needles, (key, needles) ∈ rules.denySubstrings ∧ needles' ⊆ needles

/-- No more tools have rules, and those that do have no more. -/
def McpArgumentPolicy.Among (policy' policy : McpArgumentPolicy) : Prop :=
  ∀ tool rules', policy'.tools.lookup tool = some rules' →
    ∃ rules, policy.tools.lookup tool = some rules ∧ rules'.Among rules

/-- The call goes over the wire. -/
def McpClient.Sends (client : McpClient) (call : McpToolCall) : Prop :=
  ∃ answer durationMs request, (client.callTool call answer durationMs).1 = some request

/-- The client that `register_all` has for the name, if the servers start. -/
def clientOf (specs : List McpServerSpec) (guards : McpRegistry.Guards) (answers : Nat → Except McpError Json)
    (name : String) : Option McpClient :=
  match McpRegistry.new.registerAll specs guards answers with
  | (.ok (), r) => r.get name
  | (.error _, _) => none

def Reaches (specs : List McpServerSpec) (guards : McpRegistry.Guards) (answers : Nat → Except McpError Json)
    (name : String) (call : McpToolCall) : Prop :=
  ∃ client, clientOf specs guards answers name = some client ∧ client.Sends call

/-- The tools that are listed when the server starts, if it does. -/
def toolsAtStart (spec : McpServerSpec) (answer : Except McpError Json) : Option (List McpToolInfo) :=
  if spec.command.isEmpty then none
  else
    match answer with
    | .error _ => none
    | .ok value => (parseToolsList spec.name value).toOption

/-- The server of that name and the tools it has listed, if all servers start: the last of the name. -/
def servedFrom (answers : Nat → Except McpError Json) (name : String) :
    Nat → Option (McpServerSpec × List McpToolInfo) → List McpServerSpec → Option (McpServerSpec × List McpToolInfo)
  | _, found, [] => found
  | index, found, spec :: specs =>
    match toolsAtStart spec (answers index) with
    | none => none
    | some tools => servedFrom answers name (index + 1) (if name = spec.name then some (spec, tools) else found) specs

def served (specs : List McpServerSpec) (answers : Nat → Except McpError Json) (name : String) :
    Option (McpServerSpec × List McpToolInfo) := servedFrom answers name 0 none specs

/-- The annotations of a tool of that name say that it only reads. -/
def hasEvidence (tools : List McpToolInfo) (tool : String) : Bool :=
  tools.any fun t => t.name == tool && toolHasReadOnlyEvidence t

/-- Each restriction restricts: a call that is sent is sent as well without the global list, and with fewer patterns
and rules; and nothing but the server's own list and the annotations makes a tool callable that is to read only. -/
structure OnlyRestricts (specs : List McpServerSpec) (guards : McpRegistry.Guards) (answers : Nat → Except McpError Json)
    (name : String) (call : McpToolCall) : Prop where
  lifted : guards.allowTools ≠ [] → Reaches specs guards answers name call →
    Reaches specs { guards with allowTools := [] } answers name call
  fewer : ∀ patterns policy, patterns ≠ [] → patterns ⊆ guards.writePatterns → policy.Among guards.argumentPolicy →
    Reaches specs guards answers name call →
    Reaches specs { guards with writePatterns := patterns, argumentPolicy := policy } answers name call
  evidenced : guards.readOnlyPosture = .denyByDefault → ∀ spec tools, served specs answers name = some (spec, tools) →
    spec.readOnly = true → Reaches specs guards answers name call →
    call.tool ∈ spec.allowedTools ∨ hasEvidence tools call.tool = true

/-! ### What a client sends -/

section Sends

variable {guards : McpRegistry.Guards} {spec : McpServerSpec} {tools : List McpToolInfo} {call : McpToolCall}

/-- The client of a server that has started with these tools. -/
def startedClient (guards : McpRegistry.Guards) (spec : McpServerSpec) (tools : List McpToolInfo) : McpClient :=
  { newClient guards spec with process := true, toolsCache := tools }

/-- The checks that do not look at the lists: the veto on names, and the rules for arguments. -/
def clears (guards : McpRegistry.Guards) (spec : McpServerSpec) (call : McpToolCall) : Bool :=
  !(spec.readOnly && toolMatchesWritePattern call.tool
    (if guards.writePatterns.isEmpty then defaultWriteToolPatterns else guards.writePatterns)) &&
  match guards.argumentPolicy.tools.lookup call.tool with
  | none => true
  | some rules => (enforceArgumentPolicy call.tool rules call.arguments (some guards.projectRoot)).toOption.isSome

theorem sends_iff_checkCall {client : McpClient} : client.Sends call ↔ client.checkCall call = .ok () := by
  unfold McpClient.Sends McpClient.callTool
  rcases client.checkCall call with e | _
  · simp
  · exact iff_of_true ⟨.ok .null, 0, _, rfl⟩ rfl

/-- What the checks come to, one after the other. -/
theorem sends_iff : (startedClient guards spec tools).Sends call ↔
    Open (scopeMcpSpecToAllowlist spec guards.allowTools) call.tool ∧
    (spec.readOnly = true → readOnlyAdmits guards.readOnlyPosture
      (!(scopeMcpSpecToAllowlist spec guards.allowTools).allowedTools.isEmpty) (hasEvidence tools call.tool) = true) ∧
    clears guards spec call = true := by
  have hopen : Open (scopeMcpSpecToAllowlist spec guards.allowTools) call.tool ↔
      (!(scopeMcpSpecToAllowlist spec guards.allowTools).allowedTools.isEmpty &&
        !(scopeMcpSpecToAllowlist spec guards.allowTools).allowedTools.contains call.tool) = false := by
    simp [Open, or_iff_not_imp_left]
  have hreadOnly : (scopeMcpSpecToAllowlist spec guards.allowTools).readOnly = spec.readOnly := by
    unfold scopeMcpSpecToAllowlist
    split_ifs <;> rfl
  rw [sends_iff_checkCall, hopen]
  unfold McpClient.checkCall startedClient newClient McpClient.withArgumentPolicy McpClient.new clears hasEvidence
  dsimp only
  rw [hreadOnly]
  generalize (!(scopeMcpSpecToAllowlist spec guards.allowTools).allowedTools.isEmpty &&
    !(scopeMcpSpecToAllowlist spec guards.allowTools).allowedTools.contains call.tool) = refused
  generalize readOnlyAdmits _ _ _ = admitted
  generalize toolMatchesWritePattern _ _ = vetoed
  rcases refused with _ | _
  · rcases hlookup : guards.argumentPolicy.tools.lookup call.tool with _ | rules
    · rcases spec.readOnly with _ | _ <;> rcases admitted with _ | _ <;> rcases vetoed with _ | _ <;>
        simp [bind, Except.bind, pure, Except.pure, throw, throwThe, MonadExceptOf.throw]
    · dsimp only
      rcases enforceArgumentPolicy call.tool rules call.arguments (some guards.projectRoot) with e | _ <;>
      rcases spec.readOnly with _ | _ <;> rcases admitted with _ | _ <;> rcases vetoed with _ | _ <;>
        simp [bind, Except.bind, pure, Except.pure, throw, throwThe, MonadExceptOf.throw, Except.toOption]
  · simp [bind, Except.bind, throw, throwThe, MonadExceptOf.throw]

end Sends

/-! ### Whose client it is -/

section Served

variable {guards : McpRegistry.Guards} {answers : Nat → Except McpError Json} {name : String}

theorem start_eq (spec : McpServerSpec) (answer : Except McpError Json) :
    ((newClient guards spec).start answer).toOption = (toolsAtStart spec answer).map (startedClient guards spec) := by
  unfold McpClient.start toolsAtStart
  have hcommand : (newClient guards spec).spec.command = spec.command := scope_command spec guards.allowTools
  have hname : (newClient guards spec).name = spec.name := scope_name spec guards.allowTools
  rw [hcommand, hname]
  dsimp only [newClient, McpClient.withArgumentPolicy, McpClient.new]
  rcases spec.command.isEmpty with _ | _
  · rcases answer with e | value
    · rfl
    · simp only [Bool.false_eq_true, if_false]
      rcases parseToolsList spec.name value with e | tools <;> simp [Except.toOption, startedClient, newClient,
        McpClient.withArgumentPolicy, McpClient.new]
  · rfl

theorem get_go {r : McpRegistry} {found : Option (McpServerSpec × List McpToolInfo)}
    (hfound : r.get name = found.map fun served => startedClient guards served.1 served.2) (index : Nat)
    (specs : List McpServerSpec) :
    (match McpRegistry.registerAll.go guards answers guards.patterns r index specs with
      | (.ok (), r') => r'.get name
      | (.error _, _) => none) =
    (servedFrom answers name index found specs).map fun served => startedClient guards served.1 served.2 := by
  induction specs generalizing r found index with
  | nil => exact hfound
  | cons spec specs ih =>
    have hstart : ((newClient guards spec).start (answers index)).toOption = _ := start_eq spec (answers index)
    rw [McpRegistry.go_cons, servedFrom]
    rcases hanswer : (newClient guards spec).start (answers index) with e | client <;>
      rcases htools : toolsAtStart spec (answers index) with _ | tools <;>
      rw [hanswer, htools] at hstart
    · rfl
    · cases hstart
    · cases hstart
    · obtain rfl : client = startedClient guards spec tools := Option.some.inj hstart
      refine ih ?_ (index + 1)
      rw [McpRegistry.get_insert]
      split_ifs with h
      · rfl
      · exact hfound

/-- The client is that of the last server of the name, with the tools it has listed. -/
theorem clientOf_eq (specs : List McpServerSpec) : clientOf specs guards answers name =
    (served specs answers name).map fun served => startedClient guards served.1 served.2 :=
  get_go rfl 0 specs

theorem reaches_iff {specs : List McpServerSpec} {call : McpToolCall} : Reaches specs guards answers name call ↔
    ∃ spec tools, served specs answers name = some (spec, tools) ∧ (startedClient guards spec tools).Sends call := by
  unfold Reaches
  rw [clientOf_eq]
  constructor
  · rintro ⟨client, hclient, hsends⟩
    obtain ⟨⟨spec, tools⟩, hserved, rfl⟩ := Option.map_eq_some_iff.mp hclient
    exact ⟨spec, tools, hserved, hsends⟩
  · rintro ⟨spec, tools, hserved, hsends⟩
    exact ⟨_, by rw [hserved]; rfl, hsends⟩

end Served

/-! ### Fewer patterns and rules -/

section Fewer

variable {tool : String} {arguments : Json} {projectRoot : Option PathBuf}

/-- Each key is checked on its own. -/
theorem checkPathArgs_ok_iff {keys : List String} : checkPathArgs tool arguments projectRoot keys = .ok () ↔
    ∀ key ∈ keys, checkPathArgs tool arguments projectRoot [key] = .ok () := by
  induction keys with
  | nil => exact iff_of_true rfl fun _ h => absurd h List.not_mem_nil
  | cons key keys ih =>
    rw [List.forall_mem_cons, ← ih]
    simp only [checkPathArgs]
    split
    · split
      · simp
      · split_ifs <;> simp
    · simp

theorem checkDenySubstrings_ok_iff {rules : List (String × List String)} :
    checkDenySubstrings arguments rules = .ok () ↔ ∀ rule ∈ rules, checkDenySubstrings arguments [rule] = .ok () := by
  induction rules with
  | nil => exact iff_of_true rfl fun _ h => absurd h List.not_mem_nil
  | cons rule rules ih =>
    obtain ⟨key, needles⟩ := rule
    rw [List.forall_mem_cons, ← ih]
    simp only [checkDenySubstrings]
    split
    · split <;> simp
    · simp

/-- Fewer needles are found in less. -/
theorem checkDenySubstrings_of_subset {key : String} {needles needles' : List String} (hsub : needles' ⊆ needles)
    (h : checkDenySubstrings arguments [(key, needles)] = .ok ()) :
    checkDenySubstrings arguments [(key, needles')] = .ok () := by
  simp only [checkDenySubstrings] at h ⊢
  split at h
  · split at h
    · cases h
    · rename_i hnone
      rw [List.find?_eq_none] at hnone
      rw [List.find?_eq_none.mpr fun needle hneedle => hnone needle (hsub hneedle)]
  · rfl

theorem enforceArgumentPolicy_ok_iff {rules : McpToolArgRules} :
    enforceArgumentPolicy tool rules arguments projectRoot = .ok () ↔
      checkPathArgs tool arguments projectRoot rules.pathArgs = .ok () ∧
        checkDenySubstrings arguments rules.denySubstrings = .ok () := by
  unfold enforceArgumentPolicy
  rcases checkPathArgs tool arguments projectRoot rules.pathArgs with e | _ <;> simp

/-- What the rules let pass, fewer rules let pass. -/
theorem enforceArgumentPolicy_of_among {rules rules' : McpToolArgRules} (hamong : rules'.Among rules)
    (h : enforceArgumentPolicy tool rules arguments projectRoot = .ok ()) :
    enforceArgumentPolicy tool rules' arguments projectRoot = .ok () := by
  obtain ⟨hpaths, hdenied⟩ := hamong
  obtain ⟨hpathsOk, hdeniedOk⟩ := enforceArgumentPolicy_ok_iff.mp h
  refine enforceArgumentPolicy_ok_iff.mpr ⟨?_, ?_⟩
  · exact checkPathArgs_ok_iff.mpr fun key hkey => checkPathArgs_ok_iff.mp hpathsOk key (hpaths hkey)
  · refine checkDenySubstrings_ok_iff.mpr fun rule hrule => ?_
    obtain ⟨needles, hmem, hsub⟩ := hdenied rule.1 rule.2 hrule
    exact checkDenySubstrings_of_subset hsub (checkDenySubstrings_ok_iff.mp hdeniedOk _ hmem)

theorem toolMatchesWritePattern_of_subset {patterns patterns' : List String} (hsub : patterns' ⊆ patterns)
    (h : toolMatchesWritePattern tool patterns' = true) : toolMatchesWritePattern tool patterns = true := by
  obtain ⟨pattern, hpattern, hmatch⟩ := List.any_eq_true.mp h
  exact List.any_eq_true.mpr ⟨pattern, hsub hpattern, hmatch⟩

variable {guards : McpRegistry.Guards} {spec : McpServerSpec} {call : McpToolCall}

theorem clears_iff : clears guards spec call = true ↔
    (spec.readOnly = true → toolMatchesWritePattern call.tool guards.patterns = false) ∧
      ∀ rules, guards.argumentPolicy.tools.lookup call.tool = some rules →
        enforceArgumentPolicy call.tool rules call.arguments (some guards.projectRoot) = .ok () := by
  unfold clears
  rw [Bool.and_eq_true]
  refine and_congr ?_ ?_
  · change (!(spec.readOnly && toolMatchesWritePattern call.tool guards.patterns)) = true ↔ _
    rcases spec.readOnly with _ | _ <;> simp
  · rcases guards.argumentPolicy.tools.lookup call.tool with _ | rules
    · simp
    · dsimp only
      rcases hcheck : enforceArgumentPolicy call.tool rules call.arguments (some guards.projectRoot) with e | _ <;>
        simp [Except.toOption, hcheck]

theorem clears_of_fewer {patterns : List String} {policy : McpArgumentPolicy} (hne : patterns ≠ [])
    (hpatterns : patterns ⊆ guards.writePatterns) (hpolicy : policy.Among guards.argumentPolicy)
    (h : clears guards spec call = true) :
    clears { guards with writePatterns := patterns, argumentPolicy := policy } spec call = true := by
  obtain ⟨hveto, hrules⟩ := clears_iff.mp h
  have hne' : guards.writePatterns ≠ [] := fun hnil => hne (List.subset_nil.mp (hnil ▸ hpatterns))
  refine clears_iff.mpr ⟨fun hreadOnly => ?_, fun rules' hlookup' => ?_⟩
  · have hveto := hveto hreadOnly
    rw [McpRegistry.Guards.patterns, if_neg (by simpa using hne')] at hveto
    rw [McpRegistry.Guards.patterns, if_neg (by simpa using hne)]
    by_contra hmatch
    rw [toolMatchesWritePattern_of_subset hpatterns (by simpa using hmatch)] at hveto
    cases hveto
  · obtain ⟨rules, hlookup, hamong⟩ := hpolicy call.tool rules' hlookup'
    exact enforceArgumentPolicy_of_among hamong (hrules rules hlookup)

end Fewer

/-! ### The global list -/

/-- The server has no list of its own, and what else makes the tool callable is missing: the global list
stands in for it. -/
def BorrowsEvidence (guards : McpRegistry.Guards) (spec : McpServerSpec) (tools : List McpToolInfo) (tool : String) : Prop :=
  spec.allowedTools = [] ∧ tool ∈ guards.allowTools ∧ spec.readOnly = true ∧
    guards.readOnlyPosture = .denyByDefault ∧ hasEvidence tools tool = false

/-- The lists have nothing in common, and the server's own, which has not the tool, is lost. -/
def LosesList (guards : McpRegistry.Guards) (spec : McpServerSpec) (tools : List McpToolInfo) (tool : String) : Prop :=
  ¬ Overlaps guards.allowTools spec ∧ tool ∉ spec.allowedTools ∧
    (spec.readOnly = true → guards.readOnlyPosture = .denyByDefault → hasEvidence tools tool = true)

section Lists

variable {guards : McpRegistry.Guards} {spec : McpServerSpec} {tools : List McpToolInfo} {call : McpToolCall}

/-- A tool is open, and admitted, by what the two lists come to. -/
def Admitted (guards : McpRegistry.Guards) (spec : McpServerSpec) (tools : List McpToolInfo) (tool : String) : Prop :=
  Open (scopeMcpSpecToAllowlist spec guards.allowTools) tool ∧
    (spec.readOnly = true → readOnlyAdmits guards.readOnlyPosture
      (!(scopeMcpSpecToAllowlist spec guards.allowTools).allowedTools.isEmpty) (hasEvidence tools tool) = true)

theorem readOnlyAdmits_iff {posture : McpReadOnlyPosture} {allowlisted evidence : Bool} :
    readOnlyAdmits posture allowlisted evidence = true ↔
      (posture = .denyByDefault → allowlisted = true ∨ evidence = true) := by
  cases posture <;> simp [readOnlyAdmits]

/-- By its list alone, or as a tool that need not, or does, have evidence. -/
theorem admitted_iff : Admitted guards spec tools call.tool ↔
    call.tool ∈ (scopeMcpSpecToAllowlist spec guards.allowTools).allowedTools ∨
      (scopeMcpSpecToAllowlist spec guards.allowTools).allowedTools = [] ∧
        (spec.readOnly = true → guards.readOnlyPosture = .denyByDefault → hasEvidence tools call.tool = true) := by
  unfold Admitted Open
  simp only [readOnlyAdmits_iff]
  rcases (scopeMcpSpecToAllowlist spec guards.allowTools).allowedTools with _ | ⟨tool, allowed⟩ <;> simp

theorem scope_nil (spec : McpServerSpec) : scopeMcpSpecToAllowlist spec [] = spec := rfl

/-- What the one list of the two has. -/
theorem mem_scope_iff {tool : String} (hallow : guards.allowTools ≠ []) :
    tool ∈ (scopeMcpSpecToAllowlist spec guards.allowTools).allowedTools ↔
      tool ∈ guards.allowTools ∧ (spec.allowedTools = [] ∨ tool ∈ spec.allowedTools) := by
  unfold scopeMcpSpecToAllowlist
  rw [if_neg (by simpa using hallow)]
  by_cases hallowed : spec.allowedTools = []
  · simp [hallowed]
  · rw [if_neg (by simpa using hallowed)]
    simp [hallowed, and_comm]

/-- It is lost exactly where the two have nothing in common. -/
theorem scope_eq_nil_iff (hallow : guards.allowTools ≠ []) :
    (scopeMcpSpecToAllowlist spec guards.allowTools).allowedTools = [] ↔ ¬ Overlaps guards.allowTools spec := by
  refine ⟨fun h hoverlaps => ?_, scope_of_disjoint⟩
  have hnone {tool : String} : ¬(tool ∈ guards.allowTools ∧ (spec.allowedTools = [] ∨ tool ∈ spec.allowedTools)) := by
    rw [← mem_scope_iff hallow, h]
    exact List.not_mem_nil
  rcases hoverlaps with hnil | hnil | ⟨tool, hmem, hcommon⟩
  · exact hallow hnil
  · obtain ⟨tool, hmem⟩ := List.exists_mem_of_ne_nil _ hallow
    exact hnone ⟨hmem, Or.inl hnil⟩
  · exact hnone ⟨hcommon, Or.inr hmem⟩

/-- **What the global list admits that is not admitted without it.** -/
theorem admitted_only_iff (hallow : guards.allowTools ≠ []) :
    (Admitted guards spec tools call.tool ∧ ¬ Admitted { guards with allowTools := [] } spec tools call.tool) ↔
      BorrowsEvidence guards spec tools call.tool ∨ LosesList guards spec tools call.tool := by
  rw [admitted_iff, admitted_iff, scope_nil, mem_scope_iff hallow, scope_eq_nil_iff hallow]
  unfold BorrowsEvidence LosesList
  rw [← Bool.not_eq_true]
  dsimp only
  by_cases hallowed : spec.allowedTools = []
  · have hoverlaps : Overlaps guards.allowTools spec := Or.inr (Or.inl hallowed)
    simp only [hallowed, List.not_mem_nil]
    tauto
  · tauto

end Lists

/-! ### The result -/

theorem sends_iff_admitted {guards : McpRegistry.Guards} {spec : McpServerSpec} {tools : List McpToolInfo}
    {call : McpToolCall} : (startedClient guards spec tools).Sends call ↔
      Admitted guards spec tools call.tool ∧ clears guards spec call = true := by
  rw [sends_iff, Admitted, and_assoc]

/-- **The restrictions only restrict a call exactly if, where nothing else refuses it, the global list neither stands in
for a list the server has not, as the only evidence that the tool reads, nor leaves no list where the server's
has not the tool.** -/
theorem onlyRestricts_iff (specs : List McpServerSpec) (guards : McpRegistry.Guards) (answers : Nat → Except McpError Json)
    (name : String) (call : McpToolCall) :
    OnlyRestricts specs guards answers name call ↔
      ∀ spec tools, served specs answers name = some (spec, tools) → clears guards spec call = true →
        ¬ BorrowsEvidence guards spec tools call.tool ∧ ¬ LosesList guards spec tools call.tool := by
  constructor
  · intro h spec tools hserved hclears
    rw [← not_or]
    intro honly
    have hallow : guards.allowTools ≠ [] := by
      rcases honly with hborrows | hloses
      · exact List.ne_nil_of_mem hborrows.2.1
      · exact fun hnil => hloses.1 (Or.inl hnil)
    obtain ⟨hadmitted, hnot⟩ : Admitted guards spec tools call.tool ∧ _ := (admitted_only_iff hallow).mpr honly
    have hreaches := h.lifted hallow (reaches_iff.mpr ⟨spec, tools, hserved, sends_iff_admitted.mpr ⟨hadmitted, hclears⟩⟩)
    obtain ⟨spec', tools', hserved', hsends⟩ := reaches_iff.mp hreaches
    obtain ⟨rfl, rfl⟩ := Prod.mk.inj (Option.some.inj (hserved.symm.trans hserved'))
    exact hnot (sends_iff_admitted.mp hsends).1
  · intro h
    constructor
    · intro hallow hreaches
      obtain ⟨spec, tools, hserved, hsends⟩ := reaches_iff.mp hreaches
      obtain ⟨hadmitted, hclears⟩ := sends_iff_admitted.mp hsends
      obtain ⟨hborrows, hloses⟩ := h spec tools hserved hclears
      refine reaches_iff.mpr ⟨spec, tools, hserved, sends_iff_admitted.mpr ⟨?_, hclears⟩⟩
      by_contra hnot
      exact ((admitted_only_iff hallow).mp ⟨hadmitted, hnot⟩).elim hborrows hloses
    · intro patterns policy hne hpatterns hpolicy hreaches
      obtain ⟨spec, tools, hserved, hsends⟩ := reaches_iff.mp hreaches
      obtain ⟨hadmitted, hclears⟩ := sends_iff_admitted.mp hsends
      exact reaches_iff.mpr ⟨spec, tools, hserved,
        sends_iff_admitted.mpr ⟨hadmitted, clears_of_fewer hne hpatterns hpolicy hclears⟩⟩
    · intro hdeny spec tools hserved hreadOnly hreaches
      obtain ⟨spec', tools', hserved', hsends⟩ := reaches_iff.mp hreaches
      obtain ⟨rfl, rfl⟩ := Prod.mk.inj (Option.some.inj (hserved.symm.trans hserved'))
      obtain ⟨hadmitted, hclears⟩ := sends_iff_admitted.mp hsends
      rcases admitted_iff.mp hadmitted with hmem | ⟨-, hevidence⟩
      · by_cases hallow : guards.allowTools = []
        · rw [hallow, scope_nil] at hmem
          exact Or.inl hmem
        · obtain ⟨hglobal, hnil | hown⟩ := (mem_scope_iff hallow).mp hmem
          · refine Or.inr (by_contra fun hnone => (h spec tools hserved hclears).1 ?_)
            exact ⟨hnil, hglobal, hreadOnly, hdeny, by simpa using hnone⟩
          · exact Or.inl hown
      · exact Or.inr (hevidence hreadOnly hdeny)

/-- A server of which nothing is configured but that it is to read only. -/
def archive : McpServerSpec := ⟨"archive", ["archive-mcp"], [], .both, true⟩

/-- **The global list makes a tool callable** that says nothing of only reading: `commit` is refused without it, and sent
with it. -/
theorem global_list_admits :
    Reaches [archive] ⟨[], ["commit"], .denyByDefault, ⟨[]⟩, ⟨"/project"⟩⟩ (fun _ => .ok (oneTool "commit")) "archive"
      ⟨"archive", "commit", .object []⟩ ∧
    ¬ Reaches [archive] ⟨[], [], .denyByDefault, ⟨[]⟩, ⟨"/project"⟩⟩ (fun _ => .ok (oneTool "commit")) "archive"
      ⟨"archive", "commit", .object []⟩ ∧
    ¬ OnlyRestricts [archive] ⟨[], ["commit"], .denyByDefault, ⟨[]⟩, ⟨"/project"⟩⟩ (fun _ => .ok (oneTool "commit"))
      "archive" ⟨"archive", "commit", .object []⟩ := by
  have hreaches : Reaches [archive] ⟨[], ["commit"], .denyByDefault, ⟨[]⟩, ⟨"/project"⟩⟩ (fun _ => .ok (oneTool "commit"))
      "archive" ⟨"archive", "commit", .object []⟩ := ⟨_, rfl, .ok .null, 0, _, rfl⟩
  have hrefused : ¬ Reaches [archive] ⟨[], [], .denyByDefault, ⟨[]⟩, ⟨"/project"⟩⟩ (fun _ => .ok (oneTool "commit"))
      "archive" ⟨"archive", "commit", .object []⟩ := by
    rintro ⟨client, hclient, answer, durationMs, request, hsent⟩
    obtain rfl := Option.some.inj hclient
    cases hsent
  exact ⟨hreaches, hrefused, fun h => hrefused (h.lifted (by simp) hreaches)⟩

end Nerve.Mcp
